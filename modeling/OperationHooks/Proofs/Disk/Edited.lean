import OperationHooks.Proofs.Disk.FileTree
import OperationHooks.Proofs.Disk.Overlay
import OperationHooks.Proofs.Glob

set_option autoImplicit false

namespace OperationHooks.Disk
open Effect

def Entry.blank : Entry → Entry
  | .file _ _ => .file [] false
  | e => e

def Found.blank : Found → Found
  | .entry place e => .entry place e.blank
  | .missing place => .missing place

structure SameShape (d d' : Disk) : Prop where
  here : d'.here = d.here
  entries : ∀ q, (d'.tree.get? q).map Entry.blank = (d.tree.get? q).map Entry.blank

section Shape

variable {d d' : Disk} {t u : Tree} {p : Path} {followLast : Bool}

@[simp] theorem Entry.blank_eq_directory {e : Entry} : e.blank = .directory ↔ e = .directory := by
  cases e <;> simp [blank]

@[simp] theorem isFileEntry_blank (e : Entry) :
  isFileEntry e.blank = isFileEntry e := by cases e <;> rfl

theorem walkNames_shape {f g : Place → List String → Except Errno Found}
    (h : ∀ q, (u.get? q).map Entry.blank = (t.get? q).map Entry.blank)
    (hf : ∀ here names, (g here names).map Found.blank = (f here names).map Found.blank)
    (here : Place) (names : List String) : (walkNames u g followLast here names).map Found.blank =
      (walkNames t f followLast here names).map Found.blank := by
  induction here, names using names_induction with
  | nil here => rfl
  | dot here rest ih => simpa using ih
  | up here rest ih => simpa using ih
  | long here name rest hd hu hl _ =>
    rw [walkNames_long u followLast here rest g hd hu hl,
      walkNames_long t followLast here rest f hd hu hl]
  | step here name rest hd hu hl ih =>
    have hq := h (here ++ [name])
    rw [walkNames_step u followLast here rest g hd hu hl,
      walkNames_step t followLast here rest f hd hu hl]
    cases ht : t.get? (here ++ [name]) with
    | none =>
      rw [ht,Option.map_none,Option.map_eq_none_iff] at hq
      rw [hq]
    | some e =>
      obtain ⟨e',he',hblank⟩ := Option.map_eq_some_iff.1 (hq.trans (by rw [ht]; rfl))
      rw [he']
      cases e <;> cases e' <;> simp only [Entry.blank,reduceCtorEq] at hblank
      · cases rest.isEmpty <;> rfl
      · exact ih
      · obtain rfl := Entry.link.inj hblank
        dsimp only
        split
        · rfl
        · exact hf _ _

theorem walkFrom_shape (h : ∀ q, (u.get? q).map Entry.blank = (t.get? q).map Entry.blank)
    (links : Nat)
    (here : Place) (names : List String) :
      (walkFrom u followLast links here names).map Found.blank =
      (walkFrom t followLast links here names).map Found.blank := by
  induction links generalizing here names with
  | zero => exact walkNames_shape h (fun _ _ => rfl) here names
  | succ links ih => exact walkNames_shape h ih here names

/-- A path leads to the same place, and to an entry of the same kind. -/
theorem walk_shape (h : SameShape d d') (followLast : Bool) (p : Path) :
    (d'.walk followLast p).map Found.blank = (d.walk followLast p).map Found.blank := by
  have hwalk : (walkFrom d'.tree followLast maxLinks (d.startOf p) p.parts).map Found.blank =
      (walkFrom d.tree followLast maxLinks (d.startOf p) p.parts).map Found.blank :=
    walkFrom_shape h.entries maxLinks (d.startOf p) p.parts
  unfold walk
  rw [startOf_eq h.here]
  dsimp only
  split
  · rfl
  split
  · rfl
  cases hd : walkFrom d.tree followLast maxLinks (d.startOf p) p.parts <;>
    cases hd' : walkFrom d'.tree followLast maxLinks (d.startOf p) p.parts <;>
    rw [hd,hd'] at hwalk <;> simp_all [Except.map,mapError_ok,mapError_error]

theorem entry_shape (h : SameShape d d') (p : Path) :
    (d'.entry? p).map (Option.map Entry.blank) = (d.entry? p).map (Option.map Entry.blank) := by
  have hwalk := walk_shape h true p
  unfold entry?
  cases hd : d.walk true p with
  | error fault =>
    cases hd' : d'.walk true p with
    | error fault' =>
      rw [hd,hd'] at hwalk
      obtain rfl := Except.error.inj hwalk
      rfl
    | ok found => rw [hd,hd'] at hwalk; cases hwalk
  | ok found =>
    cases hd' : d'.walk true p with
    | error fault => rw [hd,hd'] at hwalk; cases hwalk
    | ok found' =>
      rw [hd,hd'] at hwalk
      have hblank : found'.blank = found.blank := Except.ok.inj hwalk
      cases found <;> cases found' <;> simp only [Found.blank,reduceCtorEq] at hblank
      · obtain ⟨-,he⟩ := Found.entry.inj hblank
        simp [Except.map,he]
      · rfl

theorem isFile_shape (h : SameShape d d') (p : Path) : d'.isFile p = d.isFile p := by
  have hfile : ∀ d : Disk, d.isFile p =
      ((d.entry? p).map (Option.map Entry.blank)).map fun e => e.any isFileEntry := fun d => by
    unfold isFile
    cases d.entry? p with
    | error fault => rfl
    | ok e => cases e <;> simp [Except.map]
  rw [hfile,hfile,entry_shape h]

theorem isDirectory_shape (h : SameShape d d') (p : Path) : d'.isDirectory p = d.isDirectory p := by
  have hdirectory : ∀ d : Disk, d.isDirectory p =
      ((d.entry? p).map (Option.map Entry.blank)).map fun e => e == some .directory := fun d => by
    unfold isDirectory
    cases d.entry? p with
    | error fault => rfl
    | ok e =>
      cases e with
      | none => rfl
      | some e => cases e <;> rfl
  rw [hdirectory,hdirectory,entry_shape h]

end Shape

/-- At one place is a file on both disks; all else is the same. -/
structure Edited (c : Place) (d d' : Disk) : Prop where
  here : d'.here = d.here
  elsewhere : ∀ q, q ≠ c → d'.tree.get? q = d.tree.get? q
  before : ∃ bytes executable, d.tree.get? c = some (.file bytes executable)
  after : ∃ bytes executable, d'.tree.get? c = some (.file bytes executable)

namespace Edited

variable {c : Place} {d d' : Disk} {p : Path}

theorem symm (h : Edited c d d') : Edited c d' d :=
  ⟨h.here.symm,fun q hq => (h.elsewhere q hq).symm,h.after,h.before⟩

theorem of_putAt {bytes : List UInt8} {executable : Bool} (hc : c ≠ [])
    (h : d.tree.get? c = some (.file bytes executable)) (bytes' : List UInt8) (executable' : Bool) :
    Edited c d (d.putAt c (.file bytes' executable')) :=
  ⟨rfl,fun _ hq => Tree.get?_put_of_ne hc _ hq,⟨bytes,executable,h⟩,bytes',executable',
    Tree.get?_put_self hc _⟩

theorem get?_iff (h : Edited c d d') {q : Place} {e : Entry}
    (he : ∀ bytes executable, e ≠ .file bytes executable) :
    d'.tree.get? q = some e ↔ d.tree.get? q = some e := by
  by_cases hq : q = c
  · subst hq
    obtain ⟨bytes,executable,hb⟩ := h.before
    obtain ⟨bytes',executable',ha⟩ := h.after
    simp [hb,ha,(he _ _).symm]
  · rw [h.elsewhere q hq]

theorem sameShape (h : Edited c d d') : SameShape d d' := by
  refine ⟨h.here,fun q => ?_⟩
  by_cases hq : q = c
  · subst hq
    obtain ⟨bytes,executable,hb⟩ := h.before
    obtain ⟨bytes',executable',ha⟩ := h.after
    rw [hb,ha]
    rfl
  · rw [h.elsewhere q hq]

theorem overlaid (h : Edited c d d') : Overlaid (· = c) d d' := by
  refine ⟨h.here,fun q => ?_⟩
  by_cases hq : q = c
  · subst hq
    obtain ⟨bytes,executable,hb⟩ := h.before
    exact .inr ⟨rfl,by simp [hb],h.after⟩
  · exact .inl (h.elsewhere q hq)

theorem linkFree (h : Edited c d d') (hl : LinkFree d.tree) : LinkFree d'.tree :=
  h.overlaid.linkFree hl

/-- Files at other places hold what they held. -/
theorem read_iff (h : Edited c d d') (hl : LinkFree d.tree) (hp : placeOf d p ≠ c)
    (bytes : List UInt8) :
    d'.read p = .ok bytes ↔ d.read p = .ok bytes := read_overlaid hl h.overlaid hp

theorem isFileTree (h : Edited c d d') (ht : IsFileTree d) : IsFileTree d' := by
  obtain ⟨bytes,executable,hb⟩ := h.before
  have hwas : ∀ q e, d'.tree.get? q = some e → ∃ e', d.tree.get? q = some e' ∧
      ∀ bytes executable, e = .file bytes executable → ∃ bytes executable,
        e' = .file bytes executable := by
    intro q e he
    by_cases hq : q = c
    · subst hq
      exact ⟨_,hb,fun _ _ _ => ⟨bytes,executable,rfl⟩⟩
    · exact ⟨e,(h.elsewhere q hq).symm.trans he,fun bytes executable heq => ⟨bytes,executable,heq⟩⟩
  refine ⟨h.linkFree ht.linkFree,fun q bytes executable hq r hr => ?_,fun q e he name hn => ?_⟩
  · obtain ⟨e',he',hfile⟩ := hwas q _ hq
    obtain ⟨bytes',executable',rfl⟩ := hfile _ _ rfl
    exact (h.get?_iff (by simp)).2 (ht.rooted q bytes' executable' he' r hr)
  · obtain ⟨e',he',-⟩ := hwas q e he
    exact ht.names q e' he' name hn

end Edited

end OperationHooks.Disk
