import OperationHooks.Proofs.Disk.LinkFree
import OperationHooks.Proofs.Path

set_option autoImplicit false

namespace OperationHooks.Disk
open Effect

structure Overlaid (G : Place → Prop) (d d' : Disk) : Prop where
  here : d'.here = d.here
  entries : ∀ q, d'.tree.get? q = d.tree.get? q ∨
    G q ∧ d.tree.get? q ≠ some .directory ∧ ∃ bytes executable,
      d'.tree.get? q = some (.file bytes executable)

section Overlaid

variable {G : Place → Prop} {d d' : Disk} {p : Path} {bytes : List UInt8}

namespace Overlaid

theorem refl (G : Place → Prop) (d : Disk) : Overlaid G d d := ⟨rfl,fun _ => .inl rfl⟩

theorem linkFree (h : Overlaid G d d') (hd : LinkFree d.tree) : LinkFree d'.tree := by
  intro q target hq
  rcases h.entries q with he | ⟨-,-,bytes,executable,he⟩
  · exact hd q target (he ▸ hq)
  · rw [he] at hq; cases hq

theorem directory_iff (h : Overlaid G d d') (q : Place) :
    d'.tree.get? q = some .directory ↔ d.tree.get? q = some .directory := by
  rcases h.entries q with he | ⟨-,hne,bytes,executable,he⟩
  · rw [he]
  · simp [he,hne]

theorem of_not (h : Overlaid G d d') {q : Place} (hq : ¬ G q) : d'.tree.get? q = d.tree.get? q :=
  (h.entries q).resolve_right fun h => hq h.1

theorem put {q : Place} (h : Overlaid G d d') (hq : G q) (hne : q ≠ [])
    (hdir : d.tree.get? q ≠ some .directory) (bytes : List UInt8) (executable : Bool) :
    Overlaid G d (d'.putAt q (.file bytes executable)) := by
  refine ⟨h.here,fun r => ?_⟩
  by_cases hr : r = q
  · subst hr
    exact .inr ⟨hq,hdir,bytes,executable,Tree.get?_put_self hne _⟩
  · rw [putAt,Tree.get?_put_of_ne hne _ hr]; exact h.entries r

end Overlaid

theorem walk_linkFree (hd : LinkFree d.tree) (followLast : Bool) {found : Found} :
    d.walk followLast p = .ok found ↔
      Askable p ∧ plainWalk d.tree (d.startOf p) p.parts = .ok found := by
  rw [walk_eq_ok,walkFrom_linkFree hd]

theorem place_of_walk (hd : LinkFree d.tree) {followLast : Bool} {found : Found}
    (h : d.walk followLast p = .ok found) : found.place = placeOf d p :=
  place_of_plainWalk hd ((walk_linkFree hd _).1 h).2

theorem read_overlaid (hd : LinkFree d.tree) (h : Overlaid G d d') (hp : ¬ G (placeOf d p)) :
    d'.read p = .ok bytes ↔ d.read p = .ok bytes := by
  have hd' := h.linkFree hd
  have hlast : d'.tree.get? (lexical (d.startOf p) p.parts) =
      d.tree.get? (lexical (d.startOf p) p.parts) := h.of_not hp
  simp only [read_eq_ok,walk_linkFree hd,walk_linkFree hd',startOf_eq h.here]
  constructor
  · rintro ⟨c,executable,ha,hw⟩
    exact ⟨c,executable,ha,plainWalk_file hd' hd (fun q => (h.directory_iff q).1) hlast.symm hw⟩
  · rintro ⟨c,executable,ha,hw⟩
    exact ⟨c,executable,ha,plainWalk_file hd hd' (fun q => (h.directory_iff q).2) hlast hw⟩

def HasDirectory (d : Disk) (p : Path) : Prop :=
  d.walk true p = .ok (.entry (placeOf d p) .directory)

theorem hasDirectory_iff (hd : LinkFree d.tree) :
    HasDirectory d p ↔ d.isDirectory p = .ok true := by
  rw [isDirectory_eq_true]
  refine ⟨fun h => ⟨_,h⟩,fun ⟨c,hw⟩ => ?_⟩
  have hc := place_of_walk hd hw
  rw [Found.place] at hc
  rw [HasDirectory,← hc]; exact hw

theorem hasDirectory_overlaid (hd : LinkFree d.tree) (h : Overlaid G d d') :
    HasDirectory d' p ↔ HasDirectory d p := by
  have hd' := h.linkFree hd
  simp only [HasDirectory,walk_linkFree hd,walk_linkFree hd',startOf_eq h.here,placeOf_eq h.here]
  exact and_congr_right fun _ =>
    ⟨plainWalk_directory hd' hd fun q => (h.directory_iff q).1,
      plainWalk_directory hd hd' fun q => (h.directory_iff q).2⟩

end Overlaid

section Below

variable {d : Disk} {p : Path} {name : String} {bytes : List UInt8}

def childOf (p : Path) (name : String) : Path := { p with parts := p.parts ++ [name] }

theorem ofString_part {name : String} (h : Path.IsPart name) :
    Path.ofString name = ⟨.here,[name]⟩ := by
  have hne := Path.toList_ne_nil h
  have hanchor : Path.anchorOf name.toList = .here := by
    obtain ⟨c,cs,hcs⟩ := List.exists_cons_of_ne_nil hne
    have hc : c ≠ '/' := by rintro rfl; exact h.2.2 (by simp [hcs])
    rw [hcs]
    simp [Path.anchorOf,hc]
  simp [Path.ofString,Path.ofChars,hanchor,Path.splitAt_eq_splitOn,List.splitOn_eq_singleton h.2.2,
    Path.saysNothing,hne,Path.toList_ne_dot h]

theorem div_part (p : Path) {name : String} (h : Path.IsPart name) : p / name = childOf p name := by
  show p.join (.ofString name) = childOf p name
  rw [ofString_part h]
  rfl

theorem parent_childOf (p : Path) (name : String) : (childOf p name).parent = p := by
  simp [childOf,Path.parent]

theorem name_childOf (p : Path) (name : String) : (childOf p name).name = name := by
  simp [childOf,Path.name]

theorem startOf_childOf (d : Disk) (p : Path) (name : String) :
    d.startOf (childOf p name) = d.startOf p := rfl

theorem placeOf_childOf (d : Disk) (p : Path) (hd : name ≠ ".") (hu : name ≠ "..") :
    placeOf d (childOf p name) = placeOf d p ++ [name] := by
  rw [placeOf,startOf_childOf,childOf,lexical_append,lexical_step _ _ hd hu,lexical_nil,placeOf]

theorem walk_childOf (hd : LinkFree d.tree) (hp : HasDirectory d p)
    (followLast : Bool) {found : Found} :
    d.walk followLast (childOf p name) = .ok found ↔
      Askable (childOf p name) ∧ plainWalk d.tree (placeOf d p) [name] = .ok found := by
  rw [walk_linkFree hd,startOf_childOf,childOf,plainWalk_append hd _ ((walk_linkFree hd _).1 hp).2]

def CanWrite (d : Disk) (p : Path) : Prop :=
  ∃ found, d.walk true p = .ok found ∧ ∀ c, found ≠ .entry c .directory

/-- A file can be written into a directory unless a directory has its name, or the name is too long.
-/
theorem canWrite_childOf (hd : LinkFree d.tree) (hp : HasDirectory d p) (hdot : name ≠ ".")
    (hup : name ≠ "..") : CanWrite d (childOf p name) ↔
      Askable (childOf p name) ∧ name.utf8ByteSize ≤ maxNameBytes ∧
        d.tree.get? (placeOf d p ++ [name]) ≠ some .directory := by
  unfold CanWrite
  simp only [walk_childOf hd hp]
  by_cases hl : maxNameBytes < name.utf8ByteSize
  · simp [plainWalk_long _ _ _ hdot hup hl,Nat.not_le.2 hl]
  · rw [plainWalk_step hd _ _ hdot hup (Nat.le_of_not_lt hl)]
    cases he : d.tree.get? (placeOf d p ++ [name]) with
    | none => simp [Nat.le_of_not_lt hl]
    | some e => cases e <;> simp [Nat.le_of_not_lt hl]

theorem canWrite_overlaid {G : Place → Prop} {d' : Disk} (hd : LinkFree d.tree)
    (h : Overlaid G d d')
    (hp : HasDirectory d p) (hdot : name ≠ ".") (hup : name ≠ "..") :
    CanWrite d' (childOf p name) ↔ CanWrite d (childOf p name) := by
  rw [canWrite_childOf hd hp hdot hup,
    canWrite_childOf (h.linkFree hd) ((hasDirectory_overlaid hd h).2 hp) hdot hup,placeOf_eq h.here]
  simp only [ne_eq,h.directory_iff]

/-- What a file becomes: its new bytes, and whether it could be run before. -/
def stored (old : Option Entry) (bytes : List UInt8) : Entry :=
  .file bytes (match old with | some (.file _ executable) => executable | _ => false)

theorem stored_of_ne {old : Option Entry}
    (h : ∀ bytes executable, old ≠ some (.file bytes executable))
    (bytes : List UInt8) : stored old bytes = .file bytes false := by
  unfold stored
  split
  · exact absurd rfl (h _ _)
  · rfl

theorem stored_stored (old : Option Entry) (bytes bytes' : List UInt8) :
    stored (some (stored old bytes)) bytes' = stored old bytes' := rfl

/-- Writing puts a file where the path leads, or does nothing. -/
theorem write_spec (hd : LinkFree d.tree) (p : Path) (bytes : List UInt8) :
    (CanWrite d p ∧ run (write p bytes) d =
        (.ok (),d.putAt (placeOf d p) (stored (d.tree.get? (placeOf d p)) bytes))) ∨
      ¬ CanWrite d p ∧ ∃ fault, run (write p bytes) d = (.error fault,d) := by
  unfold CanWrite write
  simp only [run_bind,run_get]
  cases hw : d.walk true p with
  | error fault => exact .inr ⟨by simp,fault,rfl⟩
  | ok found =>
    have hplace := place_of_walk hd hw
    have hagrees := agrees_of_walkFrom _ _ _ (walk_eq_ok.1 hw).2
    cases found with
    | missing c =>
      obtain rfl : c = placeOf d p := hplace
      refine .inl ⟨⟨_,rfl,by simp⟩,?_⟩
      rw [show d.tree.get? (placeOf d p) = none from hagrees]; rfl
    | entry c e =>
      obtain rfl : c = placeOf d p := hplace
      cases e with
      | file old executable =>
        refine .inl ⟨⟨_,rfl,by simp⟩,?_⟩
        rw [show d.tree.get? (placeOf d p) = some (.file old executable) from hagrees]; rfl
      | directory => exact .inr ⟨by simp,_,rfl⟩
      | link target => exact absurd hagrees (hd _ _)

theorem makeDirectories_of_hasDirectory (hd : LinkFree d.tree) (hp : HasDirectory d p) :
    run (makeDirectories p) d = (.ok (),d) := by
  have hfalse : d.walk false p = .ok (.entry (placeOf d p) .directory) :=
    (walk_linkFree hd _).2 ((walk_linkFree hd _).1 hp)
  have hmake : run (makeDirectory p) d = (refuse .exists p,d) := by rw [run_makeDirectory,hfalse]
  have hunless : run (unlessDirectory p (.system (.refused .exists p.text))) d = (.ok (),d) := by
    unfold unlessDirectory
    simp only [run_bind,run_get,run_lift,(hasDirectory_iff hd).1 hp]
    rfl
  unfold makeDirectories
  cases p.parts.length with
  | zero => rw [makeDirectoriesFrom,run_tryCatch,hmake]; exact hunless
  | succ above => rw [makeDirectoriesFrom,run_tryCatch,hmake]; exact hunless

/-- Whether something two steps below a directory is a file can be asked, unless its path cannot. -/
theorem isFile_of_askable {below : String} (hd : LinkFree d.tree) (hp : HasDirectory d p)
    (ha : Askable (childOf (childOf p name) below)) (hdot : name ≠ ".") (hup : name ≠ "..")
    (hl : name.utf8ByteSize ≤ maxNameBytes) (hdot' : below ≠ ".") (hup' : below ≠ "..")
    (hl' : below.utf8ByteSize ≤ maxNameBytes) :
    ∃ answer, d.isFile (childOf (childOf p name) below) = .ok answer := by
  have hwalk : d.walk true (childOf (childOf p name) below) =
      (plainWalk d.tree (placeOf d p) [name,below]).mapError
        fun errno => .system (.refused errno (childOf (childOf p name) below).text) := by
    rw [walk_of_askable ha,walkFrom_linkFree hd,startOf_childOf,startOf_childOf]
    have hparts :
        (childOf (childOf p name) below).parts = p.parts ++ [name,below] := by simp [childOf]
    rw [hparts,plainWalk_append hd _ ((walk_linkFree hd _).1 hp).2]
  unfold isFile entry?
  rw [hwalk,plainWalk_step hd _ _ hdot hup hl]
  cases d.tree.get? (placeOf d p ++ [name]) with
  | none => exact ⟨false,rfl⟩
  | some e =>
    cases e with
    | file bytes executable => exact ⟨false,rfl⟩
    | link target => exact ⟨false,rfl⟩
    | directory =>
      rw [plainWalk_step hd _ _ hdot' hup' hl']
      cases d.tree.get? (placeOf d p ++ [name] ++ [below]) with
      | none => exact ⟨false,rfl⟩
      | some e => cases e <;> exact ⟨_,rfl⟩

theorem isFile_of_not_askable (ha : ¬ Askable p) (d d' : Disk) : d'.isFile p = d.isFile p := by
  obtain ⟨fault,hf⟩ := walk_of_not_askable ha
  simp only [isFile, entry?,hf]

end Below

end OperationHooks.Disk
