import OperationHooks.Output
import OperationHooks.Proofs.Disk.Access
/-!
Saving texts on any disk, links included. A text that was saved can be read where it was saved, and
every other file stays as it was; what is there stays there, so a path that leads to a file leads
there for good.
-/
set_option autoImplicit false

theorem OperationHooks.Text.encode_injective {a b : String} (h : encode a = encode b) : a = b := by
  have hbytes : a.toList.utf8Encode = b.toList.utf8Encode := congrArg List.toByteArray h
  have hofList : String.ofList a.toList = String.ofList b.toList := by
    apply String.toByteArray_inj.1
    rw [String.toByteArray_ofList,String.toByteArray_ofList,hbytes]
  rwa [String.ofList_toList,String.ofList_toList] at hofList

namespace OperationHooks.Disk
open Effect

/-- Entries of one kind. A file may have got other bytes. -/
inductive Entry.Like : Entry → Entry → Prop where
  | file (bytes bytes' : List UInt8) (executable : Bool) :
      Like (.file bytes executable) (.file bytes' executable)
  | directory : Like .directory .directory
  | link (target : String) : Like (.link target) (.link target)

theorem Entry.Like.refl (e : Entry) : e.Like e := by
  cases e with
  | file bytes executable => exact .file bytes bytes executable
  | directory => exact .directory
  | link target => exact .link target

theorem Entry.Like.trans {e e' e'' : Entry} (h : e.Like e') (h' : e'.Like e'') : e.Like e'' := by
  cases h with
  | file bytes _ executable =>
    cases h' with | file _ bytes' _ => exact .file bytes bytes' executable
  | directory => exact h'
  | link target => exact h'

structure Tree.Filled (t u : Tree) : Prop where
  kept : ∀ q e, t.get? q = some e → ∃ e', u.get? q = some e' ∧ e.Like e'
  links : ∀ q target, u.get? q = some (.link target) → t.get? q = some (.link target)

section Filled

variable {t u : Tree} {d d' d'' : Disk} {p q : Path} {followLast : Bool} {c : Place} {e : Entry}
variable {bytes : List UInt8} {text : String}

theorem Tree.Filled.refl (t : Tree) : t.Filled t := ⟨fun _ e he => ⟨e,he,.refl e⟩,fun _ _ h => h⟩

theorem Tree.Filled.trans {v : Tree} (h : t.Filled u) (h' : u.Filled v) : t.Filled v := by
  refine ⟨fun q e he => ?_,fun q target he => h.links q target (h'.links q target he)⟩
  obtain ⟨e',he',hl⟩ := h.kept q e he
  obtain ⟨e'',he'',hl'⟩ := h'.kept q e' he'
  exact ⟨e'',he'',hl.trans hl'⟩

theorem Tree.Grown.filled (h : t.Grown u) : t.Filled u := by
  refine ⟨fun q e he => ?_,fun q target he => ?_⟩
  · rcases h q with hq | ⟨hn,-⟩
    · exact ⟨e,hq.trans he,.refl e⟩
    · rw [hn] at he; cases he
  · rcases h q with hq | ⟨-,hd⟩
    · exact hq.symm.trans he
    · rw [hd] at he; cases he

theorem Tree.filled_put_file {executable : Bool} (hc : c ≠ [])
    (h : t.get? c = none ∨ ∃ bytes', t.get? c = some (.file bytes' executable)) :
    t.Filled (t.put c (.file bytes executable)) := by
  refine ⟨fun q e he => ?_,fun q target he => ?_⟩
  · by_cases hq : q = c
    · subst hq
      refine ⟨_,Tree.get?_put_self hc _,?_⟩
      rcases h with hn | ⟨bytes',hf⟩
      · rw [hn] at he; cases he
      · obtain rfl := Option.some.inj (hf.symm.trans he)
        exact .file bytes' bytes executable
    · exact ⟨e,(Tree.get?_put_of_ne hc _ hq).trans he,.refl e⟩
  · by_cases hq : q = c
    · subst hq; rw [Tree.get?_put_self hc] at he; cases he
    · exact (Tree.get?_put_of_ne hc _ hq).symm.trans he

theorem filled_of_walkNames {f g : Place → List String → Except Errno Found} (hfill : t.Filled u)
    (hf : ∀ here names, f here names = .ok (.entry c e) → ∃ e',
      g here names = .ok (.entry c e') ∧ e.Like e')
    (here : Place) (names : List String)
    (h : walkNames t f followLast here names = .ok (.entry c e)) :
    ∃ e', walkNames u g followLast here names = .ok (.entry c e') ∧ e.Like e' := by
  induction here, names using names_induction with
  | nil here => exact ⟨e,h,.refl e⟩
  | dot here rest ih => simpa using ih (by simpa using h)
  | up here rest ih => simpa using ih (by simpa using h)
  | long here name rest hd hu hl _ => simp [walkNames_long t followLast here rest f hd hu hl] at h
  | step here name rest hd hu hl ih =>
    rw [walkNames_step t followLast here rest f hd hu hl] at h
    rw [walkNames_step u followLast here rest g hd hu hl]
    cases he : t.get? (here ++ [name]) with
    | none => simp only [he] at h; split at h <;> cases h
    | some e₀ =>
      obtain ⟨e₁,he₁,hlike⟩ := hfill.kept _ _ he
      rw [he₁]
      cases hlike with
      | file bytes bytes' executable =>
        simp only [he] at h ⊢
        split at h
        · rename_i hr
          obtain ⟨rfl,rfl⟩ := Found.entry.inj (Except.ok.inj h)
          rw [if_pos hr]
          exact ⟨_,rfl,.file bytes bytes' executable⟩
        · cases h
      | directory => simp only [he] at h ⊢; exact ih h
      | link target =>
        simp only [he] at h ⊢
        split at h
        · rename_i hr
          rw [if_pos hr]
          exact ⟨e,h,.refl e⟩
        · rename_i hr
          rw [if_neg hr]
          exact hf _ _ h

theorem filled_of_walkFrom (hfill : t.Filled u) (links : Nat) (here : Place) (names : List String)
    (h : walkFrom t followLast links here names = .ok (.entry c e)) :
    ∃ e', walkFrom u followLast links here names = .ok (.entry c e') ∧ e.Like e' := by
  induction links generalizing here names with
  | zero => exact filled_of_walkNames hfill (fun _ _ h => by cases h) here names h
  | succ links ih => exact filled_of_walkNames hfill ih here names h

theorem Changed.filled_trans (h : Changed Tree.Filled d d') (h' : Changed Tree.Filled d' d'') :
    Changed Tree.Filled d d'' := ⟨h'.1.trans h.1,h.2.trans h'.2⟩

theorem Changed.filled_refl (d : Disk) : Changed Tree.Filled d d := ⟨rfl,.refl _⟩

theorem walk_filled (hfill : Changed Tree.Filled d d')
    (h : d.walk followLast p = .ok (.entry c e)) :
    ∃ e', d'.walk followLast p = .ok (.entry c e') ∧ e.Like e' := by
  obtain ⟨ha,hw⟩ := walk_eq_ok.1 h
  obtain ⟨e',hw',hl⟩ := filled_of_walkFrom hfill.2 _ _ _ hw
  exact ⟨e',walk_eq_ok.2 ⟨ha,by rw [startOf_eq hfill.1]; exact hw'⟩,hl⟩

def LeadsTo (d : Disk) (p : Path) (c : Place) : Prop :=
  ∃ bytes executable, d.walk true p = .ok (.entry c (.file bytes executable))

def OneFile (d : Disk) (p q : Path) : Prop := ∃ c, LeadsTo d p c ∧ LeadsTo d q c

theorem get?_of_walk {executable : Bool}
    (h : d.walk followLast p = .ok (.entry c (.file bytes executable))) :
    d.tree.get? c = some (.file bytes executable) := agrees_of_walkFrom _ _ _ (walk_eq_ok.1 h).2

namespace LeadsTo

theorem filled (h : LeadsTo d p c) (hfill : Changed Tree.Filled d d') : LeadsTo d' p c := by
  obtain ⟨bytes,executable,hw⟩ := h
  obtain ⟨e',hw',hl⟩ := walk_filled hfill hw
  cases hl with
  | file _ bytes' _ => exact ⟨bytes',executable,hw'⟩

theorem unique {c' : Place} (h : LeadsTo d p c) (h' : LeadsTo d p c') : c = c' := by
  obtain ⟨_,_,hw⟩ := h
  obtain ⟨_,_,hw'⟩ := h'
  exact (Found.entry.inj (Except.ok.inj (hw.symm.trans hw'))).1

theorem read_iff (h : LeadsTo d p c) :
    d.read p = .ok bytes ↔ ∃ executable, d.tree.get? c = some (.file bytes executable) := by
  obtain ⟨bytes',executable',hw⟩ := h
  rw [read_eq_ok,get?_of_walk hw,hw]
  constructor
  · rintro ⟨c',executable,he⟩
    obtain ⟨-,he⟩ := Found.entry.inj (Except.ok.inj he)
    exact ⟨executable,congrArg some he⟩
  · rintro ⟨executable,he⟩
    exact ⟨c,executable,by rw [Option.some.inj he]⟩

end LeadsTo

theorem isFile_eq_true : d.isFile p = .ok true ↔ ∃ c, LeadsTo d p c := by
  unfold isFile entry? LeadsTo
  cases hw : d.walk true p with
  | error fault =>
    cases hm : meansAbsent fault <;> simp [hm,Except.map]
  | ok found =>
    cases found with
    | missing place => simp [Except.map]
    | entry place e => cases e <;> simp [Except.map,isFileEntry]

theorem OneFile.symm (h : OneFile d p q) : OneFile d q p := by
  obtain ⟨c,hp,hq⟩ := h
  exact ⟨c,hq,hp⟩

theorem OneFile.filled (h : OneFile d p q) (hfill : Changed Tree.Filled d d') : OneFile d' p q := by
  obtain ⟨c,hp,hq⟩ := h
  exact ⟨c,hp.filled hfill,hq.filled hfill⟩

theorem not_oneFile {found found' : Found} (h : d.walk true p = .ok found)
    (h' : d.walk true q = .ok found')
    (hne : found.place ≠ found'.place) : ¬ OneFile d p q := by
  rintro ⟨c,⟨_,_,hw⟩,_,_,hw'⟩
  rw [Except.ok.inj (h.symm.trans hw),Except.ok.inj (h'.symm.trans hw')] at hne
  exact hne rfl

structure Saved (p : Path) (text : String) (d d' : Disk) : Prop where
  filled : Changed Tree.Filled d d'
  stored : ∃ c executable, LeadsTo d' p c ∧ d'.tree.get? c =
    some (.file (Text.encode text) executable) ∧
    ∀ q, q ≠ c → d'.tree.get? q = d.tree.get? q ∨
      d.tree.get? q = none ∧ d'.tree.get? q = some .directory

theorem write_ok (h : run (write p (Text.encode text)) d = (.ok (),d')) : Saved p text d d' := by
  unfold write at h
  simp only [run_bind,run_get] at h
  cases hw : d.walk true p with
  | error fault => simp [hw] at h
  | ok found =>
    cases found with
    | missing c =>
      simp only [hw,run_set] at h
      obtain ⟨-,rfl⟩ := Prod.mk.inj h
      have hnone := none_of_missing hw
      have hc := Tree.ne_nil_of_get? hnone
      obtain ⟨ha,hw⟩ := walk_eq_ok.1 hw
      refine ⟨⟨rfl,Tree.filled_put_file hc (.inl hnone)⟩,c,false,⟨Text.encode text,false,?_⟩,
        Tree.get?_put_self hc _,?_⟩
      · exact walk_eq_ok.2 ⟨ha,put_of_walkFrom (by simp) (Tree.get?_put_self hc _)
          (fun q hq => Tree.get?_put_of_ne hc _ hq) hnone _ _ _ hw⟩
      · exact fun q hq => .inl (Tree.get?_put_of_ne hc _ hq)
    | entry c e =>
      cases e with
      | directory => simp [hw,refuse] at h
      | link target => simp [hw,refuse] at h
      | file bytes executable =>
        simp only [hw,run_set] at h
        obtain ⟨-,rfl⟩ := Prod.mk.inj h
        have hget := get?_of_walk hw
        have hc : c ≠ [] := by rintro rfl; simp at hget
        have hfill : Changed Tree.Filled d (d.putAt c (.file (Text.encode text) executable)) :=
          ⟨rfl,Tree.filled_put_file hc (.inr ⟨bytes,hget⟩)⟩
        have hlead : LeadsTo d p c := ⟨bytes,executable,hw⟩
        exact ⟨hfill,c,executable,hlead.filled hfill,Tree.get?_put_self hc _,
          fun q hq => .inl (Tree.get?_put_of_ne hc _ hq)⟩

theorem saved_of_save (h : run (save p text) d = (.ok (),d')) : Saved p text d d' := by
  unfold save DiskWork.about at h
  rw [run_adapt] at h
  cases hr : run (do makeDirectories p.parent; write p (Text.encode text)) d with
  | mk r d₁ =>
    rw [hr] at h
    obtain ⟨hok,rfl⟩ := Prod.mk.inj h
    cases r with
    | error fault => cases hok
    | ok u =>
      obtain ⟨_,d₂,hmake,hwrite⟩ := bind_eq_ok.1 hr
      have hgrown := grown_makeDirectories p.parent d
      rw [hmake] at hgrown
      obtain ⟨hfill,c,executable,hlead,hself,hother⟩ := write_ok hwrite
      refine ⟨Changed.filled_trans ⟨hgrown.1,hgrown.2.filled⟩ hfill,c,executable,hlead,hself,
        fun q hq => ?_⟩
      rcases hgrown.2 q with he | ⟨hn,hdir⟩
      · rw [← he]
        exact hother q hq
      · rcases hother q hq with he | ⟨hn',-⟩
        · exact .inr ⟨hn,he.trans hdir⟩
        · rw [hdir] at hn'; cases hn'

/-- Where saving fails directories may have been made, and nothing else has been done. -/
theorem grown_of_unsaved {fault : Fault} (h : run (save p text) d = (.error fault,d')) :
    Changed Tree.Grown d d' := by
  unfold save DiskWork.about at h
  rw [run_adapt,run_bind] at h
  have hgrown := grown_makeDirectories p.parent d
  cases hm : run (makeDirectories p.parent) d with
  | mk r d₁ =>
    rw [hm] at h hgrown
    cases r with
    | error fault =>
      obtain ⟨-,rfl⟩ := Prod.mk.inj h
      exact hgrown
    | ok u =>
      have hsame :
          ∀ fault d₂, run (write p (Text.encode text)) d₁ = (.error fault,d₂) → d₂ = d₁ := by
        intro fault d₂ hw
        unfold write at hw
        simp only [run_bind,run_get] at hw
        split at hw <;> first | exact (Prod.mk.inj hw).2.symm | cases (Prod.mk.inj hw).1
      cases hw : run (write p (Text.encode text)) d₁ with
      | mk r d₂ =>
        simp only [hw] at h
        obtain ⟨he,rfl⟩ := Prod.mk.inj h
        cases r with
        | ok _ => cases he
        | error fault => rw [hsame fault _ hw]; exact hgrown

def Untouched (written : Path → Prop) (c : Place) (bytes : List UInt8) (executable : Bool)
    (d : Disk) : Prop :=
  d.tree.get? c = some (.file bytes executable) ∨ ∃ q, written q ∧ LeadsTo d q c

namespace Untouched

variable {written : Path → Prop} {executable : Bool}

theorem saved (h : Untouched written c bytes executable d) (hq : written q)
    (hs : Saved q text d d') :
    Untouched written c bytes executable d' := by
  rcases h with hget | ⟨r,hw,hl⟩
  · obtain ⟨c',executable',hlead,-,hother⟩ := hs.stored
    by_cases hc : c = c'
    · exact .inr ⟨q,hq,hc ▸ hlead⟩
    · rcases hother c hc with he | ⟨hn,-⟩
      · exact .inl (he.trans hget)
      · rw [hn] at hget; cases hget
  · exact .inr ⟨r,hw,hl.filled hs.filled⟩

theorem grown (h : Untouched written c bytes executable d) (hg : Changed Tree.Grown d d') :
    Untouched written c bytes executable d' := by
  rcases h with hget | ⟨r,hw,hl⟩
  · rcases hg.2 c with hc | ⟨hn,-⟩
    · exact .inl (hc.trans hget)
    · rw [hn] at hget; cases hget
  · exact .inr ⟨r,hw,hl.filled ⟨hg.1,hg.2.filled⟩⟩

/-- A path that nothing written leads to the file of reads as before. -/
theorem read (h : Untouched written c bytes executable d) (hp : LeadsTo d p c)
    (hapart : ∀ q, written q → ¬ OneFile d p q) : d.read p = .ok bytes := by
  rcases h with hget | ⟨q,hw,hq⟩
  · exact hp.read_iff.2 ⟨executable,hget⟩
  · exact absurd ⟨c,hp,hq⟩ (hapart q hw)

end Untouched

/-- A path leads to a text, or else something was written that leads to the file as well. -/
def Holds (written : Path → Prop) (p : Path) (text : String) (d : Disk) : Prop :=
  ∃ c executable, LeadsTo d p c ∧ Untouched written c (Text.encode text) executable d

namespace Holds

variable {written : Path → Prop} {text' : String}

theorem of_saved (h : Saved p text d d') : Holds written p text d' := by
  obtain ⟨c,executable,hlead,hget,-⟩ := h.stored
  exact ⟨c,executable,hlead,.inl hget⟩

theorem saved (h : Holds written p text d) (hq : written q) (hs : Saved q text' d d') :
    Holds written p text d' := by
  obtain ⟨c,executable,hl,hu⟩ := h
  exact ⟨c,executable,hl.filled hs.filled,hu.saved hq hs⟩

theorem grown (h : Holds written p text d) (hg : Changed Tree.Grown d d') :
    Holds written p text d' := by
  obtain ⟨c,executable,hl,hu⟩ := h
  exact ⟨c,executable,hl.filled ⟨hg.1,hg.2.filled⟩,hu.grown hg⟩

/-- Where nothing else that was written leads to the file, the text is read. -/
theorem read (h : Holds written p text d) (hapart : ∀ q, written q → ¬ OneFile d p q) :
    d.read p = .ok (Text.encode text) := by
  obtain ⟨c,executable,hl,hu⟩ := h
  exact hu.read hl hapart

end Holds

inductive Saves : List (Path × String) → Disk → Disk → Prop where
  | nil (d : Disk) : Saves [] d d
  | cons {p : Path} {text : String} {rest : List (Path × String)} {d d' d'' : Disk} :
      Saved p text d d' → Saves rest d' d'' → Saves ((p,text) :: rest) d d''

namespace Saves

variable {texts : List (Path × String)}

theorem eq_of_nil (h : Saves [] d d') : d' = d := by
  cases h
  rfl

theorem filled (h : Saves texts d d') : Changed Tree.Filled d d' := by
  induction h with
  | nil d => exact .filled_refl d
  | cons hs _ ih => exact hs.filled.filled_trans ih

theorem holds {written : Path → Prop} (h : Saves texts d d') (hw : ∀ x ∈ texts, written x.1)
    (hp : Holds written p text d) : Holds written p text d' := by
  induction h with
  | nil d => exact hp
  | cons hs _ ih =>
    obtain ⟨hfirst,hrest⟩ := List.forall_mem_cons.1 hw
    exact ih hrest (hp.saved hfirst hs)

theorem read_of_last (hp : Saved p text d d') (h : Saves texts d' d'') (hq : OneFile d'' p q)
    (hlast : ∀ x ∈ texts, ¬ OneFile d'' x.1 q) : d''.read q = .ok (Text.encode text) := by
  have hholds : Holds (fun r => ∃ x ∈ texts, x.1 = r) p text d'' :=
    h.holds (fun x hx => ⟨x,hx,rfl⟩) (.of_saved hp)
  obtain ⟨c,hpc,hqc⟩ := hq
  have hread : d''.read p = .ok (Text.encode text) := by
    refine hholds.read ?_
    rintro r ⟨x,hx,rfl⟩ ⟨c',hpc',hxc⟩
    exact hlast x hx ⟨c,hpc'.unique hpc ▸ hxc,hqc⟩
  exact hqc.read_iff.2 (hpc.read_iff.1 hread)

theorem leadsTo (h : Saves texts d d') {x : Path × String} (hx : x ∈ texts) :
    ∃ c, LeadsTo d' x.1 c := by
  induction h with
  | nil d => cases hx
  | cons hs hrest ih =>
    rcases List.mem_cons.1 hx with rfl | hx
    · obtain ⟨c,_,hlead,-⟩ := hs.stored
      exact ⟨c,hlead.filled hrest.filled⟩
    · exact ih hx

theorem get?_file (h : Saves texts d d') {executable : Bool}
    (hget : d'.tree.get? c = some (.file bytes executable)) :
    d.tree.get? c = some (.file bytes executable) ∨ ∃ x ∈ texts, LeadsTo d' x.1 c := by
  induction h with
  | nil d => exact .inl hget
  | cons hs hrest ih =>
    rcases ih hget with hmid | ⟨x,hx,hlead⟩
    · obtain ⟨c',_,hlead,-,hother⟩ := hs.stored
      by_cases hc : c = c'
      · subst hc
        exact .inr ⟨_,List.mem_cons_self,hlead.filled hrest.filled⟩
      · rcases hother c hc with he | ⟨-,hdir⟩
        · exact .inl (he ▸ hmid)
        · rw [hdir] at hmid; cases hmid
    · exact .inr ⟨x,List.mem_cons_of_mem _ hx,hlead⟩

end Saves

/-- Texts were saved at their paths, in order; what could not be saved may have left directories. -/
inductive Written : List (Path × String) → Disk → Disk → Prop where
  | refl (d : Disk) : Written [] d d
  | save {p : Path} {text : String} {texts : List (Path × String)} {d d' d'' : Disk} :
      Written texts d d' → Saved p text d' d'' → Written (texts ++ [(p,text)]) d d''
  | grow {texts : List (Path × String)} {d d' d'' : Disk} :
      Written texts d d' → Changed Tree.Grown d' d'' → Written texts d d''

theorem Holds.mono {written written' : Path → Prop} (h : Holds written p text d)
    (hw : ∀ q, written q → written' q) : Holds written' p text d := by
  obtain ⟨c,executable,hlead,hget | ⟨q,hq,hl⟩⟩ := h
  · exact ⟨c,executable,hlead,.inl hget⟩
  · exact ⟨c,executable,hlead,.inr ⟨q,hw q hq,hl⟩⟩

namespace Written

variable {texts : List (Path × String)}

/-- What was saved at a path last is there, unless something was saved elsewhere that leads there
too. -/
theorem holds (h : Written texts d d') {x : Path × String} (hx : x ∈ texts) :
    ∃ text, (x.1,text) ∈ texts ∧ Holds (fun q => q ≠ x.1 ∧ ∃ y ∈ texts, y.1 = q) x.1 text d' := by
  induction h with
  | refl d => cases hx
  | grow _ hg ih =>
    obtain ⟨text,hm,hh⟩ := ih hx
    exact ⟨text,hm,hh.grown hg⟩
  | @save q text' texts d d' d'' _ hs ih =>
    by_cases he : q = x.1
    · exact ⟨text',by simp [he],.of_saved (he ▸ hs)⟩
    · have hx : x ∈ texts := by
        rcases List.mem_append.1 hx with hx | hx
        · exact hx
        · rw [List.mem_singleton.1 hx] at he
          exact absurd rfl he
      obtain ⟨text,hm,hh⟩ := ih hx
      refine ⟨text,List.mem_append_left _ hm,(hh.mono ?_).saved ⟨he,(q,text'),by simp,rfl⟩ hs⟩
      rintro r ⟨hr,y,hy,rfl⟩
      exact ⟨hr,y,List.mem_append_left _ hy,rfl⟩

end Written

end Filled

end OperationHooks.Disk
