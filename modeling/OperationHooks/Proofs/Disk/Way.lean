import OperationHooks.Proofs.Disk.FileTree
import OperationHooks.Proofs.Disk.Null
/-!
The way of a path: the places that its names lead to, one after the other. On trees without links it
decides whether there is a directory at the end of the path, and whether one can be made or removed
there.
-/
set_option autoImplicit false

namespace OperationHooks.Disk
open Effect

def placesOf (here : Place) : List String → List Place
  | [] => []
  | name :: rest =>
    if name = "." then placesOf here rest
    else if name = ".." then placesOf here.dropLast rest
    else (here ++ [name]) :: placesOf (here ++ [name]) rest

def wayOf (d : Disk) (p : Path) : List Place := placesOf (d.startOf p) p.parts

section Places

variable (here : Place) (rest : List String)

@[simp] theorem placesOf_nil : placesOf here [] = [] := rfl

@[simp] theorem placesOf_dot : placesOf here ("." :: rest) = placesOf here rest := rfl

@[simp] theorem placesOf_up : placesOf here (".." :: rest) = placesOf here.dropLast rest := rfl

theorem placesOf_step {name : String} (hd : name ≠ ".") (hu : name ≠ "..") :
    placesOf here (name :: rest) = (here ++ [name]) :: placesOf (here ++ [name]) rest := by
  simp [placesOf,hd,hu]

theorem placesOf_append (names : List String) :
    placesOf here (names ++ rest) = placesOf here names ++ placesOf (lexical here names) rest := by
  induction here, names using names_induction with
  | nil here => rfl
  | dot here names ih => exact ih
  | up here names ih => exact ih
  | long here name names hd hu _ ih =>
    rw [List.cons_append,placesOf_step _ _ hd hu,placesOf_step _ _ hd hu,lexical_step _ _ hd hu,ih]
    rfl
  | step here name names hd hu _ ih =>
    rw [List.cons_append,placesOf_step _ _ hd hu,placesOf_step _ _ hd hu,lexical_step _ _ hd hu,ih]
    rfl

variable {here rest} {names : List String} {q : Place}

theorem placesOf_ups (ups : Nat) : placesOf here (List.replicate ups "..") = [] := by
  induction ups generalizing here with
  | zero => rfl
  | succ ups ih => rw [List.replicate_succ,placesOf_up,ih]

theorem above_or_left (hdot : "." ∉ names) (hq : q ∈ placesOf here names) :
    q <+: lexical here names ∨
    ∃ front rest, names = front ++ ".." :: rest ∧ q ∈ placesOf here front := by
  induction names generalizing here with
  | nil => cases hq
  | cons name names ih =>
    obtain ⟨hd,hdots⟩ := not_or.1 (mt List.mem_cons.2 hdot)
    by_cases hu : name = ".."
    · subst hu
      rcases ih hdots hq with h | ⟨front,rest,rfl,h⟩
      · exact .inl h
      · exact .inr ⟨".." :: front,rest,rfl,h⟩
    rw [placesOf_step _ _ (Ne.symm hd) hu] at hq
    rw [lexical_step _ _ (Ne.symm hd) hu]
    rcases List.mem_cons.1 hq with rfl | hq
    · by_cases hup : ".." ∈ names
      · obtain ⟨front,rest,rfl⟩ := List.append_of_mem hup
        refine .inr ⟨name :: front,rest,rfl,?_⟩
        rw [placesOf_step _ _ (Ne.symm hd) hu]
        exact List.mem_cons_self
      · rw [lexical_names _ hdots hup]
        exact .inl (List.prefix_append _ _)
    · rcases ih hdots hq with h | ⟨front,rest,rfl,h⟩
      · exact .inl h
      · refine .inr ⟨name :: front,rest,rfl,?_⟩
        rw [placesOf_step _ _ (Ne.symm hd) hu]
        exact List.mem_cons_of_mem _ h

end Places

section Walks

variable {t : Tree} {here c : Place} {names : List String}

def IsShort (names : List String) : Prop := ∀ name ∈ names, name.utf8ByteSize ≤ maxNameBytes

theorem plainWalk_of_directories (h : LinkFree t) (hshort : IsShort names)
    (hdir : ∀ q ∈ placesOf here names, t.get? q = some .directory) :
    plainWalk t here names = .ok (.entry (lexical here names) .directory) := by
  induction here, names using names_induction with
  | nil here => rfl
  | dot here rest ih =>
    exact (plainWalk_dot t here rest).trans (ih (List.forall_mem_cons.1 hshort).2 hdir)
  | up here rest ih =>
    exact (plainWalk_up t here rest).trans (ih (List.forall_mem_cons.1 hshort).2 hdir)
  | long here name rest hd hu hl _ =>
    exact absurd ((List.forall_mem_cons.1 hshort).1) (Nat.not_le.2 hl)
  | step here name rest hd hu hl ih =>
    rw [placesOf_step _ _ hd hu] at hdir
    obtain ⟨hfirst,hrest⟩ := List.forall_mem_cons.1 hdir
    rw [plainWalk_step h here rest hd hu hl,hfirst,lexical_step _ _ hd hu]
    exact ih (List.forall_mem_cons.1 hshort).2 hrest

theorem directories_of_plainWalk (h : LinkFree t)
    (hw : plainWalk t here names = .ok (.entry c .directory)) :
    IsShort names ∧ ∀ q ∈ placesOf here names, t.get? q = some .directory := by
  unfold IsShort
  induction here, names using names_induction with
  | nil here => simp
  | dot here rest ih =>
    obtain ⟨hshort,hdir⟩ := ih (by simpa using hw)
    exact ⟨List.forall_mem_cons.2 ⟨by decide,hshort⟩,hdir⟩
  | up here rest ih =>
    obtain ⟨hshort,hdir⟩ := ih (by simpa using hw)
    exact ⟨List.forall_mem_cons.2 ⟨by decide,hshort⟩,hdir⟩
  | long here name rest hd hu hl _ => rw [plainWalk_long t here rest hd hu hl] at hw; cases hw
  | step here name rest hd hu hl ih =>
    rw [plainWalk_step h here rest hd hu hl] at hw
    cases he : t.get? (here ++ [name]) with
    | none => simp only [he] at hw; split at hw <;> cases hw
    | some e =>
      cases e with
      | directory =>
        simp only [he] at hw
        obtain ⟨hshort,hdir⟩ := ih hw
        rw [placesOf_step _ _ hd hu]
        exact ⟨List.forall_mem_cons.2 ⟨hl,hshort⟩,List.forall_mem_cons.2 ⟨he,hdir⟩⟩
      | file bytes executable => simp only [he] at hw; split at hw <;> cases hw
      | link target => exact absurd he (h _ _)

theorem directories_in_front (h : LinkFree t) {rest : List String} {found : Found}
    (hw : plainWalk t here (names ++ ".." :: rest) = .ok found) :
    ∀ q ∈ placesOf here names, t.get? q = some .directory := by
  induction here, names using names_induction with
  | nil here => simp
  | dot here names ih => exact ih (by simpa using hw)
  | up here names ih => exact ih (by simpa using hw)
  | long here name names hd hu hl _ =>
    rw [List.cons_append,plainWalk_long t here _ hd hu hl] at hw; cases hw
  | step here name names hd hu hl ih =>
    have hmore : (names ++ ".." :: rest).isEmpty = false := by simp
    rw [List.cons_append,plainWalk_step h here _ hd hu hl] at hw
    rw [placesOf_step _ _ hd hu]
    cases he : t.get? (here ++ [name]) with
    | none => simp only [he,hmore] at hw; cases hw
    | some e =>
      cases e with
      | directory =>
        simp only [he] at hw
        exact List.forall_mem_cons.2 ⟨he,ih hw⟩
      | file bytes executable => simp only [he,hmore] at hw; cases hw
      | link target => exact absurd he (h _ _)

theorem mem_placesOf_of_missing (h : LinkFree t) (hw : plainWalk t here names = .ok (.missing c)) :
    c ∈ placesOf here names := by
  induction here, names using names_induction with
  | nil here => cases hw
  | dot here rest ih => exact ih (by simpa using hw)
  | up here rest ih => exact ih (by simpa using hw)
  | long here name rest hd hu hl _ => rw [plainWalk_long t here rest hd hu hl] at hw; cases hw
  | step here name rest hd hu hl ih =>
    rw [plainWalk_step h here rest hd hu hl] at hw
    rw [placesOf_step _ _ hd hu]
    cases he : t.get? (here ++ [name]) with
    | none =>
      simp only [he] at hw
      split at hw
      · obtain rfl := Found.missing.inj (Except.ok.inj hw); exact List.mem_cons_self
      · cases hw
    | some e =>
      cases e with
      | directory => simp only [he] at hw; exact List.mem_cons_of_mem _ (ih hw)
      | file bytes executable => simp only [he] at hw; split at hw <;> cases hw
      | link target => exact absurd he (h _ _)

/-- Where no file stands in the way, a walk ends at a directory or at what is not there. -/
theorem plainWalk_open (h : LinkFree t) (hshort : IsShort names)
    (hopen : ∀ q ∈ placesOf here names, ∀ e, t.get? q = some e → e = .directory) :
    plainWalk t here names = .ok (.entry (lexical here names) .directory) ∨
      (∃ q, plainWalk t here names = .ok (.missing q)) ∨ plainWalk t here names =
        .error .noEntry := by
  induction here, names using names_induction with
  | nil here => exact .inl rfl
  | dot here rest ih => exact ih (List.forall_mem_cons.1 hshort).2 hopen
  | up here rest ih => exact ih (List.forall_mem_cons.1 hshort).2 hopen
  | long here name rest hd hu hl _ =>
    exact absurd ((List.forall_mem_cons.1 hshort).1) (Nat.not_le.2 hl)
  | step here name rest hd hu hl ih =>
    rw [placesOf_step _ _ hd hu] at hopen
    obtain ⟨hfirst,hrest⟩ := List.forall_mem_cons.1 hopen
    rw [plainWalk_step h here rest hd hu hl,lexical_step _ _ hd hu]
    cases he : t.get? (here ++ [name]) with
    | none => cases hr : rest.isEmpty <;> simp
    | some e =>
      obtain rfl := hfirst e he
      exact ih (List.forall_mem_cons.1 hshort).2 hrest

end Walks

section Paths

variable {d d' : Disk} {p : Path} {q : Place}

structure Admitted (p : Path) : Prop where
  askable : Askable p
  short : IsShort p.parts

/-- There is a directory just where all names of the path lead to directories. -/
theorem hasDirectory_iff_way (hd : LinkFree d.tree) : HasDirectory d p ↔
    Admitted p ∧ ∀ q ∈ wayOf d p, d.tree.get? q = some .directory := by
  rw [HasDirectory,walk_linkFree hd]
  constructor
  · rintro ⟨ha,hw⟩
    obtain ⟨hshort,hdir⟩ := directories_of_plainWalk hd hw
    exact ⟨⟨ha,hshort⟩,hdir⟩
  · rintro ⟨hadmitted,hdir⟩
    exact ⟨hadmitted.askable,plainWalk_of_directories hd hadmitted.short hdir⟩

theorem wayOf_eq (h : d'.here = d.here) (p : Path) : wayOf d' p = wayOf d p := by
  rw [wayOf,startOf_eq h,wayOf]

theorem above_of_upright (hup : p.Upright) (hdot : p.Dotless) (hq : q ∈ wayOf d p) :
    q <+: placeOf d p := by
  obtain ⟨ups,names,hparts,hnames⟩ := hup
  have hdots : "." ∉ names := fun hm => hdot (by rw [hparts]; exact List.mem_append_right _ hm)
  rw [wayOf,hparts,placesOf_append,placesOf_ups,List.nil_append] at hq
  rw [placeOf,hparts,lexical_append]
  refine (above_or_left hdots hq).resolve_right ?_
  rintro ⟨front,rest,rfl,-⟩
  exact hnames (by simp)

/-- What a path names in front of two dots are directories. -/
def Founded (d : Disk) (p : Path) : Prop := ∀ front rest, p.parts = front ++ ".." :: rest →
  ∀ q ∈ placesOf (d.startOf p) front, d.tree.get? q = some .directory

theorem founded_of_upright (hup : p.Upright) : Founded d p := by
  obtain ⟨ups,names,hparts,hnames⟩ := hup
  intro front rest hsplit q hq
  rw [hparts] at hsplit
  rcases List.append_eq_append_iff.1 hsplit with ⟨more,rfl,hmore⟩ | ⟨more,hfront,-⟩
  · exact absurd (by rw [hmore]; simp) hnames
  · obtain ⟨n,hn,rfl⟩ : ∃ n, n ≤ ups ∧ front = List.replicate n ".." :=
      ⟨front.length,by rw [← List.length_replicate (n := ups) (a := ".."),hfront]; simp,
        List.eq_replicate_iff.2 ⟨rfl,fun x hx => List.eq_of_mem_replicate
          (n := ups) (by rw [hfront]; exact List.mem_append_left _ hx)⟩⟩
    rw [placesOf_ups] at hq
    cases hq

theorem founded_of_walk (hd : LinkFree d.tree) {followLast : Bool} {found : Found}
    (hw : d.walk followLast p = .ok found) : Founded d p := fun _ _ hparts =>
  directories_in_front hd (hparts ▸ ((walk_linkFree hd _).1 hw).2)

theorem Founded.join {r : Path} (h : Founded d p) (hr : ".." ∉ r.parts) : Founded d (p.join r) := by
  unfold Path.join
  split
  · exact founded_of_upright ⟨0,r.parts,rfl,hr⟩
  · intro front rest hparts q hq
    rcases List.append_eq_append_iff.1 hparts with ⟨more,-,hmore⟩ | ⟨more,hfront,hmore⟩
    · exact absurd (by rw [hmore]; simp) hr
    · cases more with
      | nil =>
        rw [List.nil_append] at hmore
        exact absurd (by rw [← hmore]; simp) hr
      | cons name more =>
        obtain ⟨rfl,-⟩ := List.cons.inj hmore
        exact h front more hfront q hq

theorem Founded.of_join {r : Path} (h : Founded d (p.join r)) (hr : r.isAbsolute = false) :
    Founded d p := by
  intro front rest hparts q hq
  rw [Path.join,hr] at h
  exact h front (rest ++ r.parts) (by simp [hparts]) q hq

theorem Founded.left (h : Founded d p) (hdot : p.Dotless) (hq : q ∈ wayOf d p) :
    q <+: placeOf d p ∨ d.tree.get? q = some .directory :=
  (above_or_left hdot hq).imp_right fun ⟨front,rest,hparts,hm⟩ => h front rest hparts q hm

theorem no_file_of_absent (hd : LinkFree d.tree) (hr : Rooted d.tree) (hf : Founded d p)
    (hdot : p.Dotless)
    (ha : Admitted p) (habsent : d.isPresent p = .ok false)
    (hq : Tree.isBelow (placeOf d p) q = true)
    (bytes : List UInt8) (executable : Bool) : d.tree.get? q ≠ some (.file bytes executable) := by
  intro hfile
  have habove : ∀ r, r <+: placeOf d p → d.tree.get? r = some .directory := fun r hpre =>
    hr q bytes executable hfile r (Tree.isBelow_of_prefix_of_isBelow hpre hq)
  have hthere : d.walk true p = .ok (.entry (placeOf d p) .directory) :=
    (hasDirectory_iff_way hd).2 ⟨ha,fun r hway => (hf.left hdot hway).elim (habove r) id⟩
  simp [isPresent, entry?,hthere,Except.map] at habsent

theorem mem_wayOf_of_front {r : Path} (hanchor : r.anchor = p.anchor) (hparts : r.parts <+: p.parts)
    (hq : q ∈ wayOf d r) : q ∈ wayOf d p := by
  obtain ⟨rest,hrest⟩ := hparts
  have hstart :
      d.startOf r = d.startOf p := by rw [startOf,startOf,Path.isAbsolute,Path.isAbsolute,hanchor]
  rw [wayOf,← hrest,placesOf_append,← hstart]
  exact List.mem_append_left _ hq

theorem mem_wayOf_of_parent (hq : q ∈ wayOf d p.parent) : q ∈ wayOf d p :=
  mem_wayOf_of_front (r := p.parent) rfl (List.dropLast_prefix _) hq

theorem Askable.parent (h : Askable p) : Askable p.parent := by
  refine ⟨Bool.eq_false_iff.2 fun hn => ?_,?_⟩
  · cases (hasNull_of_parent hn).symm.trans h.1
  · have htext : ∀ parts : List String,
        ("/".intercalate parts.dropLast).utf8ByteSize ≤ ("/".intercalate parts).utf8ByteSize := by
      intro parts
      by_cases hd : parts.dropLast = []
      · simp [hd]
      · have hne : parts ≠ [] := by rintro rfl; exact hd rfl
        have hsplit :=
          String.intercalate_append_of_ne_nil (s := "/") hd
            (List.cons_ne_nil (parts.getLast hne) [])
        rw [List.dropLast_concat_getLast hne] at hsplit
        rw [hsplit,String.utf8ByteSize_append,String.utf8ByteSize_append]
        omega
    unfold Path.text Path.parent
    dsimp only
    split
    · decide
    · rename_i hparent
      have hshort := h.2
      unfold Path.text at hshort
      rw [if_neg fun hp => hparent (by simp_all)] at hshort
      rw [String.utf8ByteSize_append] at hshort ⊢
      exact Nat.lt_of_le_of_lt (Nat.add_le_add_left (htext _) _) hshort

theorem Admitted.parent (h : Admitted p) : Admitted p.parent :=
  ⟨h.askable.parent,fun name hm => h.short name (List.dropLast_subset _ hm)⟩

end Paths

section Making

variable {d d' : Disk} {p : Path} {q : Place}

def Open (d : Disk) (p : Path) : Prop :=
  ∀ q ∈ wayOf d p, ∀ e, d.tree.get? q = some e → e = .directory

theorem Open.swept (h : Open d p) (hh : d'.here = d.here) (hs : Swept d.tree d'.tree) : Open d' p :=
  fun q hq e he => (hs q e he).elim id (h q (wayOf_eq hh p ▸ hq) e)

theorem Open.parent (h : Open d p) : Open d p.parent := fun q hq => h q (mem_wayOf_of_parent hq)

theorem open_of_hasDirectory (hd : LinkFree d.tree) (h : HasDirectory d p) :
    Open d p := fun q hq _ he =>
  Option.some.inj (he.symm.trans (((hasDirectory_iff_way hd).1 h).2 q hq))

theorem walk_open (hd : LinkFree d.tree) (ha : Admitted p) (ho : Open d p) (followLast : Bool) :
    d.walk followLast p = .ok (.entry (placeOf d p) .directory) ∨
      (∃ q, d.walk followLast p = .ok (.missing q)) ∨ d.walk followLast p = refuse .noEntry p := by
  rw [walk_of_askable ha.askable,walkFrom_linkFree hd,placeOf]
  rcases plainWalk_open hd ha.short ho with h | ⟨q,h⟩ | h <;> rw [h]
  · exact .inl rfl
  · exact .inr (.inl ⟨q,rfl⟩)
  · exact .inr (.inr rfl)

theorem walk_below (hd : LinkFree d.tree) (hp : p.parts = [] ∨ HasDirectory d p.parent)
    (followLast : Bool) :
    d.walk followLast p ≠ refuse .noEntry p := by
  by_cases ha : Askable p
  · rw [walk_of_askable ha,walkFrom_linkFree hd]
    rcases hp with hnil | hparent
    · rw [hnil]; simp [refuse,mapError_ok]
    by_cases hnil : p.parts = []
    · rw [hnil]; simp [refuse,mapError_ok]
    have hparts : p.parts = p.parent.parts ++ [p.parts.getLast hnil] :=
      (List.dropLast_concat_getLast hnil).symm
    have hstart : d.startOf p.parent = d.startOf p := rfl
    have hwalk := plainWalk_append hd [p.parts.getLast hnil] ((walk_linkFree hd true).1 hparent).2
    rw [hstart,← hparts] at hwalk
    rw [hwalk]
    generalize p.parts.getLast hnil = name
    by_cases hdot : name = "."
    · subst hdot; simp [refuse,mapError_ok]
    by_cases hup : name = ".."
    · subst hup; simp [refuse,mapError_ok]
    by_cases hl : maxNameBytes < name.utf8ByteSize
    · rw [plainWalk_long _ _ _ hdot hup hl]; simp [refuse,mapError_error]
    · rw [plainWalk_step hd _ _ hdot hup (Nat.le_of_not_lt hl)]
      cases he : d.tree.get? (placeOf d p.parent ++ [name]) with
      | none => simp [refuse,mapError_ok]
      | some e => cases e <;> simp [refuse,mapError_ok]
  · unfold walk
    dsimp only
    by_cases hn : hasNull p.text = true
    · rw [if_pos hn]; simp [refuse]
    · rw [if_neg hn,if_pos (Nat.le_of_not_lt fun hs => ha ⟨Bool.eq_false_iff.2 hn,hs⟩)]
      simp [refuse]

theorem unlessDirectory_of_hasDirectory (hd : LinkFree d.tree) (hp : HasDirectory d p)
    (cause : SystemFault) :
    run (unlessDirectory p (.system cause)) d = (.ok (),d) := by
  unfold unlessDirectory
  simp only [run_bind,run_get,run_lift,(hasDirectory_iff hd).1 hp]
  rfl

theorem makeDirectory_total (hd : LinkFree d.tree) (ha : Admitted p) (ho : Open d p)
    (hp : p.parts = [] ∨ HasDirectory d p.parent) :
    ∃ d', run (tryCatch (makeDirectory p) (unlessDirectory p)) d = (.ok (),d') := by
  rw [run_tryCatch,run_makeDirectory]
  rcases walk_open hd ha ho false with hw | ⟨q,hw⟩ | hw
  · rw [hw]
    refine ⟨d,unlessDirectory_of_hasDirectory hd ?_ _⟩
    exact (walk_linkFree hd true).2 ((walk_linkFree hd false).1 hw)
  · rw [hw]; exact ⟨_,rfl⟩
  · exact absurd hw (walk_below hd hp false)

/-- Making directories succeeds where no file stands in the way. -/
theorem makeDirectories_total (hd : LinkFree d.tree) (ha : Admitted p) (ho : Open d p) :
    ∃ d', run (makeDirectories p) d = (.ok (),d') := by
  have go : ∀ (above : Nat) (p : Path) (d : Disk), p.parts.length ≤ above → LinkFree d.tree →
      Admitted p → Open d p → ∃ d', run (makeDirectoriesFrom p above) d = (.ok (),d') := by
    intro above
    induction above with
    | zero =>
      intro p d hlength hd ha ho
      exact makeDirectory_total hd ha ho (.inl (List.length_eq_zero_iff.1 (Nat.le_zero.1 hlength)))
    | succ above ih =>
      intro p d hlength hd ha ho
      rw [makeDirectoriesFrom,run_tryCatch,run_makeDirectory]
      rcases walk_open hd ha ho false with hw | ⟨q,hw⟩ | hw
      · rw [hw]
        refine ⟨d,unlessDirectory_of_hasDirectory hd ?_ _⟩
        exact (walk_linkFree hd true).2 ((walk_linkFree hd false).1 hw)
      · rw [hw]; exact ⟨_,rfl⟩
      · rw [hw]
        have hshorter : p.parent.parts.length ≤ above := by
          rw [Path.parent,List.length_dropLast]; omega
        obtain ⟨d₁,hparent⟩ := ih p.parent d hshorter hd ha.parent ho.parent
        have hgrown := grown_makeDirectoriesFrom p.parent above d
        rw [hparent] at hgrown
        have hd₁ := (swept_of_grown hgrown.2).linkFree hd
        have hthere : HasDirectory d₁ p.parent :=
          (hasDirectory_iff hd₁).2 (isDirectory_of_makeDirectories hparent)
        obtain ⟨d₂,hlast⟩ :=
          makeDirectory_total hd₁ ha (ho.swept hgrown.1 (swept_of_grown hgrown.2)) (.inr hthere)
        refine ⟨d₂,?_⟩
        show run (makeDirectoriesFrom p.parent above >>= fun _ => _) d = _
        rw [run_bind,hparent]
        exact hlast
  exact go _ p d (Nat.le_refl _) hd ha ho

theorem get?_of_makeDirectories (hd : LinkFree d.tree) (p : Path) (hq : q ∉ wayOf d p) :
    (run (makeDirectories p) d).2.tree.get? q = d.tree.get? q := by
  have hkept :
      Changed (fun t u => t.Grown u ∧ u.get? q = t.get? q) d (run (makeDirectories p) d).2 := by
    refine makeDirectoriesFrom_preserves _ (fun r hanchor hparts d₁ h => ?_)
      ⟨rfl,Tree.Grown.refl _,rfl⟩
    rcases makeDirectory_cases r d₁ with ⟨c,hw,hm⟩ | ⟨fault,-,hm⟩
    · have hd₁ := (swept_of_grown h.2.1).linkFree hd
      have hnone := none_of_missing hw
      have hc : c ∈ wayOf d p := mem_wayOf_of_front hanchor hparts
        (wayOf_eq h.1 r ▸ mem_placesOf_of_missing hd₁ ((walk_linkFree hd₁ _).1 hw).2)
      have hne : q ≠ c := by rintro rfl; exact hq hc
      rw [hm]
      exact ⟨h.1,h.2.1.trans (Tree.grown_put hnone),
        (Tree.get?_put_of_ne (Tree.ne_nil_of_get? hnone) _ hne).trans h.2.2⟩
    · rw [hm]; exact h
  exact hkept.2.2

end Making

section Removing

variable {d d' : Disk} {p : Path}

/-- A path ends with a name, and does not lead through what is below its end. -/
structure Removable (d : Disk) (p : Path) : Prop where
  parts : p.parts ≠ []
  last : p.parts.getLast? ≠ some ".."
  outside : ∀ q ∈ wayOf d p, Tree.isBelow (placeOf d p) q = false

/-- Only the names of a path, and where it starts, decide whether it can be removed. -/
theorem Removable.of_here (hh : d'.here = d.here) (h : Removable d' p) : Removable d p :=
  ⟨h.parts,h.last,fun q hq => placeOf_eq hh p ▸ h.outside q (wayOf_eq hh p ▸ hq)⟩

theorem linkFree_clear {t : Tree} (h : LinkFree t) (c : Place) : LinkFree (t.clear c) := by
  intro q target hq
  rw [Tree.get?_clear] at hq
  split at hq
  · cases hq
  · exact h q target hq

theorem removeTree_total (hd : LinkFree d.tree) (hp : HasDirectory d p) (hr : Removable d p) :
    ∃ d', run (removeTree p) d = (.ok (),d') := by
  have hfalse : d.walk false p = .ok (.entry (placeOf d p) .directory) :=
    (walk_linkFree hd _).2 ((walk_linkFree hd _).1 hp)
  let cleared : Disk := { d with tree := d.tree.clear (placeOf d p) }
  have hcleared : LinkFree cleared.tree := linkFree_clear hd _
  obtain ⟨ha,hdir⟩ := (hasDirectory_iff_way hd).1 hp
  have hthere : HasDirectory cleared p := (hasDirectory_iff_way hcleared).2 ⟨ha,fun q hq => by
    rw [Tree.get?_clear,hr.outside q hq]; exact hdir q hq⟩
  have hstill : cleared.walk false p = .ok (.entry (placeOf cleared p) .directory) :=
    (walk_linkFree hcleared _).2 ((walk_linkFree hcleared _).1 hthere)
  have hparts : p.parts.isEmpty = false := by simpa using hr.parts
  have hlast : (p.parts.getLast? == some "..") = false := by simpa using hr.last
  have hremove : run (removeDirectory p) cleared =
      (.ok (),{ cleared with tree := cleared.tree.remove (placeOf cleared p) }) := by
    unfold removeDirectory
    simp only [run_bind,run_get,hstill,hparts,hlast,Bool.false_eq_true,if_false,run_set]
  refine ⟨{ cleared with tree := cleared.tree.remove (placeOf cleared p) },?_⟩
  unfold removeTree
  simp only [run_bind,run_get,hfalse,run_set]
  exact hremove

theorem removable_of_removeTree (hd : LinkFree d.tree) (h : run (removeTree p) d = (.ok (),d')) :
    Removable d p := by
  obtain ⟨hparts,hlast,c,hw,hstill,-⟩ := removeTree_spec h
  obtain rfl : c = placeOf d p := place_of_walk hd hw
  refine ⟨hparts,hlast,fun q hq => Bool.eq_false_iff.2 fun hb => ?_⟩
  have hcleared : LinkFree (d.tree.clear (placeOf d p)) := linkFree_clear hd _
  have hdir := (directories_of_plainWalk hcleared ((walk_linkFree hcleared _).1 hstill).2).2 q hq
  rw [Tree.get?_clear,if_pos hb] at hdir
  cases hdir

end Removing

end OperationHooks.Disk
