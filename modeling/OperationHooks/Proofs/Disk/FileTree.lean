import OperationHooks.Proofs.Disk.Overlay

set_option autoImplicit false

namespace OperationHooks.Disk

/-- Every file is in a directory, which is in a directory, and so on. -/
def Rooted (t : Tree) : Prop := ∀ q bytes executable, t.get? q = some (.file bytes executable) →
  ∀ r, Tree.isBelow r q = true → t.get? r = some .directory

structure IsFileTree (d : Disk) : Prop where
  linkFree : LinkFree d.tree
  rooted : Rooted d.tree
  names : ∀ q e, d.tree.get? q = some e → ∀ name ∈ q, Path.IsPart name

def formsTree (t : Tree) : Bool := t.entries.all fun (q,e) =>
  q.all (fun name => decide (Path.IsPart name)) &&
    match e with
    | .file _ _ => (List.range q.length).all fun n => t.get? (q.take n) == some .directory
    | .directory => true
    | .link _ => false

theorem isFileTree_of_formsTree {d : Disk} (h : formsTree d.tree = true) : IsFileTree d := by
  have hmem : ∀ q e, d.tree.get? q = some e → q ≠ [] → (q,e) ∈ d.tree.entries := fun q e he hq => by
    rw [Tree.get?_of_ne_nil hq] at he
    obtain ⟨before,after,hsplit,-⟩ := List.lookup_eq_some_iff.1 he
    rw [hsplit]; simp
  have hall := fun q e he hq => List.all_eq_true.1 h (q,e) (hmem q e he hq)
  refine ⟨fun q target he => ?_,fun q bytes executable he r hr => ?_,fun q e he name hn => ?_⟩
  · by_cases hq : q = []
    · subst hq; cases he
    · simpa using hall q _ he hq
  · have hq : q ≠ [] := by rintro rfl; cases he
    obtain ⟨hpre,hne⟩ := Tree.isBelow_iff.1 hr
    have hlength : r.length < q.length :=
      Nat.lt_of_le_of_ne hpre.length_le fun hl => hne (hpre.eq_of_length hl)
    have hdirs := (Bool.and_eq_true _ _ ▸ hall q _ he hq).2
    rw [List.prefix_iff_eq_take.1 hpre]
    simpa using List.all_eq_true.1 hdirs r.length (List.mem_range.2 hlength)
  · by_cases hq : q = []
    · subst hq; cases hn
    · have hnames := (Bool.and_eq_true _ _ ▸ hall q e he hq).1
      simpa using List.all_eq_true.1 hnames name hn

def Swept (t u : Tree) : Prop := ∀ q e, u.get? q = some e → e = .directory ∨ t.get? q = some e

section Swept

variable {t u v : Tree} {c : Place}

theorem Swept.refl (t : Tree) : Swept t t := fun _ _ h => .inr h

theorem Swept.trans (h : Swept t u) (h' : Swept u v) : Swept t v := fun q e hq =>
  (h' q e hq).elim .inl (h q e)

theorem swept_of_grown (h : Tree.Grown t u) : Swept t u := by
  intro q e hq
  rcases h q with hs | ⟨-,hs⟩
  · exact .inr (hs ▸ hq)
  · rw [hs] at hq; exact .inl (Option.some.inj hq).symm

theorem swept_of_cleared (h : Cleared c t u) : Swept t u := by
  intro q e hq
  rw [h q] at hq
  split at hq
  · cases hq
  · exact .inr hq

theorem Swept.linkFree (h : Swept t u) (ht : LinkFree t) : LinkFree u := by
  intro q target hq
  rcases h q _ hq with he | he
  · cases he
  · exact ht q target he

theorem Rooted.grown (ht : Rooted t) (h : Tree.Grown t u) : Rooted u := by
  intro q bytes executable hq r hr
  rcases swept_of_grown h q _ hq with he | he
  · cases he
  · have hdir := ht q bytes executable he r hr
    rcases h r with hs | ⟨hn,-⟩
    · exact hs.trans hdir
    · rw [hn] at hdir; cases hdir

theorem Rooted.cleared (ht : Rooted t) (h : Cleared c t u) : Rooted u := by
  intro q bytes executable hq r hr
  have hc : Tree.isBelow c q = false :=
    Bool.eq_false_iff.2 fun hb => by rw [h q,if_pos hb] at hq; cases hq
  have hc' : Tree.isBelow c r = false := Bool.eq_false_iff.2 fun hb => by
    rw [Tree.isBelow_of_isBelow_of_prefix hb (Tree.isBelow_iff.1 hr).1] at hc; cases hc
  have hq' := hq
  rw [h q,hc] at hq'
  rw [h r,hc']
  exact ht q bytes executable hq' r hr

/-- What was there before and is still there reads as it did. -/
theorem read_swept {d d' : Disk} {p : Path} {bytes bytes' : List UInt8} (hd : LinkFree d.tree)
    (hh : d'.here = d.here) (h : Swept d.tree d'.tree) (hr : d.read p = .ok bytes)
    (hr' : d'.read p = .ok bytes') : bytes' = bytes := by
  have hfile : ∀ {d : Disk} {bytes : List UInt8}, LinkFree d.tree → d.read p = .ok bytes →
      ∃ executable, d.tree.get? (placeOf d p) = some (.file bytes executable) := by
    intro d bytes hd hr
    obtain ⟨c,executable,hw⟩ := read_eq_ok.1 hr
    obtain rfl : c = placeOf d p := place_of_walk hd hw
    exact ⟨executable,agrees_of_walkFrom _ _ _ (walk_eq_ok.1 hw).2⟩
  obtain ⟨executable,hget⟩ := hfile hd hr
  obtain ⟨executable',hget'⟩ := hfile (h.linkFree hd) hr'
  rw [placeOf_eq hh] at hget'
  have hsame := (h _ _ hget').resolve_left (by simp)
  rw [hget] at hsame
  exact (Entry.file.inj (Option.some.inj hsame)).1.symm

end Swept

section Settle

variable {d : Disk} {p : Path}

theorem settleNames_linkFree {t : Tree} (h : LinkFree t)
    (enter : Place → List String → Option Place)
    (here : Place) (names : List String) :
      settleNames t enter here names = some (lexical here names) := by
  induction names generalizing here with
  | nil => rfl
  | cons name rest ih =>
    by_cases hd : name = "."
    · subst hd; rw [settleNames_dot,lexical_dot,ih]
    · by_cases hu : name = ".."
      · subst hu; rw [settleNames_up,lexical_up,ih]
      · rw [settleNames_step t here rest enter hd hu,lexical_step here rest hd hu]
        cases he : t.get? (here ++ [name]) with
        | none => exact ih _
        | some e =>
          cases e with
          | link target => exact absurd he (h _ _)
          | _ => exact ih _

theorem settle_linkFree (h : LinkFree d.tree) (p : Path) : d.settle p = some (placeOf d p) := by
  unfold settle
  cases linkCount d.tree <;> exact settleNames_linkFree h _ _ _

end Settle

section Names

variable {t u : Tree} {here c : Place} {e : Entry} {names : List String}

def HasNames (d : Disk) : Prop := ∀ q e, d.tree.get? q = some e → ∀ name ∈ q, Path.IsPart name

theorem isPart_of_walkNames {f : Place → List String → Except Errno Found} {followLast : Bool}
    (hn : ∀ q e, t.get? q = some e → ∀ name ∈ q, Path.IsPart name)
    (hf : ∀ here names, f here names = .ok (.entry c e) → ∀ name ∈ names,
      name ≠ "." → Path.IsPart name)
    (here : Place) (names : List String)
    (hw : walkNames t f followLast here names = .ok (.entry c e)) :
    ∀ name ∈ names, name ≠ "." → Path.IsPart name := by
  induction here, names using names_induction with
  | nil here => simp
  | dot here rest ih =>
    intro name hm hd
    exact ih (by simpa using hw) name ((List.mem_cons.1 hm).resolve_left hd) hd
  | up here rest ih =>
    intro name hm hd
    rcases List.mem_cons.1 hm with rfl | hm
    · exact ⟨by decide,by decide,by decide⟩
    · exact ih (by simpa using hw) name hm hd
  | long here name rest hd hu hl _ =>
    simp [walkNames_long t followLast here rest f hd hu hl] at hw
  | step here name rest hd hu hl ih =>
    rw [walkNames_step t followLast here rest f hd hu hl] at hw
    cases he : t.get? (here ++ [name]) with
    | none => simp only [he] at hw; split at hw <;> cases hw
    | some e' =>
      have hname : Path.IsPart name := hn _ _ he name (by simp)
      intro other hm hd'
      rcases List.mem_cons.1 hm with rfl | hm
      · exact hname
      · have hrest : rest.isEmpty = false := by
          cases rest with
          | nil => cases hm
          | cons _ _ => rfl
        simp only [he,hrest] at hw
        cases e' with
        | directory => exact ih hw other hm hd'
        | file bytes executable => cases hw
        | link target => exact hf _ _ hw other (List.mem_append_right _ hm) hd'

theorem isPart_of_walkFrom {followLast : Bool}
    (hn : ∀ q e, t.get? q = some e → ∀ name ∈ q, Path.IsPart name) (links : Nat) (here : Place)
    (names : List String) (hw : walkFrom t followLast links here names = .ok (.entry c e)) :
    ∀ name ∈ names, name ≠ "." → Path.IsPart name := by
  induction links generalizing here names with
  | zero => exact isPart_of_walkNames hn (fun _ _ h => by cases h) here names hw
  | succ links ih => exact isPart_of_walkNames hn ih here names hw

theorem plain_of_read {d : Disk} {p : Path} {bytes : List UInt8} (h : HasNames d) (hp : p.Dotless)
    (hr : d.read p = .ok bytes) : p.Plain := by
  obtain ⟨c,executable,hw⟩ := read_eq_ok.1 hr
  intro part hm
  exact isPart_of_walkFrom h _ _ _ (walk_eq_ok.1 hw).2 part hm fun he => hp (he ▸ hm)

theorem plainWalk_straight (ht : LinkFree t) (hu : LinkFree u) (hdot : "." ∉ names)
    (hup : ".." ∉ names)
    (h : ∀ q, q <+: here ++ names → u.get? q = t.get? q) :
    plainWalk u here names = plainWalk t here names := by
  induction names generalizing here with
  | nil => rfl
  | cons name rest ih =>
    simp only [List.mem_cons,not_or] at hdot hup
    by_cases hl : maxNameBytes < name.utf8ByteSize
    · rw [plainWalk_long u here rest (Ne.symm hdot.1) (Ne.symm hup.1) hl,
        plainWalk_long t here rest (Ne.symm hdot.1) (Ne.symm hup.1) hl]
    · rw [plainWalk_step hu here rest (Ne.symm hdot.1) (Ne.symm hup.1) (Nat.le_of_not_lt hl),
        plainWalk_step ht here rest (Ne.symm hdot.1) (Ne.symm hup.1) (Nat.le_of_not_lt hl),
        h _ ⟨rest,by simp⟩,ih hdot.2 hup.2 fun q hq => h q (by simpa using hq)]

theorem plainWalk_ups (t : Tree) (here : Place) (ups : Nat) (names : List String) :
    plainWalk t here (List.replicate ups ".." ++ names) =
      plainWalk t (lexical here (List.replicate ups "..")) names := by
  induction ups generalizing here with
  | zero => rfl
  | succ ups ih => rw [List.replicate_succ,List.cons_append,plainWalk_up,ih,lexical_up]

end Names

section Upright

variable {d d' : Disk} {p : Path} {c : Place}

theorem walk_upright (hd : LinkFree d.tree) (hd' : LinkFree d'.tree) (hh : d'.here = d.here)
    (hp : p.Upright) (hdot : p.Dotless)
    (h : ∀ q, q <+: placeOf d p → d'.tree.get? q = d.tree.get? q)
    (followLast : Bool) : d'.walk followLast p = d.walk followLast p := by
  obtain ⟨ups,names,hparts,hup⟩ := hp
  have hdots : "." ∉ names := fun hm => hdot (by rw [hparts]; exact List.mem_append_right _ hm)
  have hplace : placeOf d p = lexical (d.startOf p) (List.replicate ups "..") ++ names := by
    rw [placeOf,hparts,lexical_append,lexical_names _ hdots hup]
  rw [hplace] at h
  by_cases ha : Askable p
  · rw [walk_of_askable ha,walk_of_askable ha,walkFrom_linkFree hd,
      walkFrom_linkFree hd',startOf_eq hh,
      hparts,plainWalk_ups,plainWalk_ups,plainWalk_straight hd hd' hdots hup h]
  · obtain ⟨fault,hf⟩ := walk_of_not_askable ha
    rw [hf,hf]

theorem hasDirectory_grown (hd : LinkFree d.tree) (h : Changed Tree.Grown d d')
    (hp : HasDirectory d p) :
    HasDirectory d' p := by
  have hd' := (swept_of_grown h.2).linkFree hd
  obtain ⟨ha,hw⟩ := (walk_linkFree hd true).1 hp
  refine (walk_linkFree hd' true).2 ⟨ha,?_⟩
  rw [startOf_eq h.1,placeOf_eq h.1]
  refine plainWalk_directory hd hd' (fun q hq => ?_) hw
  rcases h.2 q with hs | ⟨hn,-⟩
  · exact hs.trans hq
  · rw [hn] at hq; cases hq

/-- A directory stays when something is cleared that is neither it nor above it. -/
theorem hasDirectory_cleared (hd : LinkFree d.tree) (h : Changed (Cleared c) d d') (hup : p.Upright)
    (hdot : p.Dotless) (hc : ¬ c <+: placeOf d p) (hp : HasDirectory d p) : HasDirectory d' p := by
  have hd' := (swept_of_cleared h.2).linkFree hd
  rw [HasDirectory,placeOf_eq h.1,walk_upright hd hd' h.1 hup hdot (fun q hq => ?_)]
  · exact hp
  · rw [h.2 q,if_neg]
    exact fun hb => hc ((Tree.isBelow_iff.1 hb).1.trans hq)

end Upright

end OperationHooks.Disk
