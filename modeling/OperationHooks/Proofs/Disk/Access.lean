import OperationHooks.Disk.Access
import OperationHooks.Proofs.Disk.Walk
import OperationHooks.Proofs.Effect
/-!
What requests leave on the disk. Making directories only adds directories; removing a directory with
all below it and making it again empties it, whatever way leads there.
-/
set_option autoImplicit false

namespace OperationHooks.Disk
open Effect

variable {d d' : Disk} {p : Path} {followLast : Bool}

def Askable (p : Path) : Prop := hasNull p.text = false ∧ p.text.utf8ByteSize < maxPathBytes

theorem walk_of_askable (h : Askable p) (d : Disk) (followLast : Bool) : d.walk followLast p =
    (walkFrom d.tree followLast maxLinks (d.startOf p) p.parts).mapError
      fun errno => .system (.refused errno p.text) := by
  have hs : ¬ p.text.utf8ByteSize ≥ maxPathBytes := Nat.not_le.2 h.2
  simp only [walk,h.1,hs,Bool.false_eq_true,if_false]

theorem walk_of_not_askable (h : ¬ Askable p) : ∃ fault, ∀ (d : Disk) (followLast : Bool),
    d.walk followLast p = .error fault := by
  by_cases hn : hasNull p.text = true
  · exact ⟨.nullCharacter,fun d followLast => by simp only [walk,hn,if_true]⟩
  · have hs : p.text.utf8ByteSize ≥ maxPathBytes :=
      Nat.le_of_not_lt fun hs => h ⟨Bool.eq_false_iff.2 hn,hs⟩
    exact ⟨.system (.refused .nameTooLong p.text),fun d followLast => by
      simp only [walk,hn,hs,if_true,if_false,Bool.false_eq_true]⟩

theorem walk_eq_ok {found : Found} : d.walk followLast p = .ok found ↔
    Askable p ∧ walkFrom d.tree followLast maxLinks (d.startOf p) p.parts = .ok found := by
  by_cases h : Askable p
  · rw [walk_of_askable h]
    cases walkFrom d.tree followLast maxLinks (d.startOf p) p.parts <;>
      simp [Effect.mapError_ok,Effect.mapError_error,h]
  · obtain ⟨fault,hf⟩ := walk_of_not_askable h
    simp [hf,h]

def Changed (R : Tree → Tree → Prop) (d d' : Disk) : Prop := d'.here = d.here ∧ R d.tree d'.tree

theorem Changed.same_symm (h : Changed Tree.Same d d') : Changed Tree.Same d' d :=
  ⟨h.1.symm,h.2.symm⟩

theorem startOf_eq (h : d'.here = d.here) (p : Path) : d'.startOf p = d.startOf p := by
  simp [startOf,h]

theorem walk_congr (hh : d'.here = d.here)
    (h : ∀ q ∈ trail d followLast p, d'.tree.get? q = d.tree.get? q) :
    d'.walk followLast p = d.walk followLast p ∧ trail d' followLast p = trail d followLast p := by
  unfold trail at h ⊢
  rw [startOf_eq hh]
  obtain ⟨hw,ht⟩ := walkFrom_congr maxLinks _ _ h
  refine ⟨?_,ht⟩
  by_cases ha : Askable p
  · rw [walk_of_askable ha,walk_of_askable ha,startOf_eq hh,hw]
  · obtain ⟨fault,hf⟩ := walk_of_not_askable ha
    rw [hf,hf]

theorem walk_of_same (h : Changed Tree.Same d d') (followLast : Bool) (p : Path) :
    d'.walk followLast p = d.walk followLast p := (walk_congr h.1 fun q _ => h.2 q).1

/-- Where entries are as they were or gone, a walk that still ends at an entry has lost nothing. -/
theorem kept_of_walk {c : Place} {e : Entry} (hh : d'.here = d.here)
    (h : ∀ q ∈ trail d followLast p, d'.tree.get? q = d.tree.get? q ∨ d'.tree.get? q = none)
    (hw : d'.walk followLast p = .ok (.entry c e)) :
    ∀ q ∈ trail d followLast p, d'.tree.get? q = d.tree.get? q ∧ d.tree.get? q ≠ none := by
  obtain ⟨-,hw⟩ := walk_eq_ok.1 hw
  rw [startOf_eq hh] at hw
  exact kept_of_walkFrom maxLinks _ _ h hw

theorem present_of_walk {c : Place} {e : Entry} (hw : d.walk followLast p = .ok (.entry c e)) :
    ∀ q ∈ trail d followLast p, d.tree.get? q ≠ none := fun q hq =>
  (kept_of_walk rfl (fun _ _ => .inl rfl) hw q hq).2

theorem read_eq_ok {bytes : List UInt8} : d.read p = .ok bytes ↔
    ∃ c executable, d.walk true p = .ok (.entry c (.file bytes executable)) := by
  unfold read refuse
  constructor
  · intro h
    split at h
    · cases h
    · rename_i hw; obtain rfl := Except.ok.inj h; exact ⟨_,_,hw⟩
    all_goals cases h
  · rintro ⟨c,executable,hw⟩
    rw [hw]

theorem isDirectory_eq_true : d.isDirectory p = .ok true ↔
    ∃ c, d.walk true p = .ok (.entry c .directory) := by
  unfold isDirectory entry?
  cases hw : d.walk true p with
  | error fault => by_cases hm : meansAbsent fault = true <;> simp [hm,Except.map]
  | ok found =>
    cases found with
    | missing c => simp [Except.map]
    | entry c e => simp [Except.map]

theorem run_makeDirectory (p : Path) (d : Disk) : run (makeDirectory p) d =
    match d.walk false p with
    | .error fault => (.error fault,d)
    | .ok (.missing c) => (.ok (),d.putAt c .directory)
    | .ok (.entry _ _) => (refuse .exists p,d) := by
  simp only [makeDirectory,run_bind,run_get]
  cases d.walk false p with
  | error fault => rfl
  | ok found => cases found <;> rfl

/-- Either a directory is made where the walk found nothing, or nothing is done. -/
theorem makeDirectory_cases (p : Path) (d : Disk) :
    (∃ c, d.walk false p = .ok (.missing c) ∧
      run (makeDirectory p) d = (.ok (),d.putAt c .directory)) ∨
    ∃ fault, (∀ c, d.walk false p ≠ .ok (.missing c)) ∧ run (makeDirectory p) d =
      (.error fault,d) := by
  rw [run_makeDirectory]
  cases d.walk false p with
  | error fault => exact .inr ⟨fault,by simp,rfl⟩
  | ok found =>
    cases found with
    | missing c => exact .inl ⟨c,rfl,rfl⟩
    | entry c e => exact .inr ⟨_,by simp,rfl⟩

theorem none_of_missing {c : Place} (h : d.walk followLast p = .ok (.missing c)) :
    d.tree.get? c = none := agrees_of_walkFrom _ _ _ (walk_eq_ok.1 h).2

theorem isDirectory_putAt {c : Place} (h : d.walk false p = .ok (.missing c)) :
    (d.putAt c .directory).isDirectory p = .ok true := by
  have hnone := none_of_missing h
  have hc := Tree.ne_nil_of_get? hnone
  obtain ⟨ha,h⟩ := walk_eq_ok.1 h
  refine isDirectory_eq_true.2 ⟨c,walk_eq_ok.2 ⟨ha,?_⟩⟩
  exact put_of_walkFrom (by simp) (Tree.get?_put_self hc _)
    (fun q hq => Tree.get?_put_of_ne hc _ hq)
    hnone _ _ _ (walkFrom_true (by simp) _ _ _ h)

theorem unlessDirectory_spec {fault : PathFault} {r : Except PathFault Unit}
    (h : run (unlessDirectory p fault) d = (r,d')) :
    d' = d ∧ (r = .ok () → d.isDirectory p = .ok true) := by
  unfold unlessDirectory at h
  cases fault with
  | nullCharacter => obtain ⟨rfl,rfl⟩ := Prod.mk.inj h; simp
  | system cause =>
    simp only [run_bind,run_get,run_lift] at h
    cases hd : d.isDirectory p with
    | error fault => simp only [hd] at h; obtain ⟨rfl,rfl⟩ := Prod.mk.inj h; simp
    | ok there =>
      simp only [hd] at h
      cases there <;> (obtain ⟨rfl,rfl⟩ := Prod.mk.inj h; simp)

/-- What making any of the directories on a path preserves, making them all preserves. -/
theorem makeDirectoriesFrom_preserves {Inv : Disk → Prop} (above : Nat)
    (step : ∀ q : Path, q.anchor = p.anchor → q.parts <+: p.parts → ∀ d, Inv d →
      Inv (run (makeDirectory q) d).2) (h : Inv d) :
        Inv (run (makeDirectoriesFrom p above) d).2 := by
  have last : ∀ (q : Path) (g : PathFault → Action Unit), q.anchor = p.anchor →
      q.parts <+: p.parts →
      (∀ fault d, Inv d → Inv (run (g fault) d).2) → ∀ d, Inv d →
      Inv (run (tryCatch (makeDirectory q) g) d).2 := by
    intro q g hq hp hg d h
    have hs := step q hq hp d h
    rw [run_tryCatch]
    cases hm : run (makeDirectory q) d with
    | mk r d₁ =>
      rw [hm] at hs
      cases r with
      | ok _ => exact hs
      | error fault => exact hg fault d₁ hs
  have hunless : ∀ (q : Path) fault d, Inv d → Inv (run (unlessDirectory q fault) d).2 := by
    intro q fault d h
    cases hr : run (unlessDirectory q fault) d with
    | mk r d₁ => obtain ⟨rfl,-⟩ := unlessDirectory_spec hr; exact h
  have go : ∀ above (q : Path), q.anchor = p.anchor → q.parts <+: p.parts → ∀ d, Inv d →
      Inv (run (makeDirectoriesFrom q above) d).2 := by
    intro above
    induction above with
    | zero => exact fun q hq hp => last q _ hq hp (hunless q)
    | succ above ih =>
      intro q hq hp
      refine last q _ hq hp fun fault d h => ?_
      split
      · have hparent := ih q.parent hq ((List.dropLast_prefix _).trans hp) d h
        rw [run_bind]
        cases hm : run (makeDirectoriesFrom q.parent above) d with
        | mk r d₁ =>
          rw [hm] at hparent
          cases r with
          | ok _ => exact last q _ hq hp (hunless q) d₁ hparent
          | error fault => exact hparent
      · exact hunless q fault d h
  exact go above p rfl (List.prefix_refl _) d h

theorem isDirectory_of_makeDirectories {above : Nat}
    (h : run (makeDirectoriesFrom p above) d = (.ok (),d')) : d'.isDirectory p = .ok true := by
  have last : ∀ {d}, run (tryCatch (makeDirectory p) (unlessDirectory p)) d = (.ok (),d') →
      d'.isDirectory p = .ok true := by
    intro d h
    rw [run_tryCatch] at h
    rcases makeDirectory_cases p d with ⟨c,hw,hm⟩ | ⟨fault,-,hm⟩
    · rw [hm] at h
      obtain ⟨-,rfl⟩ := Prod.mk.inj h
      exact isDirectory_putAt hw
    · rw [hm] at h
      obtain ⟨rfl,hd⟩ := unlessDirectory_spec h
      exact hd rfl
  cases above with
  | zero => exact last h
  | succ above =>
    rw [makeDirectoriesFrom,run_tryCatch] at h
    rcases makeDirectory_cases p d with ⟨c,hw,hm⟩ | ⟨fault,-,hm⟩
    · rw [hm] at h
      obtain ⟨-,rfl⟩ := Prod.mk.inj h
      exact isDirectory_putAt hw
    · rw [hm] at h
      simp only at h
      split at h
      · obtain ⟨_,_,-,h⟩ := bind_eq_ok.1 h; exact last h
      · obtain ⟨rfl,hd⟩ := unlessDirectory_spec h; exact hd rfl

theorem grown_makeDirectoriesFrom (p : Path) (above : Nat) (d : Disk) :
    Changed Tree.Grown d (run (makeDirectoriesFrom p above) d).2 := by
  refine makeDirectoriesFrom_preserves _ (fun q _ _ d₁ h => ?_) ⟨rfl,Tree.Grown.refl _⟩
  rcases makeDirectory_cases q d₁ with ⟨c,hw,hm⟩ | ⟨fault,-,hm⟩
  · rw [hm]
    exact ⟨h.1,h.2.trans (Tree.grown_put (none_of_missing hw))⟩
  · rw [hm]; exact h

theorem grown_makeDirectories (p : Path) (d : Disk) :
    Changed Tree.Grown d (run (makeDirectories p) d).2 := grown_makeDirectoriesFrom p _ d

theorem removeDirectory_spec (h : run (removeDirectory p) d = (.ok (),d')) :
    p.parts ≠ [] ∧ p.parts.getLast? ≠ some ".." ∧
      ∃ c, d.walk false p = .ok (.entry c .directory) ∧
      d' = { d with tree := d.tree.remove c } := by
  unfold removeDirectory at h
  by_cases hp : p.parts.isEmpty = true
  · simp [hp,run_bind,refuse] at h
  · rw [if_neg hp] at h
    simp only [run_bind,run_get] at h
    cases hw : d.walk false p with
    | error fault => simp [hw] at h
    | ok found =>
      cases found with
      | missing c => simp [hw,refuse] at h
      | entry c e =>
        cases e with
        | file bytes executable => simp [hw,refuse] at h
        | link target => simp [hw,refuse] at h
        | directory =>
          simp only [hw] at h
          by_cases hl : (p.parts.getLast? == some "..") = true
          · simp [hl,run_bind,refuse] at h
          · rw [if_neg hl] at h
            simp only [run_set,Prod.mk.injEq,true_and] at h
            exact ⟨by simpa using hp,by simpa using hl,c,rfl,h.symm⟩

theorem removeTree_spec (h : run (removeTree p) d = (.ok (),d')) :
    p.parts ≠ [] ∧ p.parts.getLast? ≠ some ".." ∧ ∃ c, d.walk false p = .ok (.entry c .directory) ∧
      { d with tree := d.tree.clear c }.walk false p = .ok (.entry c .directory) ∧
      d' = { d with tree := (d.tree.clear c).remove c } := by
  unfold removeTree at h
  simp only [run_bind,run_get] at h
  cases hw : d.walk false p with
  | error fault => simp [hw] at h
  | ok found =>
    cases found with
    | missing c => simp [hw,refuse] at h
    | entry c e =>
      cases e with
      | file bytes executable => simp [hw] at h
      | link target =>
        simp only [hw] at h
        cases hw' : d.walk true p with
        | error fault => simp [hw'] at h
        | ok found => cases found <;> simp [hw',refuse] at h
      | directory =>
        simp only [hw,run_bind,run_set] at h
        obtain ⟨hp,hl,c',hc',rfl⟩ := removeDirectory_spec h
        -- The way to the directory has not been cleared, or it could not be removed.
        have hthin : Changed Tree.Thinned d { d with tree := d.tree.clear c } :=
          ⟨rfl,Tree.thinned_clear _ _⟩
        have hkept := kept_of_walk hthin.1 (fun q _ => hthin.2 q) hc'
        have hsame := (walk_congr hthin.1 fun q hq => (hkept q hq).1).1
        rw [hsame,hw] at hc'
        obtain ⟨rfl,-⟩ := Found.entry.inj (Except.ok.inj hc')
        exact ⟨hp,hl,c,rfl,hsame.trans hw,rfl⟩

def Cleared (c : Place) (t u : Tree) : Prop :=
  ∀ q, u.get? q = if Tree.isBelow c q then none else t.get? q

/-- What lay below a place is gone, and the place may be gone as well. -/
def Emptied (c : Place) (d d' : Disk) : Prop :=
  d'.here = d.here ∧ ((d.tree.clear c).Same d'.tree ∨ ((d.tree.clear c).remove c).Same d'.tree)

section Remake

variable {c : Place}

theorem get?_of_gap {t u : Tree} (hc : c ≠ []) (h : ((t.clear c).remove c).Same u) :
    u.get? c = none ∧ ∀ q, q ≠ c → u.get? q = (t.clear c).get? q :=
  ⟨by simp [h c,Tree.get?_remove hc],fun q hq => by simp [h q,Tree.get?_remove hc,hq]⟩

theorem emptied_makeDirectory {q : Path} (hc : c ≠ []) (hget : d.tree.get? c = some .directory)
    (hw : walkFrom (d.tree.clear c) false maxLinks (d.startOf p) p.parts =
      .ok (.entry c .directory))
    (hanchor : q.anchor = p.anchor) (hq : q.parts <+: p.parts) (h : Emptied c d d') :
    Emptied c d (run (makeDirectory q) d').2 := by
  obtain ⟨e,k,hfront⟩ : ∃ e k, walkFrom (d.tree.clear c) false maxLinks (d.startOf p) q.parts =
      .ok (.entry e k) := by
    obtain ⟨behind,hbehind⟩ := hq
    rw [← hbehind] at hw
    by_cases hend : behind = []
    · exact ⟨c,.directory,by simpa [hend] using hw⟩
    · exact front_of_walkFrom hend _ _ _ hw
  rcases makeDirectory_cases q d' with ⟨b,hb,hm⟩ | ⟨fault,-,hm⟩
  · rw [hm]
    have hstart : d'.startOf q = d.startOf p := by simp [startOf,Path.isAbsolute,hanchor,h.1]
    obtain ⟨-,hb⟩ := walk_eq_ok.1 hb
    rw [hstart] at hb
    rcases h.2 with hT | hS
    · rw [(walkFrom_congr maxLinks _ _ fun r _ => hT r).1,hfront] at hb
      cases hb
    · obtain ⟨hnone,hrest⟩ := get?_of_gap hc hS
      rcases gap_of_walkFrom hnone hrest _ _ _ hfront with hg | hg | hg <;> rw [hg] at hb
      · cases hb
      · obtain rfl := Found.missing.inj (Except.ok.inj hb)
        refine ⟨h.1,.inl fun r => ?_⟩
        by_cases hr : r = c
        · subst hr
          rw [Tree.get?_clear,Tree.not_isBelow_self,if_neg Bool.false_ne_true,hget]
          exact Tree.get?_put_self hc _
        · rw [← hrest r hr]; exact Tree.get?_put_of_ne hc _ hr
      · cases hb
  · rw [hm]; exact h

theorem cleared_of_emptied {front : List String} {name : String} (hc : c ≠ []) (hd : name ≠ ".")
    (hu : name ≠ "..") (hparts : p.parts = front ++ [name])
    (hw : walkFrom (d.tree.clear c) false maxLinks (d.startOf p) p.parts =
      .ok (.entry c .directory))
    (h : Emptied c d d') (hdir : d'.isDirectory p = .ok true) : Changed (Cleared c) d d' := by
  refine ⟨h.1,?_⟩
  rcases h.2 with hT | hS
  · intro q; rw [hT q,Tree.get?_clear]
  · obtain ⟨b,hb⟩ := isDirectory_eq_true.1 hdir
    obtain ⟨-,hb⟩ := walk_eq_ok.1 hb
    obtain ⟨hnone,hrest⟩ := get?_of_gap hc hS
    rw [startOf_eq h.1] at hb
    rcases gap_of_walkFrom hnone hrest _ _ _ hw with hg | hg | hg
    · rw [hparts] at hg
      rw [(last_of_walkFrom hd hu _ _ _ hg).1] at hnone; cases hnone
    · rw [walkFrom_true (by simp) _ _ _ hg] at hb; cases hb
    · rw [walkFrom_true (by simp) _ _ _ hg] at hb; cases hb

/-- A directory whose path ends with a name, removed and made again, is where it was, empty. -/
theorem cleared_of_remake {d₁ d₂ : Disk} (hdot : "." ∉ p.parts)
    (hr : run (removeTree p) d = (.ok (),d₁)) (hm : run (makeDirectories p) d₁ = (.ok (),d₂)) :
    ∃ c, d.walk false p = .ok (.entry c .directory) ∧ d.tree.get? c = some .directory ∧
      Changed (Cleared c) d d₂ := by
  obtain ⟨hne,hlast,c,hw,hwT,rfl⟩ := removeTree_spec hr
  obtain ⟨front,name,hparts⟩ : ∃ front name, p.parts = front ++ [name] :=
    ⟨_,_,(List.dropLast_concat_getLast hne).symm⟩
  have hd : name ≠ "." := by rintro rfl; exact hdot (by simp [hparts])
  have hu : name ≠ ".." := by rintro rfl; exact hlast (by simp [hparts])
  have hwalk := (walk_eq_ok.1 hw).2
  rw [hparts] at hwalk
  obtain ⟨hget,hname⟩ := last_of_walkFrom hd hu _ _ _ hwalk
  have hc : c ≠ [] := by rintro rfl; simp at hname
  have hinv :
      Emptied c d (run (makeDirectories p) { d with tree := (d.tree.clear c).remove c }).2 :=
    makeDirectoriesFrom_preserves _
      (fun q hanchor hq d' h => emptied_makeDirectory hc hget (walk_eq_ok.1 hwT).2 hanchor hq h)
      ⟨rfl,.inr (Tree.Same.refl _)⟩
  rw [hm] at hinv
  exact ⟨c,hw,hget,cleared_of_emptied hc hd hu hparts (walk_eq_ok.1 hwT).2 hinv
    (isDirectory_of_makeDirectories hm)⟩

end Remake

def KeptAlong (p : Path) (d d' : Disk) : Prop :=
  d'.here = d.here ∧ ∀ q ∈ trail d true p, d'.tree.get? q = d.tree.get? q

namespace KeptAlong

theorem refl (p : Path) (d : Disk) : KeptAlong p d d := ⟨rfl,fun _ _ => rfl⟩

theorem trail_eq (h : KeptAlong p d d') : trail d' true p = trail d true p := (walk_congr h.1 h.2).2

theorem walk_eq (h : KeptAlong p d d') : d'.walk true p = d.walk true p := (walk_congr h.1 h.2).1

theorem read_eq (h : KeptAlong p d d') : d'.read p = d.read p := by unfold read; rw [h.walk_eq]

theorem trans {d'' : Disk} (h : KeptAlong p d d') (h' : KeptAlong p d' d'') :
    KeptAlong p d d'' := by
  refine ⟨h'.1.trans h.1,fun q hq => (h'.2 q ?_).trans (h.2 q hq)⟩
  rw [h.trail_eq]; exact hq

end KeptAlong

theorem keptAlong_of_grown {bytes : List UInt8} (h : Changed Tree.Grown d d')
    (hr : d.read p = .ok bytes) : KeptAlong p d d' := by
  obtain ⟨c,executable,hw⟩ := read_eq_ok.1 hr
  exact ⟨h.1,fun q hq => (h.2 q).resolve_right fun hq' => present_of_walk hw q hq hq'.1⟩

theorem keptAlong_of_cleared {c : Place} (h : Changed (Cleared c) d d')
    (hp : ∀ q ∈ trail d true p, Tree.isBelow c q = false) : KeptAlong p d d' :=
  ⟨h.1,fun q hq => by simp [h.2 q,hp q hq]⟩

end OperationHooks.Disk
