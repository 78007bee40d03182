import Mathlib.Data.List.Induction
import OperationHooks.Proofs.Run.Whole
/-!
Which of several definitions has the last word on a module they share. A task writes its module in
its second step, which it never has to wait for, so the schedule alone decides, whatever the other
tasks have to do.
-/
set_option autoImplicit false

namespace OperationHooks.Run
open Effect Disk Index

def HasLastWord (steps : List Nat) (mine : Nat → Prop) (i : Nat) : Prop :=
  ∃ before after, steps = before ++ i :: after ∧ before.count i = 1 ∧
    ∀ j, mine j → j ≠ i → 2 ≤ before.count j

theorem exists_lastWord {steps : List Nat} {mine : Nat → Prop} (hsome : ∃ j, mine j)
    (h : ∀ j, mine j → 2 ≤ steps.count j) : ∃ i, mine i ∧ HasLastWord steps mine i := by
  induction steps using List.reverseRecOn with
  | nil =>
    obtain ⟨j,hj⟩ := hsome
    exact absurd (h j hj) (by simp)
  | append_singleton before x ih =>
    by_cases hall : ∀ j, mine j → 2 ≤ before.count j
    · obtain ⟨i,hi,front,back,rfl,hone,hothers⟩ := ih hall
      exact ⟨i,hi,front,back ++ [x],by simp,hone,hothers⟩
    · simp only [not_forall,Nat.not_le] at hall
      obtain ⟨j,hj,hfew⟩ := hall
      have hcount : ∀ k, k ≠ x → (before ++ [x]).count k = before.count k := fun k hk => by
        simp [List.count_append,hk.symm]
      have hx : j = x := by
        by_contra hne
        have hmany := h j hj
        rw [hcount j hne] at hmany
        omega
      subst hx
      have hmany := h j hj
      rw [List.count_append,List.count_singleton_self] at hmany
      refine ⟨j,hj,before,[],rfl,by omega,fun k hk hne => ?_⟩
      rw [← hcount k hne]
      exact h k hk

def Paced (s : Setup) (base : Disk) (t : Task) (m : Descriptor) : Nat → Prop
  | 0 => t.stage = .reading
  | 1 => t.stage = .emitting m
  | _ + 2 => (callOf s base t).isSome = true

/-- Every task that makes a module has come as far as its steps say. -/
def Counted (s : Setup) (base : Disk) (steps : List Nat) (p : Progress) : Prop := ∀ i t m,
  p.tasks[i]? = some t → plan s base t.path = .make m → Paced s base t m (steps.count i)

def Writes (s : Setup) (base : Disk) (files : List Path) (q : Place) (i : Nat) : Prop :=
  ∃ path m, files[i]? = some path ∧ plan s base path = .make m ∧ modulePlace s base m = q

def HoldsRendering (s : Setup) (base : Disk) (files : List Path) (m : Descriptor) (q : Place)
    (d : Disk) : Prop :=
  ∃ disk text executable, Overlaid (Generated s base files) base disk ∧
    s.hook.Rendering disk m text ∧
    d.tree.get? q = some (.file (Text.encode text) executable)

section Steps

variable {s : Setup} {base : Disk} {files : List Path} {r : Report} {p : Progress}
  {t : Task} {m : Descriptor}
variable {steps : List Nat} {i j n : Nat} {q : Place} {w w' : World} {stage : Stage}

theorem Paced.registering (h : 2 ≤ n) (hpaced : Paced s base t m n) :
    (callOf s base t).isSome = true := by
  obtain ⟨n,rfl⟩ := Nat.exists_eq_add_of_le' h
  exact hpaced

/-- Only a task that has come to its registration has to wait. -/
theorem Paced.still (h : Paced s base t m n) (hstill : t.stage.advance s t.path w = none) :
    Paced s base t m (n + 1) := by
  match n with
  | 0 =>
    rcases advance_eq_none hstill with hs | ⟨_,hs⟩ | ⟨_,_,hs,-⟩ <;> cases hs.symm.trans h
  | 1 =>
    rcases advance_eq_none hstill with hs | ⟨_,hs⟩ | ⟨_,_,hs,-⟩ <;> cases hs.symm.trans h
  | _ + 2 => exact h

theorem Paced.advances (h : Paced s base t m n) (hp : Prepared s base files)
    (ho : Overlaid (Generated s base files) base w.disk) (hm : t.path ∈ files)
    (hplan : plan s base t.path = .make m) (ha : Advances s t.path w t.stage stage w')
    (hf : ∀ fault, stage ≠ .failed fault) : Paced s base ⟨t.path,stage⟩ m (n + 1) := by
  obtain ⟨path,stage₀⟩ := t
  dsimp only at ha hm hplan ⊢
  -- A task is at its registration, or behind it, only with two steps taken.
  have hlate : (callOf s base ⟨path,stage⟩).isSome = true → stage₀ ≠ .reading →
      (∀ d, stage₀ ≠ .emitting d) →
      Paced s base ⟨path,stage⟩ m (n + 1) := by
    intro hcall hreading hemitting
    match n with
    | 0 => exact absurd h hreading
    | 1 => exact absurd h (hemitting m)
    | _ + 2 => exact hcall
  cases ha with
  | read w' hq =>
    match n with
    | 0 =>
      have hopened := hp.opened_eq ho hm hf
      exact hopened.trans (plan_make hplan).1
    | 1 => cases h
    | _ + 2 => simp [Paced] at h
  | emit d module w' hr hindexes hreport =>
    match n with
    | 0 => cases h
    | 1 => exact Option.isSome_iff_exists.2 ⟨_,callOf_registering hplan module .waiting⟩
    | _ + 2 => simp [Paced] at h
  | unsupported d w' hv hq =>
    match n with
    | 0 => cases h
    | 1 =>
      obtain rfl := Stage.emitting.inj h
      have hshaped := (plan_make hplan).2
      rw [hv] at hshaped
      cases hshaped
    | _ + 2 => simp [Paced] at h
  | unemitted d fault w' hv hr => exact absurd rfl (hf fault)
  | register module stage₁ stage₂ inner hmoves =>
    exact hlate (by rw [callOf_registering hplan]; rfl) (by simp) (by simp)
  | registered module =>
    exact hlate (by rw [callOf_reporting hplan]; rfl) (by simp) (by simp)
  | unregistered module fault => exact absurd rfl (hf fault)
  | report entry =>
    exact hlate (by rw [callOf_finished hplan]; rfl) (by simp) (by simp)

theorem Counted.start (s : Setup) (base : Disk) (files : List Path) (w : World) :
    Counted s base [] (.start files w) := by
  intro i t m hi _
  rw [Progress.start,List.getElem?_map] at hi
  obtain ⟨path,-,rfl⟩ := Option.map_eq_some_iff.1 hi
  rfl

theorem Counted.step (h : Counted s base steps p) (hp : Prepared s base files)
    (hs : Sound s base files r p)
    (hf : (p.step s j).fault = none) : Counted s base (steps ++ [j]) (p.step s j) := by
  have hsame : ∀ i, i ≠ j → (steps ++ [j]).count i = steps.count i := fun i hi => by
    simp [List.count_append,hi.symm]
  have hmore : (steps ++ [j]).count j = steps.count j + 1 := by
    rw [List.count_append,List.count_singleton_self]
  intro i t m hi hplan
  rcases step_cases s p j with ⟨hstep,hstill⟩ | ⟨t₀,stage,w,hj,ha,hstep⟩ <;> rw [hstep] at hi hf
  · by_cases hij : i = j
    · subst hij
      rw [hmore]
      exact (h i t m hi hplan).still (hstill t hi)
    · rw [hsame i hij]
      exact h i t m hi hplan
  · by_cases hij : i = j
    · subst hij
      have hlt : i < p.tasks.length := (List.getElem?_eq_some_iff.1 hj).1
      rw [List.getElem?_set_self hlt] at hi
      obtain rfl := Option.some.inj hi
      rw [hmore]
      refine (h i t₀ m hj hplan).advances hp hs.laid.overlaid
        (List.mem_of_getElem? (hs.file_of_task hj)) hplan
        (advances_of_advance (hs.named hj) ha) fun fault he => ?_
      rw [he] at hf
      exact fault_of_failed hf
    · rw [List.getElem?_set_ne (Ne.symm hij)] at hi
      rw [hsame i hij]
      exact h i t m hi hplan

theorem Counted.follow {more : List Nat} (h : Counted s base steps p) (hp : Prepared s base files)
    (hs : Sound s base files r p) (hf : (p.follow s more).fault = none) :
    Counted s base (steps ++ more) (p.follow s more) := by
  induction more generalizing p steps with
  | nil => rwa [List.append_nil]
  | cons j rest ih =>
    have hstep : (p.step s j).fault = none := fault_of_follow hf
    rw [List.append_cons]
    exact ih (h.step hp hs hstep) (hs.next hp hstep) hf

theorem disk_of_step (h : Sound s base files r p) (hp : Prepared s base files)
    (hf : (p.step s j).fault = none)
    (hq : ∀ directory, q ≠ indexPlace s.index base directory)
    (hne : ∀ t m, p.tasks[j]? = some t → callOf s base t = none → plan s base t.path = .make m →
      q ≠ modulePlace s base m) :
        (p.step s j).world.disk.tree.get? q = p.world.disk.tree.get? q := by
  rcases step_cases s p j with ⟨hstep,-⟩ | ⟨⟨path,stage₀⟩,stage,w,hj,ha,hstep⟩ <;>
    rw [hstep] at hf ⊢
  have hfit := h.fits _ (List.mem_of_getElem? hj)
  have hmem : path ∈ files := List.mem_of_getElem? (h.file_of_task hj)
  cases advances_of_advance (h.named hj) ha with
  | read w hquiet => exact congrArg (·.tree.get? q) hquiet.disk
  | emit d m w hr hindexes hreport =>
    have hplan : plan s base path = .make d := by
      rw [plan_of_emitting hfit,if_pos (Hook.Settings.shaped_of_emit hr)]
    obtain ⟨-,-,text,-,hdisk⟩ := hp.emit_ok h.laid.overlaid hmem hplan hr
    dsimp only
    rw [hdisk]
    exact Tree.get?_put_of_ne (hp.modulePlace_ne_nil hplan)
      _ (hne _ d hj (callOf_emitting path d) hplan)
  | unsupported d w hv hquiet => exact congrArg (·.tree.get? q) hquiet.disk
  | unemitted d fault w hv hr => exact (fault_of_failed hf).elim
  | register m stage₁ stage₂ inner hmoves =>
    obtain ⟨d,hplan,hpath⟩ := hfit
    rw [hpath,hp.outputPath_eq hplan,parent_childOf] at hmoves
    exact hp.ground.disk_of_moves h.laid.overlaid ⟨path,hmem,rfl⟩ hmoves q (hq _)
  | registered m => rfl
  | unregistered m fault => exact (fault_of_failed hf).elim
  | report entry => rfl

theorem holds_of_step (h : Sound s base files r p) (hp : Prepared s base files)
    (hf : (p.step s i).fault = none)
    (hi : p.tasks[i]? = some t) (hstage : t.stage = .emitting m)
    (hplan : plan s base t.path = .make m) :
    HoldsRendering s base files m (modulePlace s base m) (p.step s i).world.disk := by
  obtain ⟨path,stage₀⟩ := t
  obtain rfl : stage₀ = .emitting m := hstage
  have hmem : path ∈ files := List.mem_of_getElem? (h.file_of_task hi)
  rcases step_cases s p i with ⟨-,hstill⟩ | ⟨t,stage,w,hj,ha,hstep⟩
  · rcases advance_eq_none (hstill _ hi) with hs | ⟨_,hs⟩ | ⟨_,_,hs,-⟩ <;> cases hs
  · rw [hstep] at hf ⊢
    obtain rfl := Option.some.inj (hi.symm.trans hj)
    cases advances_of_advance (h.named hj) ha with
    | emit d module w hr hindexes hreport =>
      obtain ⟨-,-,text,hrender,hdisk⟩ := hp.emit_ok h.laid.overlaid hmem hplan hr
      obtain ⟨executable,hstored⟩ :
          ∃ executable, stored (p.world.disk.tree.get? (modulePlace s base m))
          (Text.encode text) = .file (Text.encode text) executable := ⟨_,rfl⟩
      rw [hstored] at hdisk
      refine ⟨p.world.disk,text,executable,h.laid.overlaid,hrender,?_⟩
      dsimp only
      rw [hdisk]
      exact Tree.get?_put_self (hp.modulePlace_ne_nil hplan) _
    | unsupported d w hv hquiet =>
      have hshaped := (plan_make hplan).2
      rw [hv] at hshaped
      cases hshaped
    | unemitted d fault w hv hr => exact (fault_of_failed hf).elim

theorem disk_of_follow {after : List Nat} (h : Sound s base files r p) (hp : Prepared s base files)
    (hc : Counted s base steps p) (hf : (p.follow s after).fault = none)
    (hq : ∀ directory, q ≠ indexPlace s.index base directory)
    (hlate : ∀ j, Writes s base files q j → 2 ≤ steps.count j) :
    (p.follow s after).world.disk.tree.get? q = p.world.disk.tree.get? q := by
  induction after generalizing p steps with
  | nil => rfl
  | cons j rest ih =>
    have hstep : (p.step s j).fault = none := fault_of_follow hf
    have hmore : ∀ k, Writes s base files q k → 2 ≤ (steps ++ [j]).count k := fun k hk => by
      rw [List.count_append]
      exact Nat.le_add_right_of_le (hlate k hk)
    refine (ih (h.next hp hstep) (hc.step hp h hstep) hf hmore).trans
      (disk_of_step h hp hstep hq ?_)
    rintro t m hj hnone hplan rfl
    have hcall := (hc j t m hj hplan).registering (hlate j ⟨t.path,m,h.file_of_task hj,hplan,rfl⟩)
    rw [hnone] at hcall
    cases hcall

theorem holds_of_follow (hp : Prepared s base files) (h : Sound s base files r p)
    (hc : Counted s base [] p)
    (hf : (p.follow s steps).fault = none) {path : Path} (hi : files[i]? = some path)
    (hplan : plan s base path = .make m)
    (hlast : HasLastWord steps (Writes s base files (modulePlace s base m)) i) :
    HoldsRendering s base files m (modulePlace s base m) (p.follow s steps).world.disk := by
  obtain ⟨before,after,rfl,hone,hothers⟩ := hlast
  rw [follow_append] at hf ⊢
  have hstep : ((p.follow s before).step s i).fault = none := fault_of_follow hf
  have hsound := h.follow hp (fault_of_step hstep)
  have hcounted := hc.follow hp h (fault_of_step hstep)
  rw [List.nil_append] at hcounted
  rw [← hsound.paths,List.getElem?_map] at hi
  obtain ⟨t,ht,rfl⟩ := Option.map_eq_some_iff.1 hi
  have hpaced := hcounted i t m ht hplan
  rw [hone] at hpaced
  obtain ⟨disk,text,executable,ho,hrender,hget⟩ := holds_of_step hsound hp hstep ht hpaced hplan
  refine ⟨disk,text,executable,ho,hrender,Eq.trans ?_ hget⟩
  refine disk_of_follow (hsound.next hp hstep) hp (hcounted.step hp hsound hstep) hf
    (fun directory => hp.modulePlace_ne hplan) fun j hj => ?_
  rw [List.count_append]
  by_cases hji : j = i
  · subst hji
    exact Nat.le_of_eq (congrArg₂ (· + ·) hone List.count_singleton_self).symm
  · exact Nat.le_add_right_of_le (hothers j hj hji)

theorem Counted.late (h : Counted s base steps p) (hs : Sound s base files r p)
    (hfin : p.isFinished = true)
    (hj : Writes s base files q j) : 2 ≤ steps.count j := by
  obtain ⟨path,m,hfile,hplan,-⟩ := hj
  have hpaced := h j _ m (hs.finished hfin hfile) hplan
  match hn : steps.count j with
  | 0 => rw [hn] at hpaced; cases hpaced
  | 1 => rw [hn] at hpaced; cases hpaced
  | _ + 2 => omega

end Steps

section Runs

variable {g : HookGenerator} {files : List Path} {steps : List Nat} {w w₁ w' : World} {r : Report}

/-- What a run leaves at the place of a module is the rendering of the definition that has the last
word there. -/
theorem lastWord_of_runOn (ht : Traced g files w w₁ w' r) (hindexes : w.indexes = [])
    (h : run (runOn g files (Progress.follow g.setup steps)) w = (.ok r,w')) :
    (∀ q j, Writes g.setup w₁.disk files q j → 2 ≤ steps.count j) ∧
    ∀ i path m, files[i]? = some path → plan g.setup w₁.disk path = .make m →
      HasLastWord steps (Writes g.setup w₁.disk files (modulePlace g.setup w₁.disk m)) i →
      HoldsRendering g.setup w₁.disk files m (modulePlace g.setup w₁.disk m) w'.disk := by
  obtain ⟨_,p,paths,inner,hclean,rfl,hfault,hfinished,hflush,rfl,rfl⟩ := runOn_ok.1 h
  obtain ⟨-,rfl⟩ := Prod.mk.inj (ht.cleaned.symm.trans hclean)
  have hp := ht.prepared
  obtain ⟨hkept,-⟩ := kept_of_clean hclean
  have hstart : Sound g.setup w₁.disk files w₁.processing.report (.start files w₁.processing) :=
    Sound.start (w := w₁.processing) (hkept.trans hindexes)
  have hcounted : Counted g.setup w₁.disk [] (.start files w₁.processing) := .start _ _ files _
  have hsound := hstart.follow hp hfault
  have hend := hcounted.follow hp hstart hfault
  rw [List.nil_append] at hend
  refine ⟨fun q j hj => hend.late hsound hfinished hj,fun i path m hi hplan hlast => ?_⟩
  obtain ⟨-,-,hfresh⟩ : _ ∧ _ ∧ Refreshed g.setup.index w₁.disk (Uses g.setup files) _ inner := by
    refine hsound.flushed hp hfinished ?_ ?_ hflush <;> rfl
  obtain ⟨disk,text,executable,ho,hrender,hget⟩ :=
    holds_of_follow hp hstart hcounted hfault hi hplan hlast
  refine ⟨disk,text,executable,ho,hrender,Eq.trans ?_ hget⟩
  exact hfresh.elsewhere _ fun directory _ => hp.modulePlace_ne hplan

end Runs

end OperationHooks.Run
