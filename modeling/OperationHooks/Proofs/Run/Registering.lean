import OperationHooks.Proofs.Run.Touching

set_option autoImplicit false

namespace OperationHooks.Run
open Effect Disk Index

def Stage.isEarly : Stage → Bool
  | .reading | .emitting _ => true
  | _ => false

def callFor (m : Hook.Module) (stage : Index.Stage) : Call := ⟨m.path.parent,m.baseName,stage⟩

/-- The registrations when a task has come to another stage. -/
def enroll (calls : Calls) (i : Nat) : Stage → Calls
  | .registering m stage => calls.put i (callFor m stage)
  | _ => calls

structure Enrolled (calls : Calls) (p : Progress) : Prop where
  coherent : Coherent calls p.world.indexes
  going : ∀ i t m stage, p.tasks[i]? = some t → t.stage = .registering m stage →
    calls i = some (callFor m stage)
  early : ∀ i t, p.tasks[i]? = some t → t.stage.isEarly = true → calls i = none
  ended : ∀ i c, calls i = some c → (∃ fault, c.stage = .ended fault) ∨
    ∃ t m, p.tasks[i]? = some t ∧ t.stage = .registering m c.stage ∧ c = callFor m c.stage

section Enrolled

variable {s : Setup} {files : List Path} {calls : Calls} {p : Progress} {t : Task}
  {i : Nat} {w : World}
variable {stage : Stage} {fault : Option Fault} {m : Hook.Module} {st st' : Index.Stage}

theorem enroll_of_ne (hr : ∀ m st, stage ≠ .registering m st) : enroll calls i stage = calls := by
  unfold enroll
  split
  · exact absurd rfl (hr _ _)
  · rfl

theorem getElem?_set_cases {tasks : List Task} {t' u : Task} {j : Nat}
    (hj : (tasks.set i t')[j]? = some u) :
    j = i ∧ u = t' ∨ j ≠ i ∧ tasks[j]? = some u := by
  by_cases he : i = j
  · subst he
    rw [List.getElem?_set_self' ] at hj
    cases hi : tasks[i]? with
    | none => rw [hi] at hj; cases hj
    | some t => rw [hi] at hj; exact .inl ⟨rfl,(Option.some.inj hj).symm⟩
  · rw [List.getElem?_set_ne he] at hj
    exact .inr ⟨Ne.symm he,hj⟩

namespace Enrolled

theorem start {listed : List Path} (hw : w.indexes = []) :
    Enrolled (fun _ => none) (.start listed w) := by
  refine ⟨?_,fun i t m stage hi ht => ?_,fun _ _ _ _ => rfl,fun i c hc => by cases hc⟩
  · rw [show (Progress.start listed w).world.indexes = [] from hw]
    exact coherent_nil
  · obtain ⟨path,-,rfl⟩ := List.mem_map.1 (List.mem_of_getElem? hi)
    cases ht

theorem aside (h : Enrolled calls p) (hi : p.tasks[i]? = some t)
    (hindexes : w.indexes = p.world.indexes)
    (hr : ∀ m st, stage ≠ .registering m st)
    (hearly : stage.isEarly = true → t.stage.isEarly = true)
    (hended : ∀ m st, t.stage = .registering m st → ∃ fault, st = .ended fault) :
    Enrolled calls ⟨p.tasks.set i ⟨t.path,stage⟩,w,fault⟩ := by
  refine ⟨hindexes ▸ h.coherent,fun j u m st hj hu => ?_,fun j u hj hu => ?_,fun j c hc => ?_⟩
  · rcases getElem?_set_cases hj with ⟨-,rfl⟩ | ⟨-,hj⟩
    · exact absurd hu (hr m st)
    · exact h.going j u m st hj hu
  · rcases getElem?_set_cases hj with ⟨rfl,rfl⟩ | ⟨-,hj⟩
    · exact h.early j t hi (hearly hu)
    · exact h.early j u hj hu
  · rcases h.ended j c hc with hover | ⟨u,m,hj,hu,hcall⟩
    · exact .inl hover
    · by_cases he : i = j
      · subst he
        obtain rfl := Option.some.inj (hi.symm.trans hj)
        exact .inl (hended m c.stage hu)
      · exact .inr ⟨u,m,(List.getElem?_set_ne he).trans hj,hu,hcall⟩

theorem put (h : Enrolled calls p) (hi : p.tasks[i]? = some t)
    (hc : Coherent (calls.put i (callFor m st)) w.indexes) :
    Enrolled (calls.put i (callFor m st)) ⟨p.tasks.set i ⟨t.path,.registering m st⟩,w,fault⟩ := by
  have hlt : i < p.tasks.length := (List.getElem?_eq_some_iff.1 hi).1
  refine ⟨hc,fun j u m' st' hj hu => ?_,fun j u hj hu => ?_,fun j c hc => ?_⟩
  · rcases getElem?_set_cases hj with ⟨rfl,rfl⟩ | ⟨hne,hj⟩
    · obtain ⟨rfl,rfl⟩ := Stage.registering.inj hu
      exact Calls.put_self _ _ _
    · rw [Calls.put_of_ne _ _ hne]
      exact h.going j u m' st' hj hu
  · rcases getElem?_set_cases hj with ⟨rfl,rfl⟩ | ⟨hne,hj⟩
    · cases hu
    · rw [Calls.put_of_ne _ _ hne]
      exact h.early j u hj hu
  · by_cases he : i = j
    · subst he
      rw [Calls.put_self] at hc
      obtain rfl := Option.some.inj hc
      exact .inr ⟨_,m,List.getElem?_set_self hlt,rfl,rfl⟩
    · rw [Calls.put_of_ne _ _ (Ne.symm he)] at hc
      rcases h.ended j c hc with hover | ⟨u,m',hj,hu,hcall⟩
      · exact .inl hover
      · exact .inr ⟨u,m',(List.getElem?_set_ne he).trans hj,hu,hcall⟩

/-- Whatever step a task takes, the registrations are still those of the tasks. -/
theorem advance (h : Enrolled calls p) (hi : p.tasks[i]? = some t)
    (hn : ∀ d, t.stage = .emitting d → s.hook.nameFault? d = none)
    (ha : t.stage.advance s t.path p.world = some (stage,w)) :
    Enrolled (enroll calls i stage) ⟨p.tasks.set i ⟨t.path,stage⟩,w,fault⟩ := by
  have hadvances := advances_of_advance hn ha
  have hindexes : (∀ m st, t.stage ≠ .registering m st) → w.indexes = p.world.indexes :=
    fun hr => indexes_of_advance hr ha
  obtain ⟨path,stage₀⟩ := t
  dsimp only at hadvances hindexes hn
  cases hadvances with
  | read w hq =>
    have hr : ∀ m st, opened s p.world.disk path ≠ .registering m st := fun m st he => by
      rcases opened_cases s p.world.disk path with ⟨entry,ho⟩ | ⟨d,ho⟩ | ⟨fault,ho⟩ <;>
        rw [ho] at he <;> cases he
    rw [enroll_of_ne hr]
    exact h.aside hi hq.indexes hr (fun _ => rfl) (by simp)
  | emit d m w hr hw hreport =>
    refine h.put hi ?_
    rw [hw]
    exact h.coherent.enter (h.early i _ hi rfl) rfl
  | register m st st' inner hm =>
    exact h.put hi (h.coherent.moves (h.going i _ m st hi rfl) hm)
  | registered m => exact h.aside hi rfl (by simp) (by simp [Stage.isEarly]) fun m' st he =>
      ⟨none,(Stage.registering.inj he).2.symm⟩
  | unregistered m fault => exact h.aside hi rfl (by simp) (by simp [Stage.isEarly]) fun m' st he =>
      ⟨some fault,(Stage.registering.inj he).2.symm⟩
  | report entry => exact h.aside hi rfl (by simp) (by simp [Stage.isEarly]) (by simp)
  | unsupported d w hv hq =>
    exact h.aside hi hq.indexes (by simp) (by simp [Stage.isEarly]) (by simp)
  | unemitted d fault w hv hr =>
    exact h.aside hi (hindexes (by simp)) (by simp) (by simp [Stage.isEarly]) (by simp)

theorem step (h : Enrolled calls p) (hn : Aimed s files p) (i : Nat) :
    ∃ calls', Enrolled calls' (p.step s i) := by
  rcases step_cases s p i with ⟨hs,-⟩ | ⟨t,stage,w,hi,ha,hs⟩ <;> rw [hs]
  · exact ⟨calls,h⟩
  · have haims := hn.aims t (List.mem_of_getElem? hi)
    exact ⟨_,h.advance hi (fun d hd => by rw [hd] at haims; exact haims.2.2) ha⟩

theorem follow (h : Enrolled calls p) (hn : Aimed s files p) (schedule : List Nat) :
    ∃ calls', Enrolled calls' (p.follow s schedule) := by
  induction schedule generalizing p calls with
  | nil => exact ⟨calls,h⟩
  | cons i rest ih =>
    obtain ⟨calls',h'⟩ := h.step hn i
    exact ih h' (hn.step i).1

end Enrolled

end Enrolled

end OperationHooks.Run
