import OperationHooks.Proofs.Run.Progress
import OperationHooks.Run.Hooks
/-!
Schedules of tasks. What holds of the tasks at the start holds along every schedule until one of
them fails; where nothing can fail every schedule that goes on while it can brings all of them to
their end.
-/
set_option autoImplicit false

namespace OperationHooks.Run
open Effect Disk Index

def Interleaves (s : Setup) (processing : Processing) : Prop :=
  ∀ p, ∃ schedule, processing p = p.follow s schedule

def Progress.isSettled (s : Setup) (p : Progress) : Bool :=
  p.tasks.all fun t => (t.stage.advance s t.path p.world).isNone

section Follow

variable {s : Setup} {base : Disk} {files : List Path} {r : Report} {p : Progress} {i : Nat}

theorem follow_append (s : Setup) (first rest : List Nat) (p : Progress) :
    p.follow s (first ++ rest) = (p.follow s first).follow s rest := List.foldl_append

theorem follow_concat (s : Setup) (steps : List Nat) (i : Nat) (p : Progress) :
    p.follow s (steps ++ [i]) = (p.follow s steps).step s i := follow_append s steps [i] p

theorem interleaves_follow (s : Setup) (schedule : List Nat) :
    Interleaves s (Progress.follow s schedule) :=
  fun _ => ⟨schedule,rfl⟩

theorem interleaves_inOrder (s : Setup) : Interleaves s (Progress.inOrder s) := by
  intro p
  unfold Progress.inOrder
  generalize List.range p.tasks.length = tasks
  induction tasks generalizing p with
  | nil => exact ⟨[],rfl⟩
  | cons i rest ih =>
    rw [List.foldl_cons]
    by_cases hf : p.fault.isSome = true
    · rw [if_pos hf]; exact ih p
    · rw [if_neg hf]
      obtain ⟨schedule,hs⟩ := ih (p.follow s (List.replicate maxSteps i))
      exact ⟨List.replicate maxSteps i ++ schedule,by rw [hs,follow_append]⟩

/-- All steps of one task, then all of the next one, for so many tasks. -/
def eachInTurn (count : Nat) : List Nat := (List.range count).flatMap (List.replicate maxSteps)

theorem step_cases (s : Setup) (p : Progress) (i : Nat) :
    (p.step s i = p ∧ ∀ t, p.tasks[i]? = some t → t.stage.advance s t.path p.world = none) ∨
    ∃ t stage w, p.tasks[i]? = some t ∧ t.stage.advance s t.path p.world = some (stage,w) ∧
      p.step s i = ⟨p.tasks.set i ⟨t.path,stage⟩,w,p.fault <|> Task.fault? ⟨t.path,stage⟩⟩ := by
  unfold Progress.step
  cases hi : p.tasks[i]? with
  | none => exact .inl ⟨rfl,by simp⟩
  | some t =>
    cases ha : t.stage.advance s t.path p.world with
    | none => exact .inl ⟨by simp only [ha],by simpa using ha⟩
    | some next => simp only [ha]; exact .inr ⟨t,next.1,next.2,rfl,ha,rfl⟩

theorem fault_of_step (h : (p.step s i).fault = none) : p.fault = none := by
  rcases step_cases s p i with ⟨hs,-⟩ | ⟨t,stage,w,-,-,hs⟩ <;> rw [hs] at h
  · exact h
  · cases hf : p.fault with
    | none => rfl
    | some fault => rw [hf] at h; cases h

theorem fault_of_failed {path : Path} {fault : Fault} {kept : Option Fault}
    (h : (kept <|> Task.fault? ⟨path,.failed fault⟩) = none) : False := by
  cases kept <;> cases h

theorem fault_of_follow {schedule : List Nat} (h : (p.follow s schedule).fault = none) :
    p.fault = none := by
  induction schedule generalizing p with
  | nil => exact h
  | cons i rest ih => exact fault_of_step (ih h)

theorem inOrder_eq_follow (h : (p.follow s (eachInTurn p.tasks.length)).fault = none) :
    p.inOrder s = p.follow s (eachInTurn p.tasks.length) := by
  unfold Progress.inOrder eachInTurn at *
  generalize List.range p.tasks.length = tasks at *
  induction tasks generalizing p with
  | nil => rfl
  | cons i rest ih =>
    rw [List.flatMap_cons,follow_append] at h ⊢
    have hnone : p.fault.isSome ≠ true := by simp [fault_of_follow (fault_of_follow h)]
    rw [List.foldl_cons,if_neg hnone]
    exact ih h

theorem Sound.start {w : World} (h : w.indexes = []) :
    Sound s w.disk files w.report (.start files w) := by
  have hcalls : callsOf s w.disk (files.map Task.start) = fun _ => none := by
    funext i
    rw [callsOf,List.getElem?_map]
    cases files[i]? with
    | none => rfl
    | some p => exact callOf_reading p
  have hentries : entriesOf s w.disk (files.map Task.start) = [] := by
    unfold entriesOf
    rw [List.filterMap_map]
    exact List.filterMap_eq_nil_iff.2 fun _ _ => rfl
  have hnone : ∀ d, ¬ HasEmitted s w.disk files (fun _ => none) d := by
    rintro d ⟨_,_,_,-,-,hc⟩; cases hc
  refine ⟨?_,fun t ht => ?_,?_,[],rfl,?_⟩
  · show (files.map Task.start).map Task.path = files
    rw [List.map_map]
    exact List.map_id files
  · obtain ⟨p,-,rfl⟩ := List.mem_map.1 ht
    trivial
  · show Laid s w.disk files (callsOf s w.disk (files.map Task.start)) w.toWorld
    rw [hcalls]
    exact ⟨by simp,.refl _ _,by rw [h]; exact coherent_nil,filed_nil s.index _ _ h,
      fun d hd => absurd hd (hnone d),fun _ _ _ => rfl⟩
  · show List.Perm [] (entriesOf s w.disk (files.map Task.start))
    rw [hentries]

namespace Sound

/-- A task that is about to write a module has found nothing against it. -/
theorem named (h : Sound s base files r p) {t : Task} (hi : p.tasks[i]? = some t) (d : Descriptor)
    (hd : t.stage = .emitting d) : s.hook.nameFault? d = none := by
  have hfit := h.fits t (List.mem_of_getElem? hi)
  rw [Fits,hd] at hfit
  exact (emitting_of_opened hfit).2.2

theorem next (h : Sound s base files r p) (hp : Prepared s base files)
    (hf : (p.step s i).fault = none) : Sound s base files r (p.step s i) := by
  rcases step_cases s p i with ⟨hs,-⟩ | ⟨t,stage,w,hi,ha,hs⟩ <;> rw [hs] at hf ⊢
  · exact h
  · refine h.advances hp hi (advances_of_advance (h.named hi) ha) fun fault he => ?_
    rw [he] at hf
    exact fault_of_failed hf

/-- Along a schedule that meets no fault everything stays sound. -/
theorem follow (h : Sound s base files r p) (hp : Prepared s base files) {schedule : List Nat}
    (hf : (p.follow s schedule).fault = none) : Sound s base files r (p.follow s schedule) := by
  induction schedule generalizing p with
  | nil => exact h
  | cons i rest ih => exact ih (h.next hp (fault_of_follow hf)) hf

end Sound

end Follow

structure Feasible (s : Setup) (base : Disk) (files : List Path) : Prop where
  planned : ∀ p ∈ files, plan s base p ≠ .fail
  writable : ∀ p ∈ files, ∀ d, plan s base p = .make d → CanWrite base (s.hook.outputPath d) ∧
    Ready s.index base (s.hook.outputDirectory p) ∧
    ∀ disk, Overlaid (Generated s base files) base disk → ∃ text, s.hook.Rendering disk d text
  formats : Formats s.index

def Steady (calls : Calls) : Prop := ∀ i c, calls i = some c → c.stage.isFaulty = false

section Feasible

variable {s : Setup} {base : Disk} {files : List Path} {r : Report} {p : Progress} {i : Nat}

theorem Steady.put {calls : Calls} {c : Call} (h : Steady calls) (hc : c.stage.isFaulty = false) :
    Steady (calls.put i c) := by
  intro j c' hj
  by_cases he : j = i
  · subst he
    rw [Calls.put_self] at hj
    obtain rfl := Option.some.inj hj; exact hc
  · rw [Calls.put_of_ne _ _ he] at hj; exact h j c' hj

theorem Feasible.opened_eq (h : Feasible s base files) (hp : Prepared s base files) {disk : Disk}
    (ho : Overlaid (Generated s base files) base disk) {path : Path} (hm : path ∈ files) :
    opened s disk path = opened s base path := by
  cases hr : base.read path with
  | error fault =>
    obtain ⟨fault,hf⟩ := opened_of_unread (s := s) hr
    exact absurd (by rw [plan,hf]) (h.planned path hm)
  | ok bytes => exact opened_congr (hp.read_iff ho hm) ⟨bytes,hr⟩

theorem Feasible.opened_ne (h : Feasible s base files) {path : Path}
    (hm : path ∈ files) (fault : Fault) :
    opened s base path ≠ .failed fault := fun hf => h.planned path hm (by rw [plan,hf])

namespace Sound

theorem steady (h : Sound s base files r p) (hp : Prepared s base files)
    (hf : Feasible s base files)
    (hs : Steady (callsOf s base p.tasks)) {t : Task} (hi : p.tasks[i]? = some t) {stage : Stage}
    {w : World} (ha : Advances s t.path p.world t.stage stage w) :
    (∀ fault, stage ≠ .failed fault) ∧ Steady (callsOf s base (p.tasks.set i ⟨t.path,stage⟩)) := by
  obtain ⟨path,stage₀⟩ := t
  have hfile := h.file_of_task hi
  have hmem := List.mem_of_getElem? hfile
  have hfit := h.fits _ (List.mem_of_getElem? hi)
  dsimp only at ha hfile hmem ⊢
  cases ha with
  | read w hq =>
    have hopen := hf.opened_eq hp h.laid.overlaid hmem
    rw [hopen]
    refine ⟨hf.opened_ne hmem,?_⟩
    rw [callsOf_set_same hi]
    · exact hs
    · rcases opened_cases s base path with ⟨entry,ho⟩ | ⟨d,ho⟩ | ⟨fault,ho⟩
      · rw [callOf_eq_none,callOf_reading]
        intro d hd
        rw [plan,ho] at hd; cases hd
      · rw [ho]; simp
      · exact absurd ho (hf.opened_ne hmem fault)
  | emit d m w hr hindexes hreport =>
    have hplan : plan s base path = .make d := by
      rw [plan_of_emitting hfit,if_pos (Hook.Settings.shaped_of_emit hr)]
    refine ⟨by simp,?_⟩
    rw [callsOf_set_put hi (callOf_registering hplan m .waiting)]
    exact hs.put rfl
  | unsupported d w hv hq =>
    have hplan : plan s base path = .report (unsupported path d) := by
      rw [plan_of_emitting hfit,if_neg (by simp [hv])]
    refine ⟨by simp,?_⟩
    rw [callsOf_set_same hi (by rw [callOf_eq_none (by simp [hplan]),callOf_emitting])]
    exact hs
  | unemitted d fault w hv hr =>
    have hplan : plan s base path = .make d := by rw [plan_of_emitting hfit,if_pos hv]
    obtain ⟨hcan,-,hrender⟩ := hf.writable path hmem d hplan
    obtain ⟨text,ht⟩ := hrender _ h.laid.overlaid
    obtain ⟨m,disk,hok⟩ := hp.emit_total h.laid.overlaid hmem hplan hcan ht
    rw [hr] at hok; cases hok
  | register m stage₁ stage₂ inner hm =>
    obtain ⟨d,hplan,hpath⟩ := hfit
    have hcall :
        callsOf s base p.tasks i = some ⟨s.hook.outputDirectory path,s.hook.nameOf d,stage₁⟩ := by
      rw [callsOf,hi]; exact callOf_registering hplan m stage₁
    have hdir : m.path.parent = s.hook.outputDirectory path := by
      rw [hpath,hp.outputPath_eq hplan,parent_childOf]
    rw [hdir] at hm
    refine ⟨by simp,?_⟩
    rw [callsOf_set_put hi (callOf_registering hplan m stage₂)]
    exact hs.put
      (hp.ground.not_faulty h.laid.overlaid ⟨path,hmem,rfl⟩ (hf.writable path hmem d hplan).2.1
      hf.formats (hs i _ hcall) hm)
  | registered m =>
    obtain ⟨d,hplan,-⟩ := hfit
    refine ⟨by simp,?_⟩
    rw [callsOf_set_same hi (by rw [callOf_reporting hplan,callOf_registering hplan])]
    exact hs
  | unregistered m fault =>
    obtain ⟨d,hplan,-⟩ := hfit
    have hcall : callsOf s base p.tasks i =
        some ⟨s.hook.outputDirectory path,s.hook.nameOf d,.ended (some fault)⟩ := by
      rw [callsOf,hi]; exact callOf_registering hplan m _
    exact absurd (hs i _ hcall) (by simp [Index.Stage.isFaulty])
  | report entry =>
    refine ⟨by simp,?_⟩
    rw [callsOf_set_same hi]
    · exact hs
    · cases hplan : plan s base path with
      | make d => rw [callOf_finished hplan,callOf_reporting hplan]
      | _ => rw [callOf_eq_none (by simp [hplan]),callOf_eq_none (by simp [hplan])]

theorem steady_step (h : Sound s base files r p) (hp : Prepared s base files)
    (hf : Feasible s base files) (hs : Steady (callsOf s base p.tasks))
    (hn : p.fault = none) (i : Nat) :
    (p.step s i).fault = none ∧ Steady (callsOf s base (p.step s i).tasks) := by
  rcases step_cases s p i with ⟨he,-⟩ | ⟨t,stage,w,hi,ha,he⟩ <;> rw [he]
  · exact ⟨hn,hs⟩
  · obtain ⟨hstage,hs'⟩ := h.steady hp hf hs hi (advances_of_advance (h.named hi) ha)
    refine ⟨?_,hs'⟩
    rw [hn]
    cases stage with
    | failed fault => exact absurd rfl (hstage fault)
    | _ => rfl

theorem steady_follow (h : Sound s base files r p) (hp : Prepared s base files)
    (hf : Feasible s base files) (hs : Steady (callsOf s base p.tasks)) (hn : p.fault = none)
    (schedule : List Nat) :
    (p.follow s schedule).fault = none ∧ Steady (callsOf s base (p.follow s schedule).tasks) := by
  induction schedule generalizing p with
  | nil => exact ⟨hn,hs⟩
  | cons i rest ih =>
    obtain ⟨hn',hs'⟩ := h.steady_step hp hf hs hn i
    exact ih (h.next hp hn') hs' hn'

theorem call_cases (h : Sound s base files r p) (hp : Prepared s base files) {c : Call}
    (hc : callsOf s base p.tasks i = some c) : (∃ fault, c.stage = .ended fault) ∨
      ∃ t m, p.tasks[i]? = some t ∧ t.stage = .registering m c.stage ∧ m.path.parent = c.directory ∧
        m.baseName = c.baseName := by
  cases hi : p.tasks[i]? with
  | none => rw [callsOf,hi] at hc; cases hc
  | some t =>
    rw [callsOf,hi] at hc
    have hfit := h.fits t (List.mem_of_getElem? hi)
    obtain ⟨path,stage⟩ := t
    replace hc : callOf s base ⟨path,stage⟩ = some c := hc
    cases hplan : plan s base path with
    | make d =>
      cases stage with
      | registering m stage =>
        obtain ⟨d',hplan',hpath⟩ := hfit
        obtain rfl := Plan.make.inj (hplan.symm.trans hplan')
        rw [callOf_registering hplan] at hc
        obtain rfl := Option.some.inj hc
        refine .inr ⟨_,m,rfl,rfl,?_,?_⟩
        · rw [hpath,hp.outputPath_eq hplan,parent_childOf]
        · rw [Hook.Module.baseName,hpath,hp.stem_outputPath hplan]
      | reporting entry =>
        rw [callOf_reporting hplan] at hc
        obtain rfl := Option.some.inj hc
        exact .inl ⟨none,rfl⟩
      | finished =>
        rw [callOf_finished hplan] at hc
        obtain rfl := Option.some.inj hc
        exact .inl ⟨none,rfl⟩
      | reading => rw [callOf_reading] at hc; cases hc
      | emitting d' => rw [callOf_emitting] at hc; cases hc
      | failed fault => exact absurd hfit id
    | _ => rw [callOf_eq_none (by simp [hplan])] at hc; cases hc

theorem finished_of_settled (h : Sound s base files r p) (hp : Prepared s base files)
    (hsettled : p.isSettled s = true) : p.isFinished = true := by
  have hstuck : ∀ t ∈ p.tasks, t.stage.advance s t.path p.world = none := fun t ht => by
    simpa using List.all_eq_true.1 hsettled t ht
  have hcalls : ∀ i c, callsOf s base p.tasks i = some c →
      c.stage.advance s.index c.directory c.baseName p.world.toWorld = none := by
    intro i c hc
    rcases h.call_cases hp hc with ⟨fault,he⟩ | ⟨t,m,hi,hstage,hdir,hbase⟩
    · rw [he]; rfl
    · have hs := hstuck t (List.mem_of_getElem? hi)
      rw [hstage] at hs
      rcases advance_eq_none hs with he | ⟨fault,he⟩ | ⟨m',stage,he,-,hnone⟩
      · cases he
      · cases he
      · obtain ⟨rfl,rfl⟩ := Stage.registering.inj he
        rw [← hdir,← hbase]; exact hnone
  have hended := h.laid.coherent.ended_of_stuck hcalls
  refine List.all_eq_true.2 fun t ht => ?_
  obtain ⟨i,hi⟩ := List.getElem?_of_mem ht
  obtain ⟨path,stage⟩ := t
  have hfit := h.fits _ ht
  rcases advance_eq_none (hstuck _ ht) with he | ⟨fault,he⟩ | ⟨m,stage₁,he,hne,-⟩
  · obtain rfl : stage = .finished := he
    rfl
  · obtain rfl : stage = .failed fault := he
    exact absurd hfit id
  · obtain rfl : stage = .registering m stage₁ := he
    obtain ⟨d,hplan,-⟩ := hfit
    have hcall :
        callsOf s base p.tasks i = some ⟨s.hook.outputDirectory path,s.hook.nameOf d,stage₁⟩ := by
      rw [callsOf,hi]; exact callOf_registering hplan m stage₁
    obtain ⟨fault,hf⟩ := hended i _ hcall
    exact absurd hf (hne fault)

end Sound

end Feasible

end OperationHooks.Run
