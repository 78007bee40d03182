import OperationHooks.Proofs.Effect
import OperationHooks.Run.Hooks

set_option autoImplicit false

namespace OperationHooks.Run
open Effect

namespace World

def entered (w : World) (phase : Phase) : World :=
  { w.note .debug s!"State {w.phase.text} -> {phase.text}" with
    phase, report := { w.report with phase } }

def begun (w : World) (count : Nat) : World :=
  let w := { w with report := .empty, indexes := [] }.entered .discovering
  { w with report := { w.report with discovered := count } }

def cleaning (w : World) (count : Nat) : World :=
  (w.note .info s!"Found {count} definition files").entered .cleaning

def processing (w : World) : World := (w.entered .processing).note .info "Generating..."

/-- The tasks are over, and the indexes are up to date. -/
def closed (w : World) (s : Index.Settings) : World :=
  let indexes := (Index.written s w.indexes).map (·.text)
  let r := { w.report with indexes }.sorted
  ({ w with report := r }.note .info (closingMessage r)).entered .done

end World

section Stages

variable {g : HookGenerator} {files : List Path} {processing : Processing}
  {w w' : World} {r : Report}

theorem run_enter (phase : Phase) (w : World) :
    run (Work.enter phase) w = (.ok (),w.entered phase) := by
  unfold Work.enter
  simp only [run_bind,run_get,Work.note,run_modify]
  rfl

theorem begin_ok (h : g.discover w.disk = .ok files) :
    run (begin g) w = (.ok files,w.begun files.length) := by
  unfold begin
  simp only [run_bind,run_modify,run_enter,run_get,run_lift,Work.report]
  rw [show g.discover (World.entered { w with indexes := [], report := .empty } .discovering).disk =
    .ok files from h]
  rfl

theorem begin_error {fault : Fault} (h : g.discover w.disk = .error fault) :
    ∃ w', run (begin g) w = (.error fault,w') := by
  unfold begin
  simp only [run_bind,run_modify,run_enter,run_get,run_lift,Work.report]
  rw [show g.discover (World.entered { w with indexes := [], report := .empty } .discovering).disk =
    .error fault from h]
  exact ⟨_,rfl⟩

theorem prepare_ok {u : Unit} : run (prepare g files) w = (.ok u,w') ↔
    ∃ w₁, run (clean files (g.outputDirectories files)) (w.cleaning files.length) = (.ok (),w₁) ∧
      w' = w₁.processing := by
  unfold prepare
  simp only [run_bind,Work.note,run_modify,run_enter]
  rw [show (World.note w .info s!"Found {files.length} definition files").entered .cleaning =
    w.cleaning files.length from rfl]
  cases run (clean files (g.outputDirectories files)) (w.cleaning files.length) with
  | mk result w₁ =>
    cases result with
    | error fault => simp
    | ok _ => simp [World.processing,eq_comm]

theorem process_ok {u : Unit} : run (process processing files) w = (.ok u,w') ↔
    (processing (.start files w)).fault = none ∧ (processing (.start files w)).isFinished = true ∧
      w' = (processing (.start files w)).world := by
  unfold process
  simp only [run_bind,run_get,run_set]
  cases (processing (.start files w)).fault with
  | some fault => simp
  | none =>
    cases hf : (processing (.start files w)).isFinished with
    | false => simp
    | true => simp [eq_comm]

theorem finalize_ok : run (finalize g) w = (.ok r,w') ↔
    ∃ paths inner, run (Index.flushAll g.setup.index) (w.entered .finalizing).toWorld =
      (.ok paths,inner) ∧
      w' = World.closed { w.entered .finalizing with toWorld := inner } g.setup.index ∧
      r = w'.report := by
  unfold finalize
  simp only [run_bind,run_enter,Work.onIndexes,run_get,run_modify,Work.report,Work.note,run_pure]
  rw [show (Index.flushAll g.setup.index).run (w.entered .finalizing).toWorld =
    run (Index.flushAll g.setup.index) (w.entered .finalizing).toWorld from rfl]
  cases run (Index.flushAll g.setup.index) (w.entered .finalizing).toWorld with
  | mk result inner =>
    cases result with
    | error fault => simp [run_bind]
    | ok paths =>
      constructor
      · intro h
        obtain ⟨hr,rfl⟩ := Prod.mk.inj h
        exact ⟨paths,inner,rfl,rfl,(Except.ok.inj hr).symm⟩
      · rintro ⟨_,_,h,rfl,rfl⟩
        obtain ⟨-,rfl⟩ := Prod.mk.inj h
        rfl

def runOn (g : HookGenerator) (files : List Path) (processing : Processing) : RunWork Report := do
  RunWork.ofWork (prepare g files)
  process processing files
  RunWork.ofWork (finalize g)

theorem run_ofWork_ok {α : Type} {work : Work α} {a : α} :
    run (RunWork.ofWork work) w = (.ok a,w') ↔ run work w = (.ok a,w') := by
  rw [RunWork.ofWork,run_adapt]
  cases run work w with
  | mk result w₁ => cases result <;> simp [mapError_ok,mapError_error]

theorem run_eq_of_discover (h : g.discover w.disk = .ok files) (hne : files ≠ []) :
    run (g.run processing) w = run (runOn g files processing) (w.begun files.length) := by
  have hbegin : run (RunWork.ofWork (begin g)) w = (.ok files,w.begun files.length) :=
    run_ofWork_ok.2 (begin_ok h)
  have hempty : files.isEmpty = false := by simpa using hne
  unfold HookGenerator.run
  rw [run_bind,hbegin]
  simp only [hempty,Bool.false_eq_true,if_false]
  rfl

/-- A run gives a report just if its directories could be made anew, no task failed, all of them
came to their end, and the indexes could be brought up to date. -/
theorem runOn_ok : run (runOn g files processing) w = (.ok r,w') ↔
    ∃ w₁ p paths inner, run (clean files (g.outputDirectories files)) (w.cleaning files.length) =
        (.ok (),w₁) ∧ p = processing (.start files w₁.processing) ∧ p.fault = none ∧
      p.isFinished = true ∧
      run (Index.flushAll g.setup.index) (p.world.entered .finalizing).toWorld = (.ok paths,inner) ∧
      w' = World.closed { p.world.entered .finalizing with toWorld := inner } g.setup.index ∧
      r = w'.report := by
  unfold runOn
  rw [bind_eq_ok]
  simp only [bind_eq_ok,run_ofWork_ok,prepare_ok,process_ok,finalize_ok]
  constructor
  · rintro ⟨_,_,⟨w₁,hclean,rfl⟩,_,_,⟨hfault,hfinished,rfl⟩,paths,inner,hflush,hw,hr⟩
    exact ⟨w₁,_,paths,inner,hclean,rfl,hfault,hfinished,hflush,hw,hr⟩
  · rintro ⟨w₁,p,paths,inner,hclean,rfl,hfault,hfinished,hflush,hw,hr⟩
    exact ⟨(),_,⟨w₁,hclean,rfl⟩,(),_,⟨hfault,hfinished,rfl⟩,paths,inner,hflush,hw,hr⟩

end Stages

end OperationHooks.Run
