import OperationHooks.Proofs.Run.Generator
import OperationHooks.Proofs.Run.Outcome
import OperationHooks.Proofs.Run.Preparation

set_option autoImplicit false

namespace OperationHooks.Run
open Effect Disk Index

def reportOf (s : Setup) (r : Report) (entries : List Entry) (indexes : Table) : Report :=
  { { entries.foldl Entry.add r with
      phase := .finalizing, indexes := (written s.index indexes).map Path.text }.sorted with
        phase := .done }

structure Traced (g : HookGenerator) (files : List Path) (w w₁ w' : World) (r : Report) : Prop where
  cleaned : run (clean files (g.outputDirectories files)) (w.cleaning files.length) = (.ok (),w₁)
  prepared : Prepared g.setup w₁.disk files
  outcome : Outcome g.setup w₁.disk files w'.toWorld
  report : ∃ entries, entries.Perm (entriesFor g.setup w₁.disk files) ∧
    r = reportOf g.setup w₁.processing.report entries w'.indexes

section Whole

variable {o : HookOptions} {g : HookGenerator}
variable {files files' : List Path} {processing : Processing} {w w₁ w' : World} {r : Report}

theorem plain_of_discover (hroot : o.root.Plain) (hg : g.Follows o)
    (hnames : HasNames w.disk) (h : g.discover w.disk = .ok files) : ∀ p ∈ files, p.Plain := by
  intro p hp
  have hfound := (HookGenerator.discover_eq_ok hg).1 h
  obtain ⟨-,bytes,hr⟩ := mem_discover hfound hp
  exact plain_of_read hnames (dotless_of_mem_discover hroot.dotless hfound hp) hr

theorem plan_swept {s : Setup} {base d : Disk} {p : Path} {bytes : List UInt8}
    (hl : LinkFree d.tree)
    (hh : base.here = d.here) (hs : Swept d.tree base.tree) (hr : d.read p = .ok bytes)
    (hp : plan s base p ≠ .fail) : plan s base p = plan s d p := by
  cases hr' : base.read p with
  | error fault =>
    obtain ⟨fault,hf⟩ := opened_of_unread (s := s) hr'
    exact absurd (by rw [plan,hf]) hp
  | ok bytes' =>
    obtain rfl := read_swept hl hh hs hr hr'
    have hopened : opened s base p = opened s d p :=
      opened_congr (fun b => by rw [hr,hr']) ⟨_,hr⟩
    rw [plan,plan,hopened]

theorem traced_of_runOn (hroot : o.root.Plain) (hg : g.Follows o)
    (hslash : '/' ∉ o.namePrefix.toList) (hl : LinkFree w.disk.tree) (hplain : ∀ p ∈ files, p.Plain)
    (horder : InOrder w.disk (g.outputDirectories files)) (hindexes : w.indexes = [])
    (hs : Interleaves g.setup processing) (h : run (runOn g files processing) w = (.ok r,w')) :
    ∃ w₁, Traced g files w w₁ w' r := by
  obtain ⟨w₁,p,paths,inner,hclean,rfl,hfault,hfinished,hflush,rfl,rfl⟩ := runOn_ok.1 h
  have hp : Prepared g.setup w₁.disk files :=
    prepared (w := w.cleaning files.length) hroot hg hslash hl hplain horder hclean
  obtain ⟨hkept,-⟩ := kept_of_clean hclean
  obtain ⟨schedule,hschedule⟩ := hs (.start files w₁.processing)
  rw [hschedule] at hfault hfinished hflush ⊢
  have hstart : Sound g.setup w₁.disk files w₁.processing.report (.start files w₁.processing) :=
    Sound.start (w := w₁.processing) (hkept.trans hindexes)
  have hsound := hstart.follow hp hfault
  have houtcome : Outcome g.setup w₁.disk files inner := by
    refine hsound.outcome hp hfinished ?_ ?_ hflush <;> rfl
  obtain ⟨hplanned,hover,hentries,hnodup,hstands,hbare,hmade,helse⟩ := houtcome
  obtain ⟨entries,hreport,hperm⟩ := hsound.report_of_finished hfinished
  refine ⟨w₁,hclean,hp,⟨hplanned,hover,hentries,hnodup,hstands,hbare,hmade,helse⟩,entries,hperm,?_⟩
  rw [reportOf,← hreport]
  rfl

theorem runOn_of_feasible
    (hclean : run (clean files (g.outputDirectories files)) (w.cleaning files.length) = (.ok (),w₁))
    (hp : Prepared g.setup w₁.disk files) (hf : Feasible g.setup w₁.disk files)
    (hindexes : w.indexes = []) {steps : List Nat}
    (hsettled : ((Progress.start files w₁.processing).follow g.setup steps).isSettled g.setup =
      true) :
    ∃ r w', run (runOn g files (Progress.follow g.setup steps)) w = (.ok r,w') := by
  obtain ⟨hkept,-⟩ := kept_of_clean hclean
  have hstart : Sound g.setup w₁.disk files w₁.processing.report (.start files w₁.processing) :=
    Sound.start (w := w₁.processing) (hkept.trans hindexes)
  have hsteady : Steady (callsOf g.setup w₁.disk (Progress.start files w₁.processing).tasks) := by
    intro i c hc
    rw [callsOf,Progress.start,List.getElem?_map] at hc
    cases hi : files[i]? with
    | none => rw [hi] at hc; cases hc
    | some path => rw [hi] at hc; cases (callOf_reading path).symm.trans hc
  obtain ⟨hfault,-⟩ := hstart.steady_follow hp hf hsteady rfl steps
  have hsound := hstart.follow hp hfault
  have hfinished := hsound.finished_of_settled hp hsettled
  obtain ⟨paths,inner,hflush⟩ : ∃ paths inner, run (flushAll g.setup.index)
      (((Progress.start files w₁.processing).follow g.setup steps).world.entered
        .finalizing).toWorld = (.ok paths,inner) := by
    refine hsound.flush_of_feasible hp hf hfinished ?_ ?_ <;> rfl
  exact ⟨_,_,runOn_ok.2 ⟨w₁,_,paths,inner,hclean,rfl,hfault,hfinished,hflush,rfl,rfl⟩⟩

end Whole

end OperationHooks.Run
