import Mathlib.Logic.Relation
import OperationHooks.Proofs.Run.Preparation
import OperationHooks.Proofs.Run.Reading
import OperationHooks.Proofs.Run.Trial
/-!
All that a run does to the disk, however it ends. It removes and makes output directories, and it
saves modules and the indexes beside them; each of these may fail half way.
-/
set_option autoImplicit false

namespace OperationHooks.Run
open Effect Disk Index Relation

def IsModulePath (s : Setup) (files : List Path) (q : Path) : Prop :=
  ∃ d : Descriptor, d.sourcePath ∈ files ∧ d.IsNamed ∧ q = s.hook.outputPath d

def IsIndexPath (s : Setup) (files : List Path) (q : Path) : Prop :=
  ∃ m, IsModulePath s files m ∧ q = s.index.indexPath m.parent

/-- One thing that a run does to the disk, whether or not it succeeds. -/
inductive Touches (s : Setup) (files : List Path) (d : Disk) : Disk → Prop where
  | remove (source : Path) : source ∈ files →
      Touches s files d (run (removeTree (s.hook.outputDirectory source)) d).2
  | make (source : Path) : source ∈ files →
      Touches s files d (run (makeDirectories (s.hook.outputDirectory source)) d).2
  | module (q : Path) (text : String) : IsModulePath s files q →
    Touches s files d (run (save q text) d).2
  | index (q : Path) (text : String) : IsIndexPath s files q →
    Touches s files d (run (save q text) d).2

/-- What a stage of a task is about. -/
def Stage.Aims (s : Setup) (files : List Path) : Stage → Prop
  | .emitting d => d.sourcePath ∈ files ∧ d.IsNamed ∧ s.hook.nameFault? d = none
  | .registering m _ => IsModulePath s files m.path
  | _ => True

structure Aimed (s : Setup) (files : List Path) (p : Progress) : Prop where
  paths : ∀ t ∈ p.tasks, t.path ∈ files
  aims : ∀ t ∈ p.tasks, t.stage.Aims s files
  listed : ∀ directory ∈ p.world.indexes.directories, ∃ m, IsModulePath s files m ∧
  directory = m.parent

section Tasks

variable {s : Setup} {files : List Path} {path : Path} {w w' : World}
  {stage stage' : Stage} {p : Progress}
variable {i : Nat} {d : Descriptor} {disk : Disk}

theorem aims_opened (hm : path ∈ files) (disk : Disk) : (opened s disk path).Aims s files := by
  rcases opened_cases s disk path with ⟨entry,ho⟩ | ⟨d,ho⟩ | ⟨fault,ho⟩ <;> rw [ho]
  · trivial
  · obtain ⟨hfile,-,hname⟩ := emitting_of_opened ho
    exact ⟨Descriptor.sourcePath_of_ofFile hfile ▸ hm,Descriptor.isNamed_of_ofFile hfile,hname⟩
  · trivial

theorem touches_of_emit {r : Except Fault Hook.Module} {variant : Option Variant} {d' : Disk}
    (hd : d.sourcePath ∈ files) (hn : d.IsNamed) (h : run (s.hook.emit variant d) disk = (r,d')) :
    ReflGen (Touches s files) disk d' := by
  have hsave {draft : Hook.Draft} {text : String} {r : Except Fault Unit}
      (hdraft : s.hook.draft disk variant d = .ok draft)
      (hs : run (save draft.path text) disk = (r,d')) :
      ReflGen (Touches s files) disk d' := by
    have htouch : Touches s files disk (run (save draft.path text) disk).2 :=
      .module _ _ ⟨d,hd,hn,(Hook.Settings.path_of_draft hdraft).1⟩
    rw [hs] at htouch
    exact .single htouch
  cases Hook.Settings.emission_of_emit h with
  | undrafted fault hdraft => exact .refl
  | unformatted m cause hr hf => exact .refl
  | halved draft text cause hdraft ht hf => exact .refl
  | unsaved draft text fault d' hdraft hs => exact hsave hdraft hs
  | emptied draft text e d' hdraft ht hf hs => exact hsave hdraft hs
  | saved m text d' hr hf hs => exact hsave (Hook.Settings.render_eq_ok.1 hr) hs

theorem touches_of_moves {m : Path} {baseName : String} {v v' : Index.World} {st st' : Index.Stage}
    (hm : IsModulePath s files m) (h : Moves s.index m.parent baseName v st st' v') :
    ReflGen (Touches s files) v.disk v'.disk := by
  have hindex (text : String) :
      Touches s files v.disk (run (save (s.index.indexPath m.parent) text) v.disk).2 :=
    .index _ text ⟨m,hm,rfl⟩
  cases h with
  | store text disk hs =>
    have htouch := hindex text
    rw [hs] at htouch
    exact .single htouch
  | unstored text fault disk hs =>
    have htouch := hindex text
    rw [hs] at htouch
    exact .single htouch
  | _ => exact .refl

theorem touches_of_advances (hm : path ∈ files) (ha : stage.Aims s files)
    (h : Advances s path w stage stage' w') :
    stage'.Aims s files ∧ ReflGen (Touches s files) w.disk w'.disk := by
  cases h with
  | read w' hq =>
    rw [hq.disk]
    exact ⟨aims_opened hm _,.refl⟩
  | emit d m w' hr hindexes hreport =>
    exact ⟨⟨d,ha.1,ha.2.1,(Hook.Settings.emit_ok hr).1⟩,touches_of_emit ha.1 ha.2.1 hr⟩
  | unsupported d w' hv hq =>
    rw [hq.disk]
    exact ⟨trivial,.refl⟩
  | unemitted d fault w' hv hr => exact ⟨trivial,touches_of_emit ha.1 ha.2.1 hr⟩
  | register m st st' inner hmoves => exact ⟨ha,touches_of_moves ha hmoves⟩
  | _ => exact ⟨trivial,.refl⟩

theorem indexes_of_advance (hr : ∀ m st, stage ≠ .registering m st)
    (h : stage.advance s path w = some (stage',w')) : w'.indexes = w.indexes := by
  unfold Stage.advance at h
  cases stage with
  | reading =>
    dsimp only at h
    split at h <;> obtain ⟨-,rfl⟩ := Prod.mk.inj (Option.some.inj h)
    · exact (ofFault_eq path _ w.disk w).2.indexes
    · exact (ofDescriptor_eq s path _ w.disk w).2.indexes
  | emitting d =>
    dsimp only [World.perform,run_perform] at h
    split at h
    · rename_i fault w₁ hperform
      obtain ⟨-,rfl⟩ := Prod.mk.inj hperform
      rw [show w' = _ from (congrArg Prod.snd (Option.some.inj h)).symm]
      exact (ofFault_eq path fault w.disk _).2.indexes
    · rename_i m w₁ hperform
      obtain ⟨-,rfl⟩ := Prod.mk.inj hperform
      obtain ⟨-,rfl⟩ := Prod.mk.inj (Option.some.inj h)
      rfl
  | registering m st => exact absurd rfl (hr m st)
  | reporting entry => obtain ⟨-,rfl⟩ := Prod.mk.inj (Option.some.inj h); rfl
  | finished => cases h
  | failed fault => cases h

namespace Aimed

theorem start {listed : List Path} (hm : ∀ path ∈ listed, path ∈ files) (hw : w.indexes = []) :
    Aimed s files (.start listed w) := by
  refine ⟨fun t ht => ?_,fun t ht => ?_,fun directory hd => ?_⟩
  · obtain ⟨path,hp,rfl⟩ := List.mem_map.1 ht
    exact hm path hp
  · obtain ⟨path,-,rfl⟩ := List.mem_map.1 ht
    trivial
  · rw [show (Progress.start listed w).world.indexes = [] from hw,Table.mem_directories] at hd
    exact absurd rfl hd

theorem step (h : Aimed s files p) (i : Nat) :
    Aimed s files (p.step s i) ∧
    ReflGen (Touches s files) p.world.disk (p.step s i).world.disk := by
  rcases step_cases s p i with ⟨hs,-⟩ | ⟨t,stage,w,hi,ha,hs⟩ <;> rw [hs]
  · exact ⟨h,.refl⟩
  · have hmem := List.mem_of_getElem? hi
    have haims := h.aims t hmem
    have hadvances := advances_of_advance (fun d hd => by rw [hd] at haims; exact haims.2.2) ha
    obtain ⟨hstage,htouches⟩ := touches_of_advances (h.paths t hmem) haims hadvances
    refine ⟨⟨fun t' ht' => ?_,fun t' ht' => ?_,?_⟩,htouches⟩
    · rcases List.mem_or_eq_of_mem_set ht' with ht' | rfl
      · exact h.paths t' ht'
      · exact h.paths t hmem
    · rcases List.mem_or_eq_of_mem_set ht' with ht' | rfl
      · exact h.aims t' ht'
      · exact hstage
    · by_cases hr : ∀ m st, t.stage ≠ .registering m st
      · show ∀ directory ∈ w.indexes.directories, _
        rw [indexes_of_advance hr ha]
        exact h.listed
      · simp only [not_forall,not_not] at hr
        obtain ⟨m,st,hr⟩ := hr
        rw [hr] at hadvances haims
        cases hadvances with
        | register m st st' inner hmoves =>
          intro directory hd
          rcases directories_of_moves hmoves directory hd with rfl | hd
          · exact ⟨m.path,haims,rfl⟩
          · exact h.listed directory hd
        | _ => exact h.listed

theorem indexed (h : Aimed s files p) : ∀ directory ∈ p.world.indexes.directories,
    IsIndexPath s files (s.index.indexPath directory) := fun directory hd => by
  obtain ⟨m,hm,rfl⟩ := h.listed directory hd
  exact ⟨m,hm,rfl⟩

/-- Along every schedule, also one that goes on when a task has failed. -/
theorem follow (h : Aimed s files p) (schedule : List Nat) : Aimed s files (p.follow s schedule) ∧
    ReflTransGen (Touches s files) p.world.disk (p.follow s schedule).world.disk := by
  induction schedule generalizing p with
  | nil => exact ⟨h,.refl⟩
  | cons i rest ih =>
    obtain ⟨hstep,htouches⟩ := h.step i
    obtain ⟨hrest,hmore⟩ := ih hstep
    exact ⟨hrest,htouches.to_reflTransGen.trans hmore⟩

end Aimed

end Tasks

section Whole

variable {s : Setup} {files directories : List Path} {w w' : World} {directory : Path}

theorem touches_of_cleanDirectory {listed : List Path} {source : Path} (hm : source ∈ files)
    (hd : s.hook.outputDirectory source = directory) {r : Except Fault Unit}
    (h : run (cleanDirectory listed directory) w = (r,w')) :
    ReflTransGen (Touches s files) w.disk w'.disk := by
  subst hd
  have hremove : ∀ d, Touches s files d (run (removeTree (s.hook.outputDirectory source)) d).2 :=
    fun d => .remove source hm
  have hmake : ∀ d, Touches s files d (run (makeDirectories (s.hook.outputDirectory source)) d).2 :=
    fun d => .make source hm
  rw [run_cleanDirectory] at h
  split at h
  · obtain ⟨-,rfl⟩ := Prod.mk.inj h; exact .refl
  · split at h
    · obtain ⟨-,rfl⟩ := Prod.mk.inj h; exact .refl
    · obtain ⟨-,rfl⟩ := Prod.mk.inj h; exact .refl
    · split at h
      · obtain ⟨-,rfl⟩ := Prod.mk.inj h; exact .refl
      · rw [run_onDisk] at h
        obtain ⟨-,rfl⟩ := Prod.mk.inj h
        exact .single (hmake _)
      · rw [run_bind,run_onDisk] at h
        split at h
        · rename_i hremoved
          rw [run_onDisk] at h
          obtain ⟨-,rfl⟩ := Prod.mk.inj h
          obtain ⟨-,rfl⟩ := Prod.mk.inj hremoved
          exact .tail (.single (hremove _)) (hmake _)
        · rename_i hremoved
          obtain ⟨-,rfl⟩ := Prod.mk.inj hremoved
          obtain ⟨-,rfl⟩ := Prod.mk.inj h
          exact .single (hremove _)

theorem touches_of_clean {listed : List Path}
    (hd : ∀ directory ∈ directories, ∃ source ∈ files, s.hook.outputDirectory source = directory)
    {r : Except Fault Unit} (h : run (clean listed directories) w = (r,w')) :
    ReflTransGen (Touches s files) w.disk w'.disk := by
  induction directories generalizing w with
  | nil =>
    rw [clean_nil] at h
    obtain ⟨-,rfl⟩ := Prod.mk.inj h
    exact .refl
  | cons first rest ih =>
    obtain ⟨⟨source,hm,hfirst⟩,hrest⟩ := List.forall_mem_cons.1 hd
    rw [clean_cons,run_bind] at h
    split at h
    · rename_i hr
      exact (touches_of_cleanDirectory hm hfirst hr).trans (ih hrest h)
    · rename_i hr
      obtain ⟨-,rfl⟩ := Prod.mk.inj h
      exact touches_of_cleanDirectory hm hfirst hr

theorem touches_of_flush {v v' : Index.World}
    (hd : IsIndexPath s files (s.index.indexPath directory))
    {r : Except Fault (Option Path)} (h : run (flush s.index directory) v = (r,v')) :
    ReflGen (Touches s files) v.disk v'.disk := by
  rw [run_flush] at h
  split at h
  · split at h
    · obtain ⟨-,rfl⟩ := Prod.mk.inj h; exact .refl
    · rename_i text hf
      have htouch :
          Touches s files v.disk (run (save (s.index.indexPath directory) text) v.disk).2 :=
        .index _ text hd
      split at h
      all_goals
        rename_i hs
        rw [hs] at htouch
        obtain ⟨-,rfl⟩ := Prod.mk.inj h
        exact .single htouch
  · obtain ⟨-,rfl⟩ := Prod.mk.inj h; exact .refl

theorem touches_of_flushes {v v' : Index.World}
    (hd : ∀ directory ∈ directories, IsIndexPath s files (s.index.indexPath directory))
    {r : Except Fault (List (Option Path))}
    (h : run (directories.mapM (flush s.index)) v = (r,v')) :
    ReflTransGen (Touches s files) v.disk v'.disk := by
  induction directories generalizing v r with
  | nil =>
    rw [List.mapM_nil] at h
    obtain ⟨-,rfl⟩ := Prod.mk.inj h
    exact .refl
  | cons first rest ih =>
    obtain ⟨hfirst,hrest⟩ := List.forall_mem_cons.1 hd
    rw [List.mapM_cons,run_bind] at h
    split at h
    · rename_i hflush
      have htouches := (touches_of_flush hfirst hflush).to_reflTransGen
      rw [run_bind] at h
      split at h <;> rename_i hothers <;>
        (obtain ⟨-,rfl⟩ := Prod.mk.inj h; exact htouches.trans (ih hrest hothers))
    · rename_i hflush
      obtain ⟨-,rfl⟩ := Prod.mk.inj h
      exact (touches_of_flush hfirst hflush).to_reflTransGen

theorem touches_of_flushAll {v v' : Index.World}
    (hd : ∀ directory ∈ v.indexes.directories, IsIndexPath s files (s.index.indexPath directory))
    {r : Except Fault (List Path)} (h : run (flushAll s.index) v = (r,v')) :
    ReflTransGen (Touches s files) v.disk v'.disk := by
  rw [run_flushAll] at h
  split at h <;> rename_i hflush <;>
    (obtain ⟨-,rfl⟩ := Prod.mk.inj h; exact touches_of_flushes hd hflush)

end Whole

section Runs

variable {g : HookGenerator} {files : List Path} {schedule : Schedule} {w w' : World}

theorem run_ofWork {α : Type} (work : Work α) (w : World) : run (RunWork.ofWork work) w =
    ((run work w).1.mapError Halt.fault,(run work w).2) := rfl

theorem touches_of_prepare {listed : List Path} {r : Except Fault Unit}
    (hm : ∀ p ∈ listed, p ∈ files)
    (h : run (prepare g listed) w = (r,w')) :
      ReflTransGen (Touches g.setup files) w.disk w'.disk := by
  have hdirs : ∀ directory ∈ g.outputDirectories listed,
      ∃ source ∈ files, g.setup.hook.outputDirectory source = directory := fun directory hd => by
    obtain ⟨p,hp,he⟩ := HookGenerator.mem_outputDirectories.1 hd
    exact ⟨p,hm p hp,he⟩
  unfold prepare at h
  simp only [run_bind,Work.note,run_modify,run_enter] at h
  split at h
  · rename_i w₁ hclean
    have htouches := touches_of_clean hdirs hclean
    obtain ⟨-,rfl⟩ := Prod.mk.inj h
    exact htouches
  · rename_i hclean
    obtain ⟨-,rfl⟩ := Prod.mk.inj h
    exact (touches_of_clean hdirs hclean :)

theorem world_of_process (processing : Processing) (listed : List Path) (w : World) :
    (run (process processing listed) w).2 = (processing (.start listed w)).world := by
  unfold process
  simp only [run_bind,run_get,run_set]
  cases (processing (.start listed w)).fault with
  | some fault => rfl
  | none => cases (processing (.start listed w)).isFinished <;> rfl

theorem touches_of_finalize {r : Except Fault Report}
    (hd : ∀ directory ∈ w.indexes.directories,
      IsIndexPath g.setup files (g.setup.index.indexPath directory))
    (h : run (finalize g) w = (r,w')) : ReflTransGen (Touches g.setup files) w.disk w'.disk := by
  unfold finalize at h
  simp only [run_bind,run_enter,Work.onIndexes,run_get,run_modify,Work.report,
    Work.note,run_pure] at h
  cases hflush : run (flushAll g.setup.index) (w.entered .finalizing).toWorld with
  | mk result inner =>
    have htouches : ReflTransGen (Touches g.setup files) w.disk inner.disk :=
      touches_of_flushAll (v := (w.entered .finalizing).toWorld) hd hflush
    rw [show (flushAll g.setup.index).run (w.entered .finalizing).toWorld =
      (result,inner) from hflush] at h
    cases result <;> (obtain ⟨-,rfl⟩ := Prod.mk.inj h; exact htouches)

theorem touches_of_runOn {listed : List Path} {steps : List Nat} {r : Except Halt Report}
    (hm : ∀ p ∈ listed, p ∈ files) (hw : w.indexes = [])
    (h : run (runOn g listed (Progress.follow g.setup steps)) w = (r,w')) :
    ReflTransGen (Touches g.setup files) w.disk w'.disk := by
  unfold runOn at h
  rw [run_bind,run_ofWork] at h
  cases hprepare : run (prepare g listed) w with
  | mk result w₁ =>
    have hfirst := touches_of_prepare hm hprepare
    rw [hprepare] at h
    cases result with
    | error fault =>
      obtain ⟨-,rfl⟩ := Prod.mk.inj h
      exact hfirst
    | ok u =>
      have hempty : w₁.indexes = [] := by
        obtain ⟨w₂,hclean,rfl⟩ := prepare_ok.1 hprepare
        exact (kept_of_clean hclean).1.trans hw
      obtain ⟨haimed,hsecond⟩ := (Aimed.start (s := g.setup) hm hempty).follow steps
      have hworld := world_of_process (Progress.follow g.setup steps) listed w₁
      dsimp only [mapError_ok] at h
      rw [run_bind] at h
      cases hprocess : run (process (Progress.follow g.setup steps) listed) w₁ with
      | mk result w₂ =>
        rw [hprocess] at h hworld
        obtain rfl : w₂ = _ := hworld
        cases result with
        | error halt =>
          obtain ⟨-,rfl⟩ := Prod.mk.inj h
          exact hfirst.trans hsecond
        | ok u =>
          dsimp only at h
          rw [run_ofWork] at h
          obtain ⟨-,rfl⟩ := Prod.mk.inj h
          exact (hfirst.trans hsecond).trans (touches_of_finalize haimed.indexed rfl)

theorem disk_of_begin (g : HookGenerator) (w : World) : (run (begin g) w).2.disk = w.disk := by
  unfold begin
  simp only [run_bind,run_modify,run_enter,run_get,run_lift,Work.report]
  cases g.discover (World.entered { w with indexes := [], report := .empty } .discovering).disk <;>
    rfl

/-- Where no files are found, or they cannot be looked for, nothing is touched. -/
theorem disk_of_unfound {r : Except Halt Report}
    (hnone : ∀ files, g.discover w.disk = .ok files → files = [])
    (h : run (runBy g schedule) w = (r,w')) : w'.disk = w.disk := by
  cases hfound : g.discover w.disk with
  | ok files =>
    obtain rfl := hnone files hfound
    have hbegin : run (RunWork.ofWork (begin g)) w = (.ok [],w.begun 0) :=
      run_ofWork_ok.2 (begin_ok hfound)
    unfold runBy at h
    rw [run_bind,hbegin] at h
    obtain ⟨-,rfl⟩ := Prod.mk.inj h
    rfl
  | error fault =>
    obtain ⟨w₁,hbegin⟩ := begin_error (w := w) hfound
    have hdisk := disk_of_begin g w
    unfold runBy at h
    rw [run_bind,run_ofWork,hbegin] at h
    obtain ⟨-,rfl⟩ := Prod.mk.inj h
    rw [hbegin] at hdisk
    exact hdisk

/-- A run only touches the disk, whichever way it ends. -/
theorem touches_of_run {r : Except Halt Report} (hfound : g.discover w.disk = .ok files)
    (hm : ∀ p ∈ schedule.files, p ∈ files) (h : run (runBy g schedule) w = (r,w')) :
    ReflTransGen (Touches g.setup files) w.disk w'.disk := by
  by_cases hne : files = []
  · rw [disk_of_unfound (fun files' hf => (Except.ok.inj (hf.symm.trans hfound)).trans hne) h]
  · rw [run_runBy_of_discover hfound hne] at h
    exact (touches_of_runOn hm rfl h :)

end Runs

end OperationHooks.Run
