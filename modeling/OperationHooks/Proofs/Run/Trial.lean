import OperationHooks.Proofs.Disk.FileTree
import OperationHooks.Proofs.Run.Course
import OperationHooks.Proofs.Run.Generator
import OperationHooks.Proofs.Run.Schedule

set_option autoImplicit false

namespace OperationHooks.Run
open Effect Disk Index

/-- The order in which files are listed, and the order in which their tasks take steps. -/
structure Schedule where
  files : List Path
  steps : List Nat

def runBy (g : HookGenerator) (schedule : Schedule) : RunWork Report := do
  let files ← RunWork.ofWork (begin g)
  if files.isEmpty then RunWork.ofWork (noMatch (Message.noMatch g.options.pattern none))
  else runOn g schedule.files (Progress.follow g.setup schedule.steps)

def Schedule.IsComplete (schedule : Schedule) (g : HookGenerator) (w : World) : Prop :=
  ∀ w₁, run (prepare g schedule.files) (w.begun schedule.files.length) = (.ok (),w₁) →
    ((Progress.start schedule.files w₁).follow g.setup schedule.steps).isSettled g.setup = true

def standing (g : HookGenerator) (files directories : List Path) (steps : List Nat)
    (w : World) : Progress :=
  (Progress.start files
    (run (clean files directories) (w.cleaning files.length)).2.processing).follow g.setup steps

/-- All tasks have come to their end, and the indexes are up to date. -/
def comesThrough (g : HookGenerator) (files directories : List Path) (steps : List Nat)
    (w : World) : Bool :=
  (run (clean files directories) (w.cleaning files.length)).1.isOk &&
    (standing g files directories steps w).fault.isNone &&
    (standing g files directories steps w).isFinished &&
    (standing g files directories steps w).world.indexes.all fun x => !x.2.dirty

section Schedules

variable {g : HookGenerator} {files directories : List Path} {steps : List Nat}
variable {schedule schedule' : Schedule} {w : World}

theorem run_runBy (h : g.discover w.disk = .ok schedule.files) :
    run (runBy g schedule) w = run (g.run (Progress.follow g.setup schedule.steps)) w := by
  have hbegin :
      run (RunWork.ofWork (begin g)) w = (.ok schedule.files,w.begun schedule.files.length) :=
    run_ofWork_ok.2 (begin_ok h)
  unfold runBy HookGenerator.run runOn
  rw [run_bind,run_bind,hbegin]

theorem run_runBy_of_discover (h : g.discover w.disk = .ok files) (hne : files ≠ []) :
    run (runBy g schedule) w =
      run (runOn g schedule.files (Progress.follow g.setup schedule.steps))
        (w.begun files.length) := by
  have hbegin : run (RunWork.ofWork (begin g)) w = (.ok files,w.begun files.length) :=
    run_ofWork_ok.2 (begin_ok h)
  have hempty : files.isEmpty = false := by simpa using hne
  unfold runBy
  rw [run_bind,hbegin]
  simp only [hempty,Bool.false_eq_true,if_false]

theorem run_runBy_of_nil (h : g.discover w.disk = .ok []) :
    run (runBy g schedule') w = run (runBy g schedule) w := by
  have hbegin : run (RunWork.ofWork (begin g)) w = (.ok [],w.begun 0) :=
    run_ofWork_ok.2 (begin_ok h)
  unfold runBy
  rw [run_bind,run_bind,hbegin]
  rfl

theorem report_of_nil {r : Report} {w' : World} (hfound : g.discover w.disk = .ok [])
    (h : run (runBy g schedule) w = (.ok r,w')) : r = { Report.empty with
      phase := .done, message := some (Message.noMatch g.options.pattern none) } := by
  have hbegin : run (RunWork.ofWork (begin g)) w = (.ok [],w.begun 0) :=
    run_ofWork_ok.2 (begin_ok hfound)
  unfold runBy at h
  rw [run_bind,hbegin] at h
  exact (Except.ok.inj (Prod.mk.inj h).1).symm

theorem isComplete_of_standing (hdirs : g.outputDirectories files = directories)
    (h : (standing g files directories steps (w.begun files.length)).isSettled g.setup = true) :
    Schedule.IsComplete ⟨files,steps⟩ g w := by
  intro w₁ hprepare
  obtain ⟨w₂,hclean,rfl⟩ := prepare_ok.1 hprepare
  rw [hdirs] at hclean
  rwa [standing,hclean] at h

theorem run_of_comesThrough (hfound : g.discover w.disk = .ok files) (hne : files ≠ [])
    (hdirs : g.outputDirectories files = directories)
    (h : comesThrough g files directories steps (w.begun files.length) = true) :
    ∃ r w', run (runBy g ⟨files,steps⟩) w = (.ok r,w') ∧
      w'.disk = (standing g files directories steps (w.begun files.length)).world.disk ∧
      r.generated.Perm
        (standing g files directories steps (w.begun files.length)).world.report.generated := by
  simp only [comesThrough,Bool.and_eq_true,Option.isNone_iff_eq_none] at h
  obtain ⟨⟨⟨hclean,hfault⟩,hfinished⟩,hidle⟩ := h
  unfold standing at hfault hfinished hidle ⊢
  cases hr : run (clean files directories) ((w.begun files.length).cleaning files.length) with
  | mk result w₁ =>
    rw [hr] at hclean hfault hfinished hidle
    cases result with
    | error fault => cases hclean
    | ok u =>
      obtain ⟨inner,hflush,hdisk⟩ := run_flushAll_idle g.setup.index
        (w := (((Progress.start files w₁.processing).follow g.setup steps).world.entered
          .finalizing).toWorld)
        fun directory => Table.dirty_eq_false_of_all hidle directory
      have hrun := runOn_ok.2 ⟨w₁,_,[],inner,by rw [hdirs,hr],rfl,hfault,hfinished,hflush,rfl,rfl⟩
      exact ⟨_,_,(run_runBy_of_discover hfound hne).trans hrun,hdisk,List.mergeSort_perm _ _⟩

theorem run_of_failed {fault : Fault} (hfound : g.discover w.disk = .ok files) (hne : files ≠ [])
    (hdirs : g.outputDirectories files = directories)
    (hclean :
      (run (clean files directories) ((w.begun files.length).cleaning files.length)).1.isOk = true)
    (h : (standing g files directories steps (w.begun files.length)).fault = some fault) :
    ∃ w', run (runBy g ⟨files,steps⟩) w = (.error (.fault fault),w') := by
  cases hr : run (clean files directories) ((w.begun files.length).cleaning files.length) with
  | mk result w₁ =>
    rw [hr] at hclean
    cases result with
    | error cause => cases hclean
    | ok u =>
      rw [standing,hr] at h
      have hprepare : run (prepare g files) (w.begun files.length) = (.ok (),w₁.processing) :=
        prepare_ok.2 ⟨w₁,hdirs ▸ hr,rfl⟩
      refine ⟨(Progress.follow g.setup steps (.start files w₁.processing)).world,?_⟩
      rw [run_runBy_of_discover hfound hne]
      unfold runOn
      rw [run_bind,run_ofWork_ok.2 hprepare]
      dsimp only
      rw [run_bind]
      unfold process
      simp only [run_bind,run_get,run_set]
      rw [h]
      rfl

/-- A schedule that lets one task come to its end after the other can be left to the run. -/
theorem run_inOrder {r : Report} {w' : World} (hfound : g.discover w.disk = .ok files)
    (hne : files ≠ [])
    (h : run (runBy g ⟨files,eachInTurn files.length⟩) w = (.ok r,w')) :
      run g.runInOrder w = (.ok r,w') := by
  rw [run_runBy_of_discover hfound hne] at h
  obtain ⟨w₁,p,paths,inner,hclean,rfl,hfault,hfinished,hflush,hw,hr⟩ := runOn_ok.1 h
  have hsame : (Progress.start files w₁.processing).inOrder g.setup =
      (Progress.start files w₁.processing).follow g.setup (eachInTurn files.length) := by
    rw [inOrder_eq_follow] <;> rw [Progress.start,List.length_map]
    exact hfault
  rw [← hsame] at hfault hfinished hflush hw
  exact (run_eq_of_discover hfound hne).trans
    (runOn_ok.2 ⟨w₁,_,paths,inner,hclean,rfl,hfault,hfinished,hflush,hw,hr⟩)

end Schedules

/-- Options to try on a disk, with the files that are found and the directories that their hooks go
to. -/
structure Trial where
  disk : Disk
  options : HookOptions
  files : List Path
  directories : List Path

def arranges (paths listed : List Path) : Bool :=
  decide (∀ p ∈ listed, p.Plain) && listed.all paths.contains && paths.all listed.contains &&
    decide (paths.Pairwise (Path.lessOrEqual · ·)) && decide paths.Nodup

theorem sorted_of_arranges {paths listed : List Path} (h : arranges paths listed = true) :
    Path.sorted listed = paths := by
  simp only [arranges,Bool.and_eq_true,decide_eq_true_eq,List.all_eq_true,
    List.contains_iff_mem] at h
  obtain ⟨⟨⟨⟨hplain,hsub⟩,hsub'⟩,horder⟩,hnodup⟩ := h
  rw [← Path.sorted_of_pairwise horder hnodup]
  exact Path.sorted_congr hplain fun p => ⟨hsub p,hsub' p⟩

namespace Trial

def outputs (t : Trial) : List Path :=
  t.files.map fun source => t.options.outputPath.getD (source.parent / t.options.destination).fold

def begun (t : Trial) : World := (World.ofDisk t.disk).begun t.files.length

/-- The files as they are discovered, and some order of steps for their tasks. -/
def schedule (t : Trial) (steps : List Nat) : Schedule := ⟨t.files,steps⟩

def standing (t : Trial) (g : HookGenerator) (steps : List Nat) : Progress :=
  Run.standing g t.files t.directories steps t.begun

def comesThrough (t : Trial) (g : HookGenerator) (steps : List Nat) : Bool :=
  Run.comesThrough g t.files t.directories steps t.begun

structure IsSound (t : Trial) : Prop where
  found : discover t.disk t.options.root t.options.pattern [s!"index.{t.options.extension.text}"] =
    .ok t.files
  outputs : Path.sorted t.outputs = t.directories

def checks (t : Trial) : Bool :=
  passes (Glob.find t.disk t.options.root t.options.pattern) (fun found =>
    passes ((found.map fun p => t.options.root.join p.withoutDots).filterM t.disk.isFile)
      fun kept =>
      kept.all (fun p => !([s!"index.{t.options.extension.text}"].contains p.name)) &&
        arranges t.files kept) &&
    arranges t.directories t.outputs

variable {t : Trial} {steps : List Nat}

theorem isSound_of_checks (h : t.checks = true) : t.IsSound := by
  simp only [checks,Bool.and_eq_true] at h
  obtain ⟨hfound,houtputs⟩ := h
  obtain ⟨found,hfind,hkept⟩ := exists_of_passes hfound
  obtain ⟨kept,hkept,h⟩ := exists_of_passes hkept
  obtain ⟨hindex,harranged⟩ := (Bool.and_eq_true _ _).mp h
  exact ⟨discover_of_kept hfind hkept (by simpa using hindex) (sorted_of_arranges harranged),
    sorted_of_arranges houtputs⟩

/-- The generator for a trial, when all that is to be known of it can be checked. -/
theorem IsSound.exists_generator (h : t.IsSound) (check : HookGenerator → Bool)
    (hpass : passes (HookGenerator.ofOptions [] t.disk t.options) check = true) :
    ∃ g, HookGenerator.ofOptions [] t.disk t.options = .ok g ∧ g.discover t.disk = .ok t.files ∧
      g.outputDirectories t.files = t.directories ∧ check g = true := by
  obtain ⟨g,hg,hcheck⟩ := exists_of_passes hpass
  have hfollows := HookGenerator.follows_of_ofOptions hg
  exact ⟨g,hg,(HookGenerator.discover_eq_ok hfollows).2 h.found,
    (HookGenerator.outputDirectories_eq hfollows t.files).trans h.outputs,hcheck⟩

structure Runs (t : Trial) (g : HookGenerator) (steps : List Nat) (r : Report)
    (w' : World) : Prop where
  generator : HookGenerator.ofOptions [] t.disk t.options = .ok g
  found : g.discover t.disk = .ok t.files
  directories : g.outputDirectories t.files = t.directories
  reported : run (runBy g ⟨t.files,steps⟩) (.ofDisk t.disk) = (.ok r,w')
  disk : w'.disk = (t.standing g steps).world.disk
  generated : r.generated.Perm (t.standing g steps).world.report.generated

theorem IsSound.exists_runs (h : t.IsSound) (hne : t.files ≠ []) (steps : List Nat)
    (check : HookGenerator → Bool)
    (hpass : passes (HookGenerator.ofOptions [] t.disk t.options)
      (fun g => t.comesThrough g steps && check g) = true) :
    ∃ g r w', t.Runs g steps r w' ∧ check g = true := by
  obtain ⟨g,hg,hfound,hdirs,hall⟩ := h.exists_generator _ hpass
  obtain ⟨hthrough,hcheck⟩ := (Bool.and_eq_true _ _).mp hall
  obtain ⟨r,w',hrun,hdisk,hgenerated⟩ :=
    run_of_comesThrough (w := .ofDisk t.disk) hfound hne hdirs hthrough
  exact ⟨g,r,w',⟨hg,hfound,hdirs,hrun,hdisk,hgenerated⟩,hcheck⟩

theorem Runs.run_follow {g : HookGenerator} {r : Report} {w' : World} (h : t.Runs g steps r w') :
    run (g.run (Progress.follow g.setup steps)) (.ofDisk t.disk) = (.ok r,w') := by
  have hsame : run (runBy g (t.schedule steps)) (.ofDisk t.disk) =
      run (g.run (Progress.follow g.setup steps)) (.ofDisk t.disk) := run_runBy h.found
  exact hsame.symm.trans h.reported

end Trial

def oneByOne (first second : Nat) : List Nat :=
  List.replicate maxSteps first ++ List.replicate maxSteps second

def byTurns : List Nat := (List.replicate maxSteps [0,1]).flatten

def queryBesideFragment : Disk where
  here := []
  tree := ⟨[(["src"],.directory),(["src","a"],.directory),
    (["src","a","A.graphql"],.file (Text.encode "query A { a }") false),
    (["src","a","F.graphql"],.file (Text.encode "fragment F on T { f }") false)]⟩

def queryAndFragment : List Path :=
  [⟨.here,["src","a","A.graphql"]⟩,⟨.here,["src","a","F.graphql"]⟩]

theorem isFileTree_queryBesideFragment : IsFileTree queryBesideFragment :=
  isFileTree_of_formsTree (by decide +kernel)

def besideFragment : Trial where
  disk := queryBesideFragment
  options := .standard
  files := queryAndFragment
  directories := [⟨.here,["src","hooks"]⟩]

theorem isSound_besideFragment : besideFragment.IsSound :=
  Trial.isSound_of_checks (by decide +kernel)

structure StandardRun (g : HookGenerator) (r : Report) (w' : World) : Prop where
  generator : HookGenerator.ofOptions [] queryBesideFragment .standard = .ok g
  builtIn : g.setup.hook.templates = none
  found : g.discover queryBesideFragment = .ok queryAndFragment
  directories : g.outputDirectories queryAndFragment = [⟨.here,["src","hooks"]⟩]
  reported : run (runBy g ⟨queryAndFragment,byTurns⟩) (.ofDisk queryBesideFragment) = (.ok r,w')
  generated : r.generated ≠ []

theorem exists_standardRun : ∃ g r w', StandardRun g r w' := by
  obtain ⟨g,r,w',hrun,hcheck⟩ := isSound_besideFragment.exists_runs (List.cons_ne_nil _ _) byTurns
    (fun g => g.setup.hook.templates.isNone &&
      !(besideFragment.standing g byTurns).world.report.generated.isEmpty) (by decide +kernel)
  simp only [Bool.and_eq_true,Option.isNone_iff_eq_none,Bool.not_eq_true',
    List.isEmpty_eq_false_iff] at hcheck
  obtain ⟨htemplates,hmade⟩ := hcheck
  refine ⟨g,r,w',hrun.generator,htemplates,hrun.found,hrun.directories,hrun.reported,
    fun he => hmade ?_⟩
  have hgenerated := hrun.generated
  rw [he] at hgenerated
  exact hgenerated.symm.eq_nil

/-- A pattern that leaves the current directory and comes back to it, so that the directory for
hooks has two names. -/
def leftDirectory : Trial where
  disk := {
    here := ["c",".work"]
    tree := ⟨[(["c"],.directory),(["c",".work"],.directory),(["c",".work","v"],.directory),
      (["c",".work","v","B.graphql"],.file (Text.encode "query B { b }") false),
      (["c",".work",".w"],.directory),
      (["c",".work",".w","A.graphql"],.file (Text.encode "query A { a }") false),
      (["c",".work",".t"],.directory),
      (["c",".work",".t","query.j2"],.file (Text.encode "// X") false)]⟩ }
  options :=
    { HookOptions.standard with pattern := "**/../.w*/**/*.graphql", templates := some ".t" }
  files := [⟨.here,["..",".work","v","B.graphql"]⟩,⟨.here,["v","..",".w","A.graphql"]⟩]
  directories := [⟨.here,["..",".work","hooks"]⟩,⟨.here,["hooks"]⟩]

theorem isSound_leftDirectory : leftDirectory.IsSound := Trial.isSound_of_checks (by decide +kernel)

/-- A query that a pattern finds by way of the parent directory, and a fragment that it finds from
within, in a directory with a name that comes before two dots. Hooks for the query go right above
those for the fragment. -/
def twoWays (name namePrefix : String) (templates : Option String) : Trial where
  disk := {
    here := ["work"]
    tree := ⟨[(["work"],.directory),(["work","s"],.directory),(["work","s","t"],.directory),
      (["work","s","t","A.graphql"],.file (Text.encode "query A { a }") false),
      (["work",name],.directory),(["work",name,"u"],.directory),(["work",name,"u","v"],.directory),
      (["work",name,"u","v","F.graphql"],.file (Text.encode "fragment F on T { f }") false),
      (["work",".t"],.directory),(["work",".t","query.j2"],.file (Text.encode "// X") false)]⟩ }
  options := { HookOptions.standard with
    pattern := "**/../[w+]*/*/*/*.graphql", destination :=
      s!"../../{name}/{name}", namePrefix, templates }
  files := [⟨.here,[name,"..",name,"u","v","F.graphql"]⟩,⟨.here,["..","work","s","t","A.graphql"]⟩,
    ⟨.here,["s","..",name,"u","v","F.graphql"]⟩]
  directories := [⟨.here,[name,name,name]⟩,⟨.here,["..","work",name,name]⟩]

end OperationHooks.Run
