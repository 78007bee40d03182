import OperationHooks.Proofs.Run.Alike
import OperationHooks.Proofs.Run.Layout
import OperationHooks.Proofs.Run.Remaking
/-!
A run after a run. Making the output directories anew undoes what the first run has written, so the
second one starts its tasks on the same tree, and does the same from there on.
-/
set_option autoImplicit false

namespace OperationHooks
open Effect Disk

namespace Run

section Again

variable {env : Format.Environment} {o : HookOptions} {g : HookGenerator} {files : List Path}
variable {processing : Processing} {w w₁ v v₁ w' : World} {r : Report}

def Processing.IsSteady (files : List Path) (processing : Processing) :
  Prop := ∀ w v : World, w.Alike v →
  (processing (.start files w)).Alike (processing (.start files v))

theorem isSteady_inOrder {s : Setup} (hhook : s.hook.IsSteady)
    (hindex : Format.IsSteady s.index.formatting) :
    Processing.IsSteady files (Progress.inOrder s) := fun _ _ h =>
  Progress.Alike.inOrder hhook hindex ⟨rfl,rfl,h⟩

theorem runOn_alike (hindex : Format.IsSteady g.setup.index.formatting)
    (hs : processing.IsSteady files)
    (hclean : run (clean files (g.outputDirectories files)) (w.cleaning files.length) = (.ok (),w₁))
    (hclean' : run (clean files (g.outputDirectories files)) (v.cleaning files.length) =
      (.ok (),v₁))
    (halike : w₁.Alike v₁) (h : run (runOn g files processing) w = (.ok r,w')) :
    ∃ v', run (runOn g files processing) v = (.ok r,v') ∧ w'.Alike v' := by
  obtain ⟨_,p,paths,inner,hcleaned,rfl,hfault,hfinished,hflush,rfl,rfl⟩ := runOn_ok.1 h
  obtain ⟨-,rfl⟩ := Prod.mk.inj (hclean.symm.trans hcleaned)
  have htasks := hs _ _ halike.processing
  have hflushed := Index.respects_flushAll hindex _ _ (htasks.world.entered .finalizing).index
  rw [hflush] at hflushed
  obtain ⟨hresult,hinner⟩ := hflushed
  let q := processing (.start files v₁.processing)
  let inner' := (run (Index.flushAll g.setup.index) (q.world.entered .finalizing).toWorld).2
  have hwritten : run (Index.flushAll g.setup.index) (q.world.entered .finalizing).toWorld =
      (.ok paths,inner') := Prod.ext hresult rfl
  have hclosed :
      (World.closed { (processing (.start files w₁.processing)).world.entered .finalizing with
      toWorld := inner } g.setup.index).Alike
      (World.closed { q.world.entered .finalizing with toWorld := inner' } g.setup.index) := by
    refine ⟨⟨hinner.disk,hinner.indexes⟩,?_⟩
    simp only [World.closed,World.entered,World.note,Index.World.note]
    rw [hinner.indexes,htasks.world.report]
  refine ⟨_,runOn_ok.2 ⟨v₁,q,paths,inner',hclean',rfl,htasks.fault.trans hfault,?_,hwritten,rfl,
    hclosed.report.symm⟩,hclosed⟩
  rw [Progress.isFinished,htasks.tasks]
  exact hfinished

theorem Outcome.outside {s : Setup} {base : Disk} {inner : Index.World}
    (h : Outcome s base files inner)
    (hp : Prepared s base files) {q : Place}
    (hq : ∀ directory, Uses s files directory → Tree.isBelow (placeOf base directory) q = false) :
    inner.disk.tree.get? q = base.tree.get? q := by
  refine h.elsewhere q (fun directory hu he => ?_) fun p hm m hplan he => ?_
  · have hbelow := hq directory hu
    rw [he,Index.indexPlace,Tree.isBelow_concat] at hbelow
    cases hbelow
  · have hbelow := hq _ ⟨p,hm,rfl⟩
    rw [he,hp.modulePlace_eq hplan,Tree.isBelow_concat] at hbelow
    cases hbelow

theorem run_of_nil (h : g.discover w.disk = .ok []) (processing : Processing) :
    ∃ w', run (g.run processing) w = (.ok { Report.empty with
      phase := .done, message := some (Message.noMatch g.options.pattern none) },w') ∧
      w'.disk = w.disk := by
  have hbegin : run (RunWork.ofWork (begin g)) w = (.ok [],w.begun 0) :=
    run_ofWork_ok.2 (begin_ok h)
  unfold HookGenerator.run
  rw [run_bind,hbegin]
  exact ⟨_,rfl,rfl⟩

theorem clean_of_traced (hc : Cleanable w.disk (g.outputDirectories files)) (hne : files ≠ [])
    (hfounded : ∀ directory ∈ g.outputDirectories files, Founded w.disk directory)
    (ht : Traced g files w w₁ w' r) (hv : v.disk = w'.disk) :
    ∃ v₁, run (clean files (g.outputDirectories files)) (v.cleaning files.length) = (.ok (),v₁) ∧
      Alike w₁.disk v₁.disk := by
  obtain ⟨hclean,hp,houtcome,-⟩ := ht
  obtain ⟨p,hm⟩ := List.exists_mem_of_ne_nil _ hne
  have hdirs : g.outputDirectories files ≠ [] :=
    List.ne_nil_of_mem (HookGenerator.mem_outputDirectories.2 ⟨p,hm,rfl⟩)
  have hdisk : (v.cleaning files.length).disk = w'.disk := hv
  refine clean_again (w := w.cleaning files.length) hc hdirs hfounded hclean ?_ ?_
    (fun directory hd => ?_)
    fun q hq => ?_
  · rw [hdisk]; exact houtcome.overlaid.here
  · rw [hdisk]; exact houtcome.overlaid.linkFree hp.ground.linkFree
  · rw [hdisk]
    exact (hasDirectory_overlaid hp.ground.linkFree houtcome.overlaid).2
      (hp.ground.there directory (uses_iff.2 hd))
  · rw [hdisk]
    exact houtcome.outside hp fun directory hu => hq directory (uses_iff.1 hu)

end Again

end Run

theorem HookGenerator.ofOptions_congr {env : Format.Environment} {o : HookOptions} {d d' : Disk}
    (htemplates : o.templates = none)
      (hstyle : Config.styleOptions d' o.configPath o.extension.text =
      Config.styleOptions d o.configPath o.extension.text) :
        ofOptions env d' o = ofOptions env d o := by
  unfold ofOptions
  rw [hstyle,htemplates]
  rfl

theorem HookGenerator.isSteady_of_basic {env : Format.Environment} {o : HookOptions}
    {g : HookGenerator} {d : Disk}
    (hg : ofOptions env d o = .ok g) (hbasic : o.formatters.toList = ["basic"]) :
    g.setup.hook.IsSteady ∧ Format.IsSteady g.setup.index.formatting := by
  obtain ⟨-,style,formatter,-,hformatter,hhook,hbroken,hindex⟩ := ofOptions_spec hg
  rw [hbasic] at hformatter
  obtain rfl : [Format.Tool.basic] = formatter := Except.ok.inj hformatter
  refine ⟨⟨?_,?_⟩,?_⟩
  · rw [hhook]; exact Format.isSteady_basic env style
  · rw [hbroken]; exact Format.isSteady_basicBroken env style
  · rw [hindex]; exact Format.isSteady_basic env style

namespace Run

section Runs

variable {env : Format.Environment} {o : HookOptions} {g : HookGenerator} {files : List Path}
variable {w w' : World} {r : Report}

/-- A second run with the same options does the same once more. -/
theorem run_again (hg : HookGenerator.ofOptions env w.disk o = .ok g)
    (hbasic : o.formatters.toList = ["basic"])
    (htemplates : o.templates = none) (hroot : o.root.Plain) (hslash : '/' ∉ o.namePrefix.toList)
    (hup : ∀ root, o.outputRoot = some root → ".." ∉ (Path.ofString root).parts)
    (htree : IsFileTree w.disk)
    (hclosed : Closed w.disk.tree) (horder : InOrder w.disk (g.outputDirectories files))
    (hfounded : Path.anchorOf o.pattern.toList ≠ .here → Founded w.disk o.root)
    (hfound : g.discover w.disk = .ok files) (h : run g.runInOrder w = (.ok r,w'))
    (hfound' : g.discover w'.disk = .ok files)
    (hstyle : Config.styleOptions w'.disk o.configPath o.extension.text =
      Config.styleOptions w.disk o.configPath o.extension.text) :
    HookGenerator.ofOptions env w'.disk o = .ok g ∧
      ∃ w'', run g.runInOrder (.ofDisk w'.disk) = (.ok r,w'') ∧ Alike w'.disk w''.disk := by
  refine ⟨(HookGenerator.ofOptions_congr htemplates hstyle).trans hg,?_⟩
  have hfollows := HookGenerator.follows_of_ofOptions hg
  obtain ⟨hhook,hindex⟩ := HookGenerator.isSteady_of_basic hg hbasic
  by_cases hne : files = []
  · subst hne
    obtain ⟨w₁,hfirst,-⟩ := run_of_nil hfound (Progress.inOrder g.setup)
    obtain ⟨w'',hsecond,hdisk⟩ :=
      run_of_nil (w := .ofDisk w'.disk) hfound' (Progress.inOrder g.setup)
    obtain ⟨hr,-⟩ := Prod.mk.inj (h.symm.trans hfirst)
    obtain rfl := Except.ok.inj hr
    exact ⟨w'',hsecond,by rw [hdisk]; exact .refl _⟩
  have hplain := plain_of_discover hroot hfollows htree.names hfound
  have hdirs : ∀ directory ∈ g.outputDirectories files, Founded w.disk directory :=
    founded_of_relative hfollows htree.linkFree hup (fun directory hpath hrelative =>
      founded_outputPath (hfounded hrelative) hup hpath) hfound hne
  have hc := cleanable_of_inOrder hroot hfollows htree hclosed hplain hdirs horder
  let v := (World.ofDisk w'.disk).begun files.length
  have hrun : run (runOn g files (Progress.inOrder g.setup)) (w.begun files.length) = (.ok r,w') :=
    (run_eq_of_discover hfound hne).symm.trans h
  obtain ⟨w₁,ht⟩ := traced_of_runOn (w := w.begun files.length) hroot hfollows hslash
    htree.linkFree hplain
    horder rfl (interleaves_inOrder g.setup) hrun
  obtain ⟨v₁,hclean,hdisk⟩ :=
    clean_of_traced (w := w.begun files.length) (v := v) hc hne hdirs ht rfl
  obtain ⟨hindexes,hreport⟩ := kept_of_clean ht.cleaned
  obtain ⟨hindexes',hreport'⟩ := kept_of_clean hclean
  have halike : w₁.Alike v₁ := ⟨⟨hdisk,hindexes'.trans hindexes.symm⟩,hreport'.trans hreport.symm⟩
  obtain ⟨w'',hagain,hend⟩ :=
    runOn_alike hindex (isSteady_inOrder hhook hindex) ht.cleaned hclean halike hrun
  exact ⟨w'',(run_eq_of_discover (w := .ofDisk w'.disk) hfound' hne).trans hagain,hend.index.disk⟩

end Runs

def cleans (files directories : List Path) (d : Disk) : Bool :=
  (run (clean files directories)
    (((World.ofDisk d).begun files.length).cleaning files.length)).1.isOk

theorem cleans_of_run {g : HookGenerator} {files : List Path} {d : Disk} {r : Report} {w' : World}
    (hfound : g.discover d = .ok files) (hne : files ≠ [])
    (h : run g.runInOrder (.ofDisk d) = (.ok r,w')) :
    cleans files (g.outputDirectories files) d = true := by
  have hrun : run (runOn g files (Progress.inOrder g.setup))
      ((World.ofDisk d).begun files.length) = (.ok r,w') :=
    (run_eq_of_discover (w := .ofDisk d) hfound hne).symm.trans h
  obtain ⟨w₁,_,_,_,hclean,-⟩ := runOn_ok.1 hrun
  rw [cleans,hclean]
  rfl

/-- The pattern of a trial yields the same on another disk, and the formatter is configured as
before. -/
def Trial.findsAgain (t : Trial) (found : List Path) (d : Disk) : Bool :=
  decide (Glob.find d t.options.root t.options.pattern = .ok found) &&
    decide ((found.map fun p => t.options.root.join p.withoutDots).filterM d.isFile = .ok found) &&
    passes (Config.styleOptions d t.options.configPath t.options.extension.text) fun style' =>
      passes (Config.styleOptions t.disk t.options.configPath t.options.extension.text) fun style =>
        decide (style' = style)

theorem Trial.of_findsAgain {t : Trial} {found : List Path} {d : Disk}
    (hfirst : t.findsAgain found t.disk = true) (h : t.findsAgain found d = true) :
    discover d t.options.root t.options.pattern [s!"index.{t.options.extension.text}"] =
        discover t.disk t.options.root t.options.pattern [s!"index.{t.options.extension.text}"] ∧
      Config.styleOptions d t.options.configPath t.options.extension.text =
        Config.styleOptions t.disk t.options.configPath t.options.extension.text := by
  simp only [findsAgain,Bool.and_eq_true,decide_eq_true_eq] at h hfirst
  obtain ⟨⟨hfind,hkept⟩,hpass⟩ := h
  obtain ⟨⟨hfind₀,hkept₀⟩,-⟩ := hfirst
  obtain ⟨style',hstyle',hpass⟩ := exists_of_passes hpass
  obtain ⟨style,hstyle,heq⟩ := exists_of_passes hpass
  refine ⟨?_,by rw [hstyle',hstyle,of_decide_eq_true heq]⟩
  simp only [discover,hfind,hfind₀,bind,Except.bind]
  rw [hkept,hkept₀]

theorem queryBesideFragment_again : ∃ g files r w' w'',
    HookGenerator.ofOptions [] queryBesideFragment .standard = .ok g ∧
    g.discover queryBesideFragment = .ok files ∧ files ≠ [] ∧
    run g.runInOrder (.ofDisk queryBesideFragment) = (.ok r,w') ∧
    HookGenerator.ofOptions [] w'.disk .standard = .ok g ∧
    run g.runInOrder (.ofDisk w'.disk) = (.ok r,w'') ∧ Alike w'.disk w''.disk := by
  have hne : queryAndFragment ≠ [] := List.cons_ne_nil _ _
  obtain ⟨g,r,w',hrun,hagain⟩ := isSound_besideFragment.exists_runs hne (eachInTurn 2)
    (fun g => besideFragment.findsAgain queryAndFragment
      (besideFragment.standing g (eachInTurn 2)).world.disk) (by decide +kernel)
  rw [← hrun.disk] at hagain
  obtain ⟨hsame,hstyle⟩ := Trial.of_findsAgain (by decide +kernel) hagain
  have hfirst : run g.runInOrder (.ofDisk queryBesideFragment) = (.ok r,w') :=
    run_inOrder hrun.found hne hrun.reported
  have horder : InOrder queryBesideFragment (g.outputDirectories queryAndFragment) := by
    rw [show g.outputDirectories queryAndFragment = _ from hrun.directories]
    exact List.pairwise_singleton _ _
  have hg := hrun.generator
  obtain ⟨hg',w'',hsecond,halike⟩ := run_again (w := .ofDisk queryBesideFragment) hg rfl rfl
    (Path.plain_ofString ".") (by decide +kernel) (fun root hr => by cases hr)
      isFileTree_queryBesideFragment
    (closed_of_entries (by decide +kernel)) horder
      (fun h => absurd (by decide +kernel) h) hrun.found hfirst
    ((HookGenerator.discover_eq_ok (HookGenerator.follows_of_ofOptions hg)).2
      (hsame.trans isSound_besideFragment.found)) hstyle
  exact ⟨g,queryAndFragment,r,w',w'',hg,hrun.found,hne,hfirst,hg',hsecond,halike⟩

def replacedDirectory : Trial := twoWays "+AQuery.ts" "+" none

def replacedFiles : List Path := [⟨.here,["..","work","s","t","A.graphql"]⟩,
  ⟨.here,["s","..","+AQuery.ts","u","v","F.graphql"]⟩,
  ⟨.here,["+AQuery.ts","..","+AQuery.ts","u","v","F.graphql"]⟩]

theorem isSound_replacedDirectory : replacedDirectory.IsSound :=
  Trial.isSound_of_checks (by decide +kernel)

/-- An output directory that was removed with the one above it, and has a module in its place,
cannot be made anew. -/
theorem second_run_fails : ¬ ∀ (o : HookOptions) (d : Disk) (g : HookGenerator) (files : List Path)
    (r : Report) (w' : World), HookGenerator.ofOptions [] d o = .ok g →
    o.formatters.toList = ["basic"] →
    o.templates = none → o.root.Plain → '/' ∉ o.namePrefix.toList →
    (∀ root, o.outputRoot = some root → ".." ∉ (Path.ofString root).parts) →
    IsFileTree d → Closed d.tree →
    g.discover d = .ok files → run g.runInOrder (.ofDisk d) = (.ok r,w') →
    g.discover w'.disk = .ok files →
    Config.styleOptions w'.disk o.configPath o.extension.text =
      Config.styleOptions d o.configPath o.extension.text →
    ∃ w'', run g.runInOrder (.ofDisk w'.disk) = (.ok r,w'') ∧ Alike w'.disk w''.disk := by
  intro h
  have hne : replacedDirectory.files ≠ [] := List.cons_ne_nil _ _
  obtain ⟨g,r,w',hrun,hcheck⟩ := isSound_replacedDirectory.exists_runs hne (eachInTurn 3)
    (fun g => replacedDirectory.findsAgain replacedFiles
      (replacedDirectory.standing g (eachInTurn 3)).world.disk &&
      !cleans replacedDirectory.files replacedDirectory.directories
        (replacedDirectory.standing g (eachInTurn 3)).world.disk) (by decide +kernel)
  rw [← hrun.disk] at hcheck
  simp only [Bool.and_eq_true,Bool.not_eq_true'] at hcheck
  obtain ⟨hagain,hunclean⟩ := hcheck
  obtain ⟨hsame,hstyle⟩ := Trial.of_findsAgain (by decide +kernel) hagain
  have hfound' : g.discover w'.disk = .ok replacedDirectory.files :=
    (HookGenerator.discover_eq_ok (HookGenerator.follows_of_ofOptions hrun.generator)).2
      (hsame.trans isSound_replacedDirectory.found)
  obtain ⟨w'',hsecond,-⟩ := h replacedDirectory.options replacedDirectory.disk g
    replacedDirectory.files r w'
    hrun.generator rfl rfl (Path.plain_ofString ".") (by decide +kernel)
      (fun root hr => by cases hr)
    (isFileTree_of_formsTree (by decide +kernel)) (closed_of_entries (by decide +kernel)) hrun.found
    (run_inOrder hrun.found hne hrun.reported) hfound' hstyle
  have hcleans := cleans_of_run hfound' hne hsecond
  rw [hrun.directories,hunclean] at hcleans
  cases hcleans

end Run

end OperationHooks
