import OperationHooks.Proofs.Run.Accounting
/-!
Modules that go to one path. Two do just where the names and kinds of their operations agree, and
their directories; and a module is left as it was rendered unless another one, or an index, leads to
its file.
-/
set_option autoImplicit false

namespace OperationHooks.Run
open Effect Disk Index

def OnePath (s : Setup) (d d' : Descriptor) : Prop :=
  (s.hook.namePrefix.toList.head? = some '/' ∨
    s.hook.outputDirectory d.sourcePath = s.hook.outputDirectory d'.sourcePath) ∧
  d.name = d'.name ∧ d.kind = d'.kind

/-- A definition that a hook was made for, by the text that its task has read. -/
def IsMade (g : HookGenerator) (schedule : Schedule) (w : World) (d : Descriptor) : Prop :=
  ∃ p ∈ schedule.files, ∃ source, HasSource (seenBy g schedule.files schedule.steps w p) p source ∧
    Judged g.setup p source (.hooked d)

section Made

variable {o : HookOptions} {g : HookGenerator} {files : List Path}
  {schedule : Schedule} {w w' : World}
variable {r : Report} {s : Setup} {disk : Disk} {p : Path} {d d' : Descriptor} {source : String}

theorem hookable_of_judged (h : Judged s p source (.hooked d)) : Hook.Settings.Hookable d := by
  cases h with
  | hooked document operation hp ho hn ht =>
    obtain ⟨name,hname⟩ := properName_of_nameFault hn
    refine ⟨⟨name,(Option.filter_eq_some_iff.1 hname).1⟩,?_⟩
    rw [kind_ofDocument ho]
    rcases ht with ht | ht <;> rw [ht]
    · exact .inl rfl
    · exact .inr rfl

theorem hookable_of_plan (h : plan s disk p = .make d) : Hook.Settings.Hookable d := by
  obtain ⟨source,-,hj⟩ := make_iff.1 h
  exact hookable_of_judged hj

theorem isMade_iff : IsMade g schedule w d ↔
    ∃ p ∈ schedule.files, plan g.setup (seenBy g schedule.files schedule.steps w p) p =
      .make d := by
  simp only [IsMade,make_iff]

theorem plain_outputPath (hroot : o.root.Plain) (hg : g.Follows o) (hp : d.sourcePath.Plain) :
    (g.setup.hook.outputPath d).Plain :=
  Path.plain_join (HookGenerator.plain_outputDirectory hroot hg hp) (Path.plain_ofString _)

theorem outputPath_text_eq_iff (hroot : o.root.Plain) (hg : g.Follows o) {disk' : Disk} {p' : Path}
    (hplain : p.Plain) (hplain' : p'.Plain) (hp : plan g.setup disk p = .make d)
    (hp' : plan g.setup disk' p' = .make d') :
    (g.setup.hook.outputPath d).text = (g.setup.hook.outputPath d').text ↔
    OnePath g.setup d d' := by
  rw [OnePath,← Hook.Settings.outputPath_eq_iff (extension_of_follows hg) (isNamed_of_plan hp)
    (isNamed_of_plan hp') (hookable_of_plan hp) (hookable_of_plan hp')]
  refine ⟨fun h => Path.text_injective ?_ ?_ h,fun h => by rw [h]⟩
  · exact plain_outputPath hroot hg (sourcePath_of_plan hp ▸ hplain)
  · exact plain_outputPath hroot hg (sourcePath_of_plan hp' ▸ hplain')

theorem not_oneFile_index (hg : g.Follows o) (hl : LinkFree disk.tree) {before : Disk}
    {directory : Path}
    (hp : plan g.setup before p = .make d) :
    ¬ OneFile disk (g.setup.hook.outputPath d) (g.setup.index.indexPath directory) := by
  rintro ⟨c,hmodule,hindex⟩
  obtain ⟨above,name,houtput,hdot,hup,hname⟩ :=
    Hook.Settings.outputPath_eq_childOf (extension_of_follows hg) (isNamed_of_plan hp)
  obtain ⟨hpart,hup',-⟩ := isPart_indexName hg
  have hfile : g.setup.index.fileName = "index" ++ "." ++ g.setup.hook.extension := by
    obtain ⟨formatting,broken,templates,rfl⟩ := hg
    rfl
  have he := (place_of_leadsTo hl hmodule).symm.trans (place_of_leadsTo hl hindex)
  rw [houtput,placeOf_childOf disk _ hdot hup,Index.Settings.indexPath,div_part _ hpart,
    placeOf_childOf disk _ hpart.2.1 hup'] at he
  exact hname ((List.append_singleton_inj.1 he).2.trans hfile)

end Made

def Plan.made? : Plan → Option Descriptor
  | .make d => some d
  | _ => none

structure Modules (g : HookGenerator) (schedule : Schedule) (w w' : World) (r : Report)
    (made : List Descriptor) : Prop where
  mem_iff : ∀ d, d ∈ made ↔ IsMade g schedule w d
  sources : (made.map Descriptor.sourcePath).Nodup
  generated : r.generated.Perm (made.map fun d => (g.setup.hook.outputPath d).text)
  paths : ∀ d ∈ made, ∀ d' ∈ made,
    (g.setup.hook.outputPath d).text = (g.setup.hook.outputPath d').text ↔ OnePath g.setup d d'
  nodup_iff : r.generated.Nodup ↔ made.Pairwise fun d d' => ¬ OnePath g.setup d d'
  own : ∀ d ∈ made,
    (∃ before text, Passes g.setup (started g schedule.files w) schedule.steps before ∧
      g.setup.hook.Rendering before d text ∧
      w'.disk.read (g.setup.hook.outputPath d) = .ok (Text.encode text)) ∨
    (∃ d' ∈ made, d' ≠ d ∧
      OneFile w'.disk (g.setup.hook.outputPath d) (g.setup.hook.outputPath d')) ∨
    ∃ d' ∈ made, OneFile w'.disk (g.setup.hook.outputPath d)
      (g.setup.index.indexPath (g.setup.hook.outputPath d').parent)
  linkFree : LinkFree w.disk.tree → ∀ d ∈ made, ∀ directory,
    ¬ OneFile w'.disk (g.setup.hook.outputPath d) (g.setup.index.indexPath directory)

section Modules

variable {o : HookOptions} {g : HookGenerator} {files : List Path}
  {schedule : Schedule} {w w' : World}
variable {r : Report} {s : Setup} {disk : Disk} {p : Path}

theorem generated_of_plan (s : Setup) (disk : Disk) (p : Path) :
    ((plan s disk p).entry s).bind Entry.generated? =
      (plan s disk p).made?.map fun d => (s.hook.outputPath d).text := by
  cases h : plan s disk p with
  | make d => rfl
  | fail => rfl
  | report entry => rcases path_of_report h with ⟨reason,rfl⟩ | ⟨reason,type,rfl⟩ <;> rfl

theorem source_of_plan (s : Setup) (disk : Disk) (p : Path) :
    (plan s disk p).made?.map Descriptor.sourcePath =
      if (plan s disk p).made?.isSome then some p else none := by
  cases h : plan s disk p with
  | make d => exact congrArg some (sourcePath_of_plan h)
  | _ => rfl

theorem Carried.modules_of_run (h : Carried g schedule.files schedule.steps w w' r)
    (hroot : o.root.Plain)
    (hg : g.Follows o) (hnodup : schedule.files.Nodup) (hplain : ∀ p ∈ schedule.files, p.Plain) :
    ∃ made, Modules g schedule w w' r made := by
  let seen := seenBy g schedule.files schedule.steps w
  let made := schedule.files.filterMap fun p => (plan g.setup (seen p) p).made?
  have hmem : ∀ d, d ∈ made ↔ ∃ p ∈ schedule.files, plan g.setup (seen p) p = .make d := by
    intro d
    refine List.mem_filterMap.trans (exists_congr fun p => and_congr_right fun _ => ?_)
    cases plan g.setup (seen p) p <;> simp [Plan.made?]
  obtain ⟨entries,hentries,-,hgenerated,-⟩ := h.lists
  have hperm : r.generated.Perm (made.map fun d => (g.setup.hook.outputPath d).text) := by
    refine hgenerated.trans ((hentries.filterMap _).trans (.of_eq ?_))
    rw [List.filterMap_filterMap,List.map_filterMap]
    exact List.filterMap_congr fun p _ => generated_of_plan g.setup (seen p) p
  have hpaths : ∀ d ∈ made, ∀ d' ∈ made,
      (g.setup.hook.outputPath d).text = (g.setup.hook.outputPath d').text ↔
      OnePath g.setup d d' := by
    intro d hd d' hd'
    obtain ⟨p,hp,hplan⟩ := (hmem d).1 hd
    obtain ⟨p',hp',hplan'⟩ := (hmem d').1 hd'
    exact outputPath_text_eq_iff hroot hg (hplain p hp) (hplain p' hp') hplan hplan'
  have hdots := HookGenerator.dotless_of_plain hroot hg hplain
  refine ⟨made,fun d => (hmem d).trans isMade_iff.symm,?_,hperm,hpaths,?_,fun d hd => ?_,
    fun hl d hd => ?_⟩
  · have hsources : made.map Descriptor.sourcePath =
        schedule.files.filter fun p => (plan g.setup (seen p) p).made?.isSome := by
      rw [List.map_filterMap,← List.filterMap_eq_filter]
      exact List.filterMap_congr fun p _ => source_of_plan g.setup (seen p) p
    rw [hsources]
    exact hnodup.filter _
  · rw [hperm.nodup_iff,List.Nodup,List.pairwise_map]
    exact List.Pairwise.iff_of_mem fun hd hd' => not_congr (hpaths _ hd _ hd')
  · obtain ⟨p,hp,hplan⟩ := (hmem d).1 hd
    by_cases hmodule : ∃ d' ∈ made, d' ≠ d ∧
        OneFile w'.disk (g.setup.hook.outputPath d) (g.setup.hook.outputPath d')
    · exact .inr (.inl hmodule)
    by_cases hindex : ∃ d' ∈ made, OneFile w'.disk (g.setup.hook.outputPath d)
        (g.setup.index.indexPath (g.setup.hook.outputPath d').parent)
    · exact .inr (.inr hindex)
    refine .inl ((h.modules p hp d hplan).read ?_)
    rintro q ⟨p',hp',⟨hne,d',hplan',rfl⟩ | ⟨d',hplan',rfl⟩⟩ hone
    · refine hmodule ⟨d',(hmem d').2 ⟨p',hp',hplan'⟩,?_,hone⟩
      rintro rfl
      exact hne ((sourcePath_of_plan hplan').symm.trans (sourcePath_of_plan hplan))
    · exact hindex ⟨d',(hmem d').2 ⟨p',hp',hplan'⟩,hone⟩
  · obtain ⟨p,-,hplan⟩ := (hmem d).1 hd
    obtain ⟨w₁,hclean,hstarted⟩ := h.cleaned
    have hswept :=
      (swept_of_clean (w := (w.begun schedule.files.length).cleaning schedule.files.length)
      hl hdots hclean).2
    have hfilled : Changed Tree.Filled w₁.disk w'.disk := by
      have hfinal := h.final
      rw [hstarted] at hfinal
      exact hfinal
    exact fun _ => not_oneFile_index hg
      (fun q target hq => hswept.linkFree hl q target (hfilled.2.links q target hq)) hplan

/-- A report repeats a path just where definitions agree in what it is made of; and every module is
what its definition was rendered to, unless another one or an index has its file. -/
theorem modules_of_report (hroot : o.root.Plain) (hg : g.Follows o) (hnames : HasNames w.disk)
    (hfound : g.discover w.disk = .ok files) (hfiles : schedule.files.Perm files)
    (h : run (runBy g schedule) w = (.ok r,w')) : ∃ made, Modules g schedule w w' r made := by
  by_cases hne : files = []
  · subst hne
    have hr := report_of_nil hfound h
    subst hr
    have hnone : ∀ d, ¬ IsMade g schedule w d := by
      rintro d ⟨p,hp,-⟩
      rw [hfiles.eq_nil] at hp
      cases hp
    exact ⟨[],fun d => ⟨fun hd => (List.not_mem_nil hd).elim,fun hd => (hnone d hd).elim⟩,
      List.nodup_nil,
      .refl _,by simp,by simp [Report.empty],by simp,by simp⟩
  have hplain := plain_of_discover hroot hg hnames hfound
  have hnodup : schedule.files.Nodup :=
    hfiles.nodup_iff.2 (nodup_discover ((HookGenerator.discover_eq_ok hg).1 hfound))
  rw [run_runBy_of_discover hfound hne,← hfiles.length_eq] at h
  exact (carried_of_runOn hnodup h).modules_of_run hroot hg hnodup fun p hp =>
    hplain p (hfiles.mem_iff.1 hp)

end Modules

theorem queryBesideFragment_modules : ∃ g files steps r w' made, g.Follows .standard ∧
    HasNames queryBesideFragment ∧ g.discover queryBesideFragment = .ok files ∧
    run (runBy g ⟨files,steps⟩) (.ofDisk queryBesideFragment) = (.ok r,w') ∧
    Modules g ⟨files,steps⟩ (.ofDisk queryBesideFragment) w' r made := by
  obtain ⟨g,r,w',hstandard⟩ := exists_standardRun
  have hfollows := HookGenerator.follows_of_ofOptions hstandard.generator
  have hnames := isFileTree_queryBesideFragment.names
  have hlisted : (Schedule.mk queryAndFragment byTurns).files.Perm queryAndFragment := .refl _
  obtain ⟨made,hmodules⟩ := modules_of_report (w := .ofDisk queryBesideFragment)
    (Path.plain_ofString ".")
    hfollows hnames hstandard.found hlisted hstandard.reported
  exact ⟨g,_,byTurns,r,w',made,hfollows,hnames,hstandard.found,hstandard.reported,hmodules⟩

def oneName : Trial where
  disk := {
    here := []
    tree := ⟨[(["src"],.directory),(["src","a"],.directory),
      (["src","a","X.graphql"],.file (Text.encode "query X { a }") false),(["src","b"],.directory),
      (["src","b","X.graphql"],.file (Text.encode "query X { a }") false),(["t"],.directory),
      (["t","query.j2"],.file (Text.encode "// X") false)]⟩ }
  options := { HookOptions.standard with templates := some "t" }
  files := [⟨.here,["src","a","X.graphql"]⟩,⟨.here,["src","b","X.graphql"]⟩]
  directories := [⟨.here,["src","hooks"]⟩]

/-- A report may have a path more than once. -/
theorem oneName_repeats : ∃ g r w, HookGenerator.ofOptions [] oneName.disk oneName.options = .ok g ∧
    g.discover oneName.disk = .ok oneName.files ∧
    run (runBy g (oneName.schedule (oneByOne 0 1))) (.ofDisk oneName.disk) = (.ok r,w) ∧
    ¬ r.generated.Nodup := by
  have hsound : oneName.IsSound := Trial.isSound_of_checks (by decide +kernel)
  obtain ⟨g,r,w,hrun,hrepeated⟩ := hsound.exists_runs (List.cons_ne_nil _ _) (oneByOne 0 1)
    (fun g => !decide (oneName.standing g (oneByOne 0 1)).world.report.generated.Nodup)
      (by decide +kernel)
  refine ⟨g,r,w,hrun.generator,hrun.found,hrun.reported,fun hn => ?_⟩
  simp [hrun.generated.nodup_iff.1 hn] at hrepeated

end OperationHooks.Run
