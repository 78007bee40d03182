import OperationHooks.Proofs.Hook.Imports
import OperationHooks.Proofs.Run.Overwriting
/-!
What the modules of a run import: each one a definition by the name of its operation, from the
directory for definitions beside its own. This need not be where its definition is.
-/
set_option autoImplicit false

namespace OperationHooks.Run
open Effect Disk Hook

variable {o : HookOptions} {g : HookGenerator} {files : List Path}
  {schedule : Schedule} {w w' : World}
variable {r : Report} {s : Setup} {disk : Disk} {p : Path} {d : Descriptor}

theorem isNamedOperation_of_plan (h : plan s disk p = .make d) : d.IsNamedOperation :=
  Descriptor.isNamedOperation_of_ofFile (emitting_of_opened (plan_make h).1).1 (hookable_of_plan h)

structure Importing (s : Hook.Settings) (d : Descriptor) (name content : String) : Prop where
  named : d.name = some name
  rendered : ∀ disk, s.render disk (Variant.select? d.kind d.hasVariables) d =
    .ok ⟨s.outputPath d,content⟩
  byName : imported (s.outputPath d).parent content =
    [childOf ((s.outputPath d).parent / definitionDirectory).fold (definitionFile name)]
  leads : imported (s.outputPath d).parent content = [d.sourcePath.fold] ↔
    d.sourcePath.fold.name = definitionFile name ∧
      d.sourcePath.fold.parent = ((s.outputPath d).parent / definitionDirectory).fold
  formatted : ∀ style text, Format.basic? style content = some text → imports text = imports content

theorem exists_importing {s : Hook.Settings} (ht : s.templates = none) (h : d.IsNamedOperation) :
    ∃ name content, Importing s d name content := by
  obtain ⟨name,content,hname,himports,hrender⟩ := Settings.importsByName_render ht h
  refine ⟨name,content,hname,hrender,himports.imported _,?_,himports.formatted⟩
  rw [himports.imported,List.singleton_inj,Path.childOf_eq_iff (definitionFile_ne name)]

theorem isMade_of_generated (hg : g.Follows o) (hfound : g.discover w.disk = .ok files)
    (hfiles : schedule.files.Perm files) (h : run (runBy g schedule) w = (.ok r,w')) {path : String}
    (hpath : path ∈ r.generated) : ∃ d, IsMade g schedule w d ∧
    path = (g.setup.hook.outputPath d).text := by
  by_cases hne : files = []
  · subst hne
    rw [report_of_nil hfound h] at hpath
    cases hpath
  have hnodup : schedule.files.Nodup :=
    hfiles.nodup_iff.2 (nodup_discover ((HookGenerator.discover_eq_ok hg).1 hfound))
  rw [run_runBy_of_discover hfound hne,← hfiles.length_eq] at h
  obtain ⟨entries,hentries,-,hgenerated,-⟩ := (carried_of_runOn hnodup h).lists
  obtain ⟨entry,he,hlisted⟩ := List.mem_filterMap.1 (hgenerated.mem_iff.1 hpath)
  obtain ⟨p,hp,hplan⟩ := List.mem_filterMap.1 (hentries.mem_iff.1 he)
  have hmade := generated_of_plan g.setup (seenBy g schedule.files schedule.steps w p) p
  rw [hplan,Option.bind_some,hlisted] at hmade
  obtain ⟨d,hd,htext⟩ := Option.map_eq_some_iff.1 hmade.symm
  refine ⟨d,isMade_iff.2 ⟨p,hp,?_⟩,htext.symm⟩
  cases hseen : plan g.setup (seenBy g schedule.files schedule.steps w p) p with
  | make d' => rw [hseen] at hd; rw [Option.some.inj hd]
  | report entry => rw [hseen] at hd; cases hd
  | fail => rw [hseen] at hd; cases hd

theorem source_of_isMade (hfiles : schedule.files.Perm files) (h : IsMade g schedule w d) :
    d.sourcePath ∈ files := by
  obtain ⟨p,hp,hplan⟩ := isMade_iff.1 h
  exact hfiles.mem_iff.1 (sourcePath_of_plan hplan ▸ hp)

theorem isNamedOperation_of_isMade (h : IsMade g schedule w d) : d.IsNamedOperation := by
  obtain ⟨p,-,hplan⟩ := isMade_iff.1 h
  exact isNamedOperation_of_plan hplan

/-- Every module that a report lists is one for a definition, and imports a definition by the name
of its operation. It is the one it was made for just where this one is called and placed so. -/
theorem modules_import (hg : g.Follows o) (ht : g.setup.hook.templates = none)
    (hfound : g.discover w.disk = .ok files) (hfiles : schedule.files.Perm files)
    (h : run (runBy g schedule) w = (.ok r,w')) :
    (∀ path ∈ r.generated, ∃ d, IsMade g schedule w d ∧ path = (g.setup.hook.outputPath d).text) ∧
      ∀ d, IsMade g schedule w d → d.sourcePath ∈ files ∧
        ∃ name content, Importing g.setup.hook d name content :=
  ⟨fun _ hpath => isMade_of_generated hg hfound hfiles h hpath,
    fun _ hd => ⟨source_of_isMade hfiles hd,exists_importing ht (isNamedOperation_of_isMade hd)⟩⟩

theorem queryBesideFragment_imports : ∃ g files r w' d name content,
    HookGenerator.ofOptions [] queryBesideFragment .standard = .ok g ∧
    g.setup.hook.templates = none ∧
    g.discover queryBesideFragment = .ok files ∧
    run (runBy g ⟨files,byTurns⟩) (.ofDisk queryBesideFragment) = (.ok r,w') ∧
    (g.setup.hook.outputPath d).text ∈ r.generated ∧ Importing g.setup.hook d name content := by
  obtain ⟨g,r,w',hg,ht,hfound,-,hrun,hne⟩ := exists_standardRun
  have hlisted : (Schedule.mk queryAndFragment byTurns).files.Perm queryAndFragment := .refl _
  obtain ⟨hgenerated,himports⟩ := modules_import (w := .ofDisk queryBesideFragment)
    (HookGenerator.follows_of_ofOptions hg) ht hfound hlisted hrun
  obtain ⟨path,hpath⟩ := List.exists_mem_of_ne_nil _ hne
  obtain ⟨d,hd,rfl⟩ := hgenerated path hpath
  obtain ⟨-,name,content,himporting⟩ := himports d hd
  exact ⟨g,_,r,w',d,name,content,hg,ht,hfound,hrun,hpath,himporting⟩

/-- Beside a definition that is not in a directory called `operations` a module imports what is not
there. -/
theorem standard_imports_astray : ∃ g files r w' d content,
    HookGenerator.ofOptions [] queryBesideFragment .standard = .ok g ∧
    g.setup.hook.templates = none ∧
    g.discover queryBesideFragment = .ok files ∧
    run (runBy g ⟨files,byTurns⟩) (.ofDisk queryBesideFragment) = (.ok r,w') ∧
    IsMade g ⟨files,byTurns⟩ (.ofDisk queryBesideFragment) d ∧
    g.setup.hook.render w'.disk (Variant.select? d.kind d.hasVariables) d =
      .ok ⟨g.setup.hook.outputPath d,content⟩ ∧
    imported (g.setup.hook.outputPath d).parent content ≠ [d.sourcePath.fold] := by
  obtain ⟨g,r,w',hg,ht,hfound,-,hrun,hne⟩ := exists_standardRun
  have hfollows := HookGenerator.follows_of_ofOptions hg
  have hlisted : (Schedule.mk queryAndFragment byTurns).files.Perm queryAndFragment := .refl _
  obtain ⟨path,hpath⟩ := List.exists_mem_of_ne_nil _ hne
  obtain ⟨d,hd,-⟩ :=
    isMade_of_generated (w := .ofDisk queryBesideFragment) hfollows hfound hlisted hrun hpath
  obtain ⟨name,content,himporting⟩ := exists_importing ht (isNamedOperation_of_isMade hd)
  refine ⟨g,_,r,w',d,content,hg,ht,hfound,hrun,hd,himporting.rendered _,fun he => ?_⟩
  have hslash : g.setup.hook.IsSlashFree := isSlashFree_of_follows hfollows (by decide +kernel)
  obtain ⟨hdestination,hroot⟩ : g.setup.hook.destination = Hook.standardDestination ∧
      g.setup.hook.outputRoot = none := by
    obtain ⟨formatting,broken,templates,rfl⟩ := hfollows
    exact ⟨rfl,rfl⟩
  have hsource : d.sourcePath.name ≠ "" ∧ d.sourcePath.name ≠ ".." ∧
      d.sourcePath.parent.fold.name ≠ "operations" := by
    have hd' := source_of_isMade hlisted hd
    simp only [queryAndFragment,List.mem_cons,List.not_mem_nil,or_false] at hd'
    rcases hd' with h | h <;> rw [h] <;> decide +kernel
  rw [himporting.byName,List.singleton_inj,Settings.imports_standard_iff hdestination hroot hslash
    (isNamedOperation_of_isMade hd).isNamed hsource.1 hsource.2.1 (definitionFile_ne name)] at he
  exact hsource.2.2 he.2

end OperationHooks.Run
