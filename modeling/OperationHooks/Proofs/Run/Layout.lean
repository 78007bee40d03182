import OperationHooks.Proofs.Run.Emptying
import OperationHooks.Proofs.Run.OrderIndependence
import OperationHooks.Proofs.Run.Verdict
/-!
What is in the output directories when a run is over: a module for each definition that gets a hook,
an index in each directory that got modules, and no other file.
-/
set_option autoImplicit false

namespace OperationHooks.Run
open Effect Disk Index

def IsHooked (s : Setup) (d : Disk) (files : List Path) (m : Descriptor) : Prop :=
  ∃ p ∈ files, ∃ source, HasSource d p source ∧ Judged s p source (.hooked m)

def Fills (s : Setup) (d : Disk) (files : List Path) (directory : Path)
    (baseName : String) : Prop :=
  ∃ m, IsHooked s d files m ∧ s.hook.outputDirectory m.sourcePath = directory ∧
  s.hook.nameOf m = baseName

/-- What a run that began with one disk leaves in its output directories. -/
structure LaidOut (s : Setup) (files : List Path) (d d' : Disk) : Prop where
  there : ∀ directory, Uses s files directory → HasDirectory d' directory
  regular : ∀ directory, Uses s files directory → ∀ q, Tree.isBelow (placeOf d directory) q = true →
    ((∃ bytes executable, d'.tree.get? q = some (.file bytes executable)) ↔
      (∃ m, IsHooked s d files m ∧ q = modulePlace s d m) ∨
      ∃ other baseName, Fills s d files other baseName ∧ q = indexPlace s.index d other)
  named : ∀ m, IsHooked s d files m → Uses s files (s.hook.outputDirectory m.sourcePath) ∧
    modulePlace s d m = placeOf d (s.hook.outputDirectory m.sourcePath) ++
      [s.hook.nameOf m ++ "." ++ s.hook.extension]
  modules : ∀ m, IsHooked s d files m → ∃ m' before text,
    IsHooked s d files m' ∧ s.hook.outputPath m' = s.hook.outputPath m ∧
    (∀ q, ¬ Generated s d files q → before.tree.get? q = d'.tree.get? q) ∧
    s.hook.Rendering before m' text ∧ (TemplatesApart s d files → s.hook.Rendering d' m' text) ∧
    d'.tree.get? (modulePlace s d m) = some (.file (Text.encode text) false)
  indexes : ∀ directory baseName, Fills s d files directory baseName →
    ∃ names : List String, ∃ nested : Bool,
    (∀ x, x ∈ names ↔ Fills s d files directory x) ∧ names.Nodup ∧ names.Pairwise (precedes · ·) ∧
    d'.tree.get? (indexPlace s.index d directory) = some (.file (Text.encode ("\n".intercalate
      ((if nested then [nestedStatement] else []) ++ names.map statement) ++ "\n")) false)

section Layout

variable {s : Setup} {base d : Disk} {files : List Path} {w : Index.World} {m : Descriptor}
variable {directory : Path} {baseName : String}

theorem isHooked_iff : IsHooked s d files m ↔ ∃ p ∈ files, plan s d p = .make m := by
  simp only [IsHooked,make_iff]

theorem isHooked_congr (h : ∀ p ∈ files, plan s base p = plan s d p) :
    IsHooked s base files m ↔ IsHooked s d files m := by
  rw [isHooked_iff,isHooked_iff]
  exact exists_congr fun p => and_congr_right fun hp => by rw [h p hp]

theorem fills_congr (h : ∀ p ∈ files, plan s base p = plan s d p) :
    Fills s base files directory baseName ↔ Fills s d files directory baseName :=
  exists_congr fun _ => and_congr_left fun _ => isHooked_congr h

theorem receives_iff : Receives s base files directory baseName ↔
    Fills s base files directory baseName := by
  constructor
  · rintro ⟨p,hp,m,hplan,hdir,hname⟩
    exact ⟨m,isHooked_iff.2 ⟨p,hp,hplan⟩,(sourcePath_of_plan hplan).symm ▸ hdir,hname⟩
  · rintro ⟨m,hm,hdir,hname⟩
    obtain ⟨p,hp,hplan⟩ := isHooked_iff.1 hm
    exact ⟨p,hp,m,hplan,sourcePath_of_plan hplan ▸ hdir,hname⟩

/-- What is laid out by the definitions after the cleaning is so by those before it. -/
theorem LaidOut.congr {d' : Disk} (h : LaidOut s files base d') (hh : base.here = d.here)
    (hplan : ∀ p ∈ files, plan s base p = plan s d p) : LaidOut s files d d' := by
  have hplace : ∀ q, placeOf base q = placeOf d q := placeOf_eq hh
  have hmodule : ∀ m, modulePlace s base m = modulePlace s d m := fun m => hplace _
  have hindex : ∀ directory, indexPlace s.index base directory = indexPlace s.index d directory :=
    fun directory => by rw [indexPlace,indexPlace,hplace]
  have hgenerated : ∀ q, Generated s base files q ↔ Generated s d files q := generated_of_here hh
  have htemplates : TemplatesApart s d files → TemplatesApart s base files :=
    fun h => h.of_here hh.symm
  obtain ⟨hthere,hregular,hnamed,hmodules,hindexes⟩ := h
  simp only [isHooked_congr hplan,fills_congr hplan,hmodule,hindex,hplace,hgenerated] at *
  refine ⟨hthere,hregular,hnamed,fun m hm => ?_,hindexes⟩
  obtain ⟨m',before,text,hm',hpath,hoff,hr,hr',hget⟩ := hmodules m hm
  exact ⟨m',before,text,hm',hpath,hoff,hr,fun ht => hr' (htemplates ht),hget⟩

def IsBare (s : Setup) (base : Disk) (files : List Path) : Prop :=
  ∀ directory, Uses s files directory → ∀ q, Tree.isBelow (placeOf base directory) q = true →
    ∀ bytes executable, base.tree.get? q ≠ some (.file bytes executable)

def KeepsIndexes (s : Setup) (base : Disk) (files : List Path) : Prop :=
  ∀ directory entries nested disk text,
    (∀ x ∈ entries, Fills s base files directory x) → entries ≠ [] →
    s.index.formatting disk (textOf nested entries) = .ok text → text = textOf nested entries

theorem IsBare.stored (h : IsBare s base files) (hu : Uses s files directory) (name : String)
    (bytes : List UInt8) : stored (base.tree.get? (placeOf base directory ++ [name])) bytes =
      .file bytes false :=
  stored_of_ne (h _ hu _ (Tree.isBelow_concat _ _)) bytes

namespace Outcome

theorem module_file (h : Outcome s base files w) (hp : Prepared s base files)
    (hb : IsBare s base files)
    {p : Path} (hm : p ∈ files) (hplan : plan s base p = .make m) :
    ∃ p' ∈ files, ∃ m' disk text, plan s base p' = .make m' ∧ s.hook.outputPath m' =
      s.hook.outputPath m ∧
      Overlaid (Generated s base files) base disk ∧ s.hook.Rendering disk m' text ∧
      w.disk.tree.get? (modulePlace s base m) = some (.file (Text.encode text) false) := by
  obtain ⟨-,-,p',hp',m',hplan',hplace,disk,text,ho,hr,hget⟩ := h.made p hm m hplan
  refine ⟨p',hp',m',disk,text,hplan',hp.outputPath_of_place hm hp' hplan hplan' hplace,ho,hr,?_⟩
  rwa [hp.modulePlace_eq hplan,hb.stored ⟨p,hm,rfl⟩,← hp.modulePlace_eq hplan] at hget

theorem uses_of_fills (h : Fills s base files directory baseName) : Uses s files directory := by
  obtain ⟨p,hp,m,-,hdir,-⟩ := receives_iff.2 h
  exact ⟨p,hp,hdir⟩

theorem index_file (h : Outcome s base files w) (hb : IsBare s base files)
    (hkeeps : KeepsIndexes s base files) (hf : Fills s base files directory baseName) :
    ∃ nested, w.disk.tree.get? (indexPlace s.index base directory) =
      some (.file (Text.encode (textOf nested (w.indexes.state directory).entries)) false) := by
  have hne := List.ne_nil_of_mem ((h.entries directory baseName).2 (receives_iff.2 hf))
  obtain ⟨-,text,⟨nested,disk,htext⟩,hget⟩ := h.stands directory hne
  obtain rfl := hkeeps directory _ nested disk text
    (fun x hx => receives_iff.1 ((h.entries directory x).1 hx)) hne htext
  rw [indexPlace,hb.stored (uses_of_fills hf)] at hget
  exact ⟨nested,hget⟩

theorem laidOut (h : Outcome s base files w) (hp : Prepared s base files) (hb : IsBare s base files)
    (hkeeps : KeepsIndexes s base files)
    (hformat : ∀ d d' text, s.hook.formatting d' text = s.hook.formatting d text) :
    LaidOut s files base w.disk := by
  have hl := hp.ground.linkFree
  refine ⟨fun directory hu =>
    (hasDirectory_overlaid hl h.overlaid).2 (hp.ground.there directory hu),
    fun directory hu q hq => ⟨?_,?_⟩,fun m hm => ?_,fun m hm => ?_,fun directory baseName hf => ?_⟩
  · rintro ⟨bytes,executable,hget⟩
    by_cases hmodule : ∃ m, IsHooked s base files m ∧ q = modulePlace s base m
    · exact .inl hmodule
    by_cases hindex : ∃ other, Uses s files other ∧ q = indexPlace s.index base other
    · obtain ⟨other,hused,rfl⟩ := hindex
      by_cases hn : (w.indexes.state other).entries = []
      · rw [h.bare other hused hn] at hget
        exact absurd hget (hb directory hu _ hq bytes executable)
      · obtain ⟨x,hx⟩ := List.exists_mem_of_ne_nil _ hn
        exact .inr ⟨other,x,receives_iff.1 ((h.entries other x).1 hx),rfl⟩
    · rw [h.elsewhere q (fun other hused he => hindex ⟨other,hused,he⟩)
        fun p hm m hplan he => hmodule ⟨m,isHooked_iff.2 ⟨p,hm,hplan⟩,he⟩] at hget
      exact absurd hget (hb directory hu q hq bytes executable)
  · rintro (⟨m,hm,rfl⟩ | ⟨other,baseName,hf,rfl⟩)
    · obtain ⟨p,hm,hplan⟩ := isHooked_iff.1 hm
      obtain ⟨_,_,_,_,_,_,_,_,_,hget⟩ := h.module_file hp hb hm hplan
      exact ⟨_,_,hget⟩
    · obtain ⟨nested,hget⟩ := h.index_file hb hkeeps hf
      exact ⟨_,_,hget⟩
  · obtain ⟨p,hm,hplan⟩ := isHooked_iff.1 hm
    rw [hp.modulePlace_eq hplan,sourcePath_of_plan hplan]
    exact ⟨⟨p,hm,rfl⟩,rfl⟩
  · obtain ⟨p,hm,hplan⟩ := isHooked_iff.1 hm
    obtain ⟨p',hm',m',disk,text,hplan',hpath,ho,hr,hget⟩ := h.module_file hp hb hm hplan
    refine ⟨m',disk,text,isHooked_iff.2 ⟨p',hm',hplan'⟩,hpath,fun q hq => ?_,hr,fun ht => ?_,hget⟩
    · rw [ho.of_not hq,h.overlaid.of_not hq]
    · exact (rendering_overlaid hl ht hformat h.overlaid).2
        ((rendering_overlaid hl ht hformat ho).1 hr)
  · obtain ⟨nested,hget⟩ := h.index_file hb hkeeps hf
    have hperm := sortEntries_perm (w.indexes.state directory).entries
    refine ⟨sortEntries (w.indexes.state directory).entries,nested,fun x => ?_,
      hperm.nodup_iff.2 (h.nodup directory),pairwise_sortEntries _,?_⟩
    · rw [hperm.mem_iff,h.entries,receives_iff]
    · rwa [textOf,linesOf_eq] at hget

end Outcome

end Layout

section Run

variable {env : Format.Environment} {d : Disk} {o : HookOptions} {g : HookGenerator}
  {files : List Path}
variable {processing : Processing} {w w' : World} {r : Report}

theorem keeps_of_basic (hg : HookGenerator.ofOptions env d o = .ok g)
    (hbasic : o.formatters.toList = ["basic"])
    (hends : ∀ c ∈ o.namePrefix.toList, Text.isLineEnd c = false) (base : Disk) :
    KeepsIndexes g.setup base files := by
  intro directory entries nested disk text hfills _ htext
  have hstart : g.setup.hook.namePrefix = o.namePrefix := by
    obtain ⟨formatting,broken,templates,rfl⟩ := HookGenerator.follows_of_ofOptions hg
    rfl
  obtain ⟨style,-,-,hindex⟩ := HookGenerator.basic_of_ofOptions hg hbasic
  rw [hindex,Format.format_basic] at htext
  cases hb : Format.basic? style (textOf nested entries) with
  | none => rw [hb] at htext; cases htext
  | some formatted =>
    rw [hb] at htext
    obtain rfl := Except.ok.inj htext
    refine basic_textOf (fun x hx c hc => ?_) hb
    obtain ⟨m,hm,-,rfl⟩ := hfills x hx
    obtain ⟨p,-,hplan⟩ := isHooked_iff.1 hm
    exact Hook.Settings.isLineEnd_of_mem_nameOf (hstart ▸ hends) (isNamed_of_plan hplan) hc

structure BasicRun (env : Format.Environment) (o : HookOptions) (g : HookGenerator)
    (files : List Path)
    (processing : Processing) (w w' : World) (r : Report) : Prop where
  generator : HookGenerator.ofOptions env w.disk o = .ok g
  basic : o.formatters.toList = ["basic"]
  root : o.root.Plain
  outputRoot : ∀ root, o.outputRoot = some root → ".." ∉ (Path.ofString root).parts
  slash : '/' ∉ o.namePrefix.toList
  ends : ∀ c ∈ o.namePrefix.toList, Text.isLineEnd c = false
  tree : IsFileTree w.disk
  interleaves : Interleaves g.setup processing
  found : g.discover w.disk = .ok files
  nonempty : files ≠ []
  reported : run (g.run processing) w = (.ok r,w')

/-- In its output directories a run leaves the modules of its definitions, the indexes of the
directories that got modules, and no other file. -/
theorem output_laid (hrun : BasicRun env o g files processing w w' r)
    (horder : InOrder w.disk (g.outputDirectories files))
    (hfounded : ∀ directory, o.outputPath = some directory →
      Path.anchorOf o.pattern.toList ≠ .here →
      Founded w.disk directory) : LaidOut g.setup files w.disk w'.disk := by
  obtain ⟨hg,hbasic,hroot,hdown,hslash,hends,htree,hs,hfound,hne,h⟩ := hrun
  have hfollows := HookGenerator.follows_of_ofOptions hg
  have hplain := plain_of_discover hroot hfollows htree.names hfound
  rw [run_eq_of_discover hfound hne] at h
  obtain ⟨w₁,hclean,hprepared,houtcome,-⟩ := traced_of_runOn (w := w.begun files.length)
    hroot hfollows hslash
    htree.linkFree hplain horder rfl hs h
  have hdots := HookGenerator.dotless_of_plain hroot hfollows hplain
  obtain ⟨hhere,hswept⟩ := swept_of_clean (w := (w.begun files.length).cleaning files.length)
    htree.linkFree hdots hclean
  have hbare : IsBare g.setup w₁.disk files := fun directory hu q hq =>
    no_file_of_clean (w := (w.begun files.length).cleaning files.length) htree.linkFree
      htree.rooted hdots
      (HookGenerator.pairwise_upright hfollows files)
      (founded_of_relative hfollows htree.linkFree hdown hfounded hfound hne) hclean (uses_iff.1 hu)
      (placeOf_eq hhere directory ▸ hq)
  have hformat : ∀ d d' text, g.setup.hook.formatting d' text = g.setup.hook.formatting d text := by
    obtain ⟨style,-,hhook,-⟩ := HookGenerator.basic_of_ofOptions hg hbasic
    intro d d' text
    rw [hhook,Format.format_basic,Format.format_basic]
  refine (houtcome.laidOut hprepared hbare (keeps_of_basic hg hbasic hends _) hformat).congr hhere
    fun p hp => ?_
  obtain ⟨-,bytes,hread⟩ := mem_discover ((HookGenerator.discover_eq_ok hfollows).1 hfound) hp
  exact plan_swept htree.linkFree hhere hswept hread (houtcome.planned p hp)

end Run

theorem notLineEnd_of_all {cs : List Char} (h : cs.all (fun c => !Text.isLineEnd c) = true) :
    ∀ c ∈ cs, Text.isLineEnd c = false := by simpa using h

theorem queryBesideFragment_laid : ∃ g r w',
    BasicRun [] .standard g queryAndFragment (Progress.follow g.setup byTurns)
      (.ofDisk queryBesideFragment) w' r ∧
    InOrder queryBesideFragment (g.outputDirectories queryAndFragment) ∧
    (∀ directory, HookOptions.standard.outputPath = some directory →
      Path.anchorOf HookOptions.standard.pattern.toList ≠ .here →
      Founded queryBesideFragment directory) ∧
    LaidOut g.setup queryAndFragment queryBesideFragment w'.disk := by
  obtain ⟨g,r,w',hstandard⟩ := exists_standardRun
  have hsame : run (runBy g ⟨queryAndFragment,byTurns⟩) (.ofDisk queryBesideFragment) =
      run (g.run (Progress.follow g.setup byTurns)) (.ofDisk queryBesideFragment) :=
        run_runBy hstandard.found
  have hrun : BasicRun [] .standard g queryAndFragment (Progress.follow g.setup byTurns)
      (.ofDisk queryBesideFragment) w' r :=
    ⟨hstandard.generator,rfl,Path.plain_ofString ".",(fun root hr => by cases hr),by decide +kernel,
      notLineEnd_of_all (by decide +kernel),isFileTree_queryBesideFragment,interleaves_follow _ _,
      hstandard.found,by simp [queryAndFragment],hsame ▸ hstandard.reported⟩
  have horder : InOrder queryBesideFragment (g.outputDirectories queryAndFragment) := by
    rw [hstandard.directories]; exact List.pairwise_singleton _ _
  have hfounded : ∀ directory, HookOptions.standard.outputPath = some directory →
      Path.anchorOf HookOptions.standard.pattern.toList ≠ .here →
      Founded queryBesideFragment directory :=
    fun directory hpath => by cases hpath
  exact ⟨g,r,w',hrun,horder,hfounded,output_laid hrun horder hfounded⟩

def goesTo (s : Setup) (d : Disk) (files : List Path) (q : Place) : Bool :=
  files.any fun p => match plan s d p with | .make m => modulePlace s d m == q | _ => false

/-- One of the files has a module of some name for a directory. -/
def givesTo (s : Setup) (d : Disk) (files : List Path) (directory : Path)
    (baseName : String) : Bool :=
  files.any fun p => match plan s d p with
    | .make m => s.hook.outputDirectory m.sourcePath == directory && s.hook.nameOf m == baseName
    | _ => false

section Astray

variable {s : Setup} {files directories : List Path} {d d' : Disk} {q : Place} {directory : Path}

theorem goesTo_eq_false (h : goesTo s d files q = false) (m : Descriptor)
    (hm : IsHooked s d files m) :
    modulePlace s d m ≠ q := by
  obtain ⟨p,hp,hplan⟩ := isHooked_iff.1 hm
  have hp := List.any_eq_false.1 h p hp
  rw [hplan] at hp
  simpa using hp

theorem fills_of_givesTo {baseName : String} (h : givesTo s d files directory baseName = true) :
    Fills s d files directory baseName := by
  obtain ⟨p,hp,hgives⟩ := List.any_eq_true.1 h
  cases hplan : plan s d p with
  | make m =>
    rw [hplan] at hgives
    simp only [Bool.and_eq_true,beq_iff_eq] at hgives
    exact ⟨m,isHooked_iff.2 ⟨p,hp,hplan⟩,hgives⟩
  | report entry => rw [hplan] at hgives; cases hgives
  | fail => rw [hplan] at hgives; cases hgives

theorem not_laidOut_of_unlisted {baseName text : String} {c : Char}
    (hf : Fills s d files directory baseName)
    (hc : c ∈ baseName.toList) (hend : c ∉ "\n".toList) (htext : c ∉ text.toList)
    (hget : d'.tree.get? (indexPlace s.index d directory) = some (.file (Text.encode text) false)) :
    ¬ LaidOut s files d d' := fun h => by
  obtain ⟨names,nested,hnames,-,-,hindex⟩ := h.indexes directory baseName hf
  obtain ⟨hbytes,-⟩ := Entry.file.inj (Option.some.inj (hget.symm.trans hindex))
  refine htext (Text.encode_injective hbytes ▸ ?_)
  rw [String.toList_append,List.mem_append,mem_intercalate hend]
  refine .inl ⟨statement baseName,
    List.mem_append_right _ (List.mem_map_of_mem ((hnames _).2 hf)),?_⟩
  rw [toList_statement]
  simp [hc]

theorem not_laidOut_of_stray {bytes : List UInt8} {executable : Bool}
    (hu : Uses s files directory) (hq : Tree.isBelow (placeOf d directory) q = true)
    (hget : d'.tree.get? q = some (.file bytes executable)) (hmodule : goesTo s d files q = false)
    (hindex : ∀ other, Uses s files other → q ≠ indexPlace s.index d other) :
      ¬ LaidOut s files d d' := fun h => by
  rcases (h.regular directory hu q hq).1 ⟨bytes,executable,hget⟩ with ⟨m,hm,he⟩
    | ⟨other,baseName,hf,he⟩
  · exact goesTo_eq_false hmodule m hm he.symm
  · exact hindex other (Outcome.uses_of_fills hf) he

end Astray

def removedDirectory : Trial := twoWays "+w" "use" (some ".t")

theorem isSound_removedDirectory : removedDirectory.IsSound :=
  Trial.isSound_of_checks (by decide +kernel)

theorem removedDirectory_unlaid : ∃ g r w',
    BasicRun [] removedDirectory.options g removedDirectory.files
      (Progress.follow g.setup (eachInTurn 3))
      (.ofDisk removedDirectory.disk) w' r ∧ removedDirectory.options.outputPath = none ∧
    ¬ LaidOut g.setup removedDirectory.files removedDirectory.disk w'.disk := by
  obtain ⟨g,r,w',hrun,hmissing⟩ := isSound_removedDirectory.exists_runs
    (List.cons_ne_nil _ _) (eachInTurn 3)
    (fun g => decide ((removedDirectory.standing g (eachInTurn 3)).world.disk.isDirectory
      ⟨.here,["+w","+w","+w"]⟩ = .ok false)) (by decide +kernel)
  rw [decide_eq_true_eq,← hrun.disk] at hmissing
  refine ⟨g,r,w',
    ⟨hrun.generator,rfl,Path.plain_ofString ".",(fun root hr => by cases hr),by decide +kernel,
    notLineEnd_of_all (by decide +kernel),isFileTree_of_formsTree (by decide +kernel),
      interleaves_follow _ _,
    hrun.found,List.cons_ne_nil _ _,hrun.run_follow⟩,rfl,fun hlaid => ?_⟩
  have hused : Uses g.setup removedDirectory.files ⟨.here,["+w","+w","+w"]⟩ :=
    uses_iff.2 (by rw [hrun.directories]; exact List.mem_cons_self)
  have hthere := isDirectory_eq_true.2 ⟨_,hlaid.there _ hused⟩
  rw [hmissing] at hthere
  cases hthere

theorem leftDirectory_unlaid : ∃ g r w',
    BasicRun [] leftDirectory.options g leftDirectory.files (Progress.follow g.setup (eachInTurn 2))
      (.ofDisk leftDirectory.disk) w' r ∧ leftDirectory.options.outputPath = none ∧
    ¬ LaidOut g.setup leftDirectory.files leftDirectory.disk w'.disk := by
  obtain ⟨g,r,w',hrun,hcheck⟩ := isSound_leftDirectory.exists_runs
    (List.cons_ne_nil _ _) (eachInTurn 2)
    (fun g => givesTo g.setup leftDirectory.disk leftDirectory.files
      ⟨.here,["..",".work","hooks"]⟩ "useBQuery" &&
      decide ((leftDirectory.standing g (eachInTurn 2)).world.disk.tree.get?
          (indexPlace g.setup.index leftDirectory.disk ⟨.here,["..",".work","hooks"]⟩) =
        some (.file (Text.encode "export * from './useAQuery';\n") false))) (by decide +kernel)
  simp only [Bool.and_eq_true,decide_eq_true_eq] at hcheck
  obtain ⟨hgives,hindex⟩ := hcheck
  rw [← hrun.disk] at hindex
  exact ⟨g,r,w',
    ⟨hrun.generator,rfl,Path.plain_ofString ".",(fun root hr => by cases hr),by decide +kernel,
    notLineEnd_of_all (by decide +kernel),isFileTree_of_formsTree (by decide +kernel),
      interleaves_follow _ _,
    hrun.found,List.cons_ne_nil _ _,hrun.run_follow⟩,rfl,
    not_laidOut_of_unlisted (c := 'B') (fills_of_givesTo hgives) (by decide) (by decide)
      (by decide) hindex⟩

/-- Hooks that go to a directory by way of one that is not there. -/
def behindMissing : Trial where
  disk := leftHook
  options := { HookOptions.standard with
    root := .ofString "new/..", pattern := "/src/**/*.graphql", outputRoot := some "hooks" }
  files := [⟨.root,["src","a","A.graphql"]⟩]
  directories := [⟨.here,["new","..","hooks"]⟩]

theorem isSound_behindMissing : behindMissing.IsSound := Trial.isSound_of_checks (by decide +kernel)

theorem behindMissing_unlaid : ∃ g r w',
    BasicRun [] behindMissing.options g behindMissing.files (Progress.follow g.setup (eachInTurn 1))
      (.ofDisk behindMissing.disk) w' r ∧
    InOrder behindMissing.disk (g.outputDirectories behindMissing.files) ∧
    ¬ LaidOut g.setup behindMissing.files behindMissing.disk w'.disk := by
  obtain ⟨g,r,w',hrun,hcheck⟩ := isSound_behindMissing.exists_runs
    (List.cons_ne_nil _ _) (eachInTurn 1)
    (fun g => !goesTo g.setup leftHook behindMissing.files ["hooks","old.ts"] &&
      decide (indexPlace g.setup.index leftHook ⟨.here,["new","..","hooks"]⟩ ≠
        ["hooks","old.ts"]) &&
      decide ((behindMissing.standing g (eachInTurn 1)).world.disk.tree.get? ["hooks","old.ts"] =
        some (.file (Text.encode "// stale") false))) (by decide +kernel)
  simp only [Bool.and_eq_true,Bool.not_eq_true',decide_eq_true_eq] at hcheck
  obtain ⟨⟨hmodule,hindex⟩,hstale⟩ := hcheck
  rw [← hrun.disk] at hstale
  have hused : ∀ other, Uses g.setup behindMissing.files other ↔
      other = ⟨.here,["new","..","hooks"]⟩ :=
    fun other => by rw [uses_iff,hrun.directories]; exact List.mem_singleton
  have hbelow : Tree.isBelow (placeOf behindMissing.disk ⟨.here,["new","..","hooks"]⟩)
      ["hooks","old.ts"] = true := by
    decide +kernel
  refine ⟨g,r,w',
    ⟨hrun.generator,rfl,Path.plain_ofString "new/..",fun root hr => ?_,by decide +kernel,
    notLineEnd_of_all (by decide +kernel),isFileTree_of_formsTree (by decide +kernel),
      interleaves_follow _ _,
    hrun.found,List.cons_ne_nil _ _,hrun.run_follow⟩,?_,
    not_laidOut_of_stray ((hused _).2 rfl) hbelow hstale hmodule fun other hu => ?_⟩
  · obtain rfl := Option.some.inj hr
    decide +kernel
  · rw [hrun.directories]
    exact List.pairwise_singleton _ _
  · rw [(hused other).1 hu]
    exact hindex.symm

/-- No condition on the output directories can be left out: not that each has one name, not that
none is made anew before one above it, and not that the path to a single one leads through
directories. -/
theorem output_unlaid :
    (∃ g r w',
        BasicRun [] leftDirectory.options g leftDirectory.files
        (Progress.follow g.setup (eachInTurn 2))
        (.ofDisk leftDirectory.disk) w' r ∧ leftDirectory.options.outputPath = none ∧
      ¬ LaidOut g.setup leftDirectory.files leftDirectory.disk w'.disk) ∧
    (∃ g r w', BasicRun [] removedDirectory.options g removedDirectory.files
        (Progress.follow g.setup (eachInTurn 3)) (.ofDisk removedDirectory.disk) w' r ∧
      removedDirectory.options.outputPath = none ∧
      ¬ LaidOut g.setup removedDirectory.files removedDirectory.disk w'.disk) ∧
    ∃ g r w',
        BasicRun [] behindMissing.options g behindMissing.files
        (Progress.follow g.setup (eachInTurn 1))
        (.ofDisk behindMissing.disk) w' r ∧
      InOrder behindMissing.disk (g.outputDirectories behindMissing.files) ∧
      ¬ LaidOut g.setup behindMissing.files behindMissing.disk w'.disk :=
  ⟨leftDirectory_unlaid,removedDirectory_unlaid,behindMissing_unlaid⟩

end OperationHooks.Run
