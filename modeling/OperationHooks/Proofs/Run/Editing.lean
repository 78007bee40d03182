import OperationHooks.Proofs.Run.SideBySide
/-!
Runs before and after one definition file is edited. They part only in the entry for that file, in
its module, and in its line in the index beside it.
-/
set_option autoImplicit false

namespace OperationHooks.Run
open Effect Disk Index

/-- Two runs with the same options, by the built-in formatter, before an edit and after it. -/
structure EditedRuns (env : Format.Environment) (o : HookOptions) (g : HookGenerator)
    (files : List Path)
    (c : Place) (steps steps' : List Nat) (d d' : Disk) (r r' : Report) (w w' : World) : Prop where
  generator : HookGenerator.ofOptions env d o = .ok g
  basic : o.formatters.toList = ["basic"]
  root : o.root.Plain
  slash : '/' ∉ o.namePrefix.toList
  ends : ∀ c ∈ o.namePrefix.toList, Text.isLineEnd c = false
  tree : IsFileTree d
  closed : Closed d.tree
  found : g.discover d = .ok files
  edit : Edit g files c d d'
  first : run (g.run (Progress.follow g.setup steps)) (.ofDisk d) = (.ok r,w)
  second : run (g.run (Progress.follow g.setup steps')) (.ofDisk d') = (.ok r',w')

/-- What a run leaves before an edit of the file at a place, and one after it. They part in the
entry for that file, in its module, and in the index beside it. -/
structure Parted (s : Setup) (files : List Path) (c : Place) (steps steps' : List Nat) (d d' : Disk)
    (r r' : Report) (e e' : Disk) : Prop where
  listed : r = listing files.length
    (entriesFor s d (others d c files) ++ entriesFor s d (own d c files)) r.indexes
  listed' : r' = listing files.length
    (entriesFor s d (others d c files) ++ entriesFor s d' (own d c files)) r'.indexes
  written : r'.indexes.filter (· ∉ ownIndexes s d c files) =
    r.indexes.filter (· ∉ ownIndexes s d c files)
  indexes : ∀ directory, Uses s files directory → ∃ names names',
    HasIndex e (indexPlace s.index d directory) names ∧
    HasIndex e' (indexPlace s.index d directory) names' ∧
    (∀ x, x ∈ names ↔ Fills s d (others d c files) directory x ∨
      Fills s d (own d c files) directory x) ∧
    (∀ x, x ∈ names' ↔ Fills s d (others d c files) directory x ∨
      Fills s d' (own d c files) directory x) ∧
    (¬ Uses s (own d c files) directory → names' = names)
  directory : ∀ p ∈ own d c files, ∀ q ∈ own d c files, s.hook.outputDirectory q =
    s.hook.outputDirectory p
  statement : ∀ directory x x', Fills s d (own d c files) directory x →
    Fills s d (own d c files) directory x' → x' = x
  statement' : ∀ directory x x', Fills s d' (own d c files) directory x →
    Fills s d' (own d c files) directory x' → x' = x
  elsewhere : ∀ q, q ≠ c →
    (∀ m, IsHooked s d (own d c files) m ∨ IsHooked s d' (own d c files) m →
      modulePlace s d m ≠ q) →
    (∀ directory, Uses s files directory → q ≠ indexPlace s.index d directory) →
    (steps' = steps ∨ ∀ m m', IsHooked s d (others d c files) m →
      IsHooked s d (others d c files) m' →
      modulePlace s d m = q → modulePlace s d m' = q → m' = m) →
    e'.tree.get? q = e.tree.get? q

section Two

variable {env : Format.Environment} {o : HookOptions} {g : HookGenerator} {files : List Path}
variable {steps steps' : List Nat} {c : Place} {d d' : Disk} {r r' : Report} {u u' : World}

theorem closed_edited (he : Edited c d d') (h : Closed d.tree) : Closed d'.tree := by
  intro q e hq r hr
  have hbefore : ∃ e, d.tree.get? q = some e := by
    by_cases hqc : q = c
    · subst hqc
      obtain ⟨bytes,executable,hb⟩ := he.before
      exact ⟨_,hb⟩
    · exact ⟨e,(he.elsewhere q hqc).symm.trans hq⟩
  obtain ⟨e,hq⟩ := hbefore
  exact (he.get?_iff (by simp)).2 (h q e hq r hr)

theorem founded_edited (he : Edited c d d') {p : Path} (h : Founded d p) : Founded d' p := by
  intro front rest hparts q hq
  rw [startOf_eq he.here] at hq
  exact (he.get?_iff (by simp)).2 (h front rest hparts q hq)

theorem EditedRuns.found_again (h : EditedRuns env o g files c steps steps' d d' r r' u u') :
    HookGenerator.ofOptions env d' o = .ok g ∧ g.discover d' = .ok files := by
  have hfollows := HookGenerator.follows_of_ofOptions h.generator
  have hoptions : g.options = o := by
    obtain ⟨_,_,_,rfl⟩ := hfollows
    rfl
  refine ⟨?_,(HookGenerator.discover_eq_ok hfollows).2 ?_⟩
  · rw [HookGenerator.ofOptions_edited h.edit.edited h.tree.linkFree (hoptions ▸ h.edit.config),
      h.generator]
  · exact discover_shape h.edit.edited.sameShape h.root h.tree.names
      ((HookGenerator.discover_eq_ok hfollows).1 h.found)

theorem EditedRuns.settles (h : EditedRuns env o g files c steps steps' d d' r r' u u')
    (hfounded : ∀ root, o.outputPath = some root → Founded d root)
    (horder : InOrder d (g.outputDirectories files)) :
    ∃ base base', Settles g files steps d base r u.toWorld ∧
    Settles g files steps' d' base' r' u'.toWorld := by
  obtain ⟨-,hfound'⟩ := h.found_again
  obtain ⟨hg,-,hroot,hslash,-,htree,hclosed,hfound,he,hfirst,hsecond⟩ := h
  have hfollows := HookGenerator.follows_of_ofOptions hg
  have hedited := he.edited
  have hne : files ≠ [] := by
    obtain ⟨p,hp,-⟩ := he.found
    exact List.ne_nil_of_mem hp
  have horder' : InOrder d' (g.outputDirectories files) := by
    simpa only [InOrder,placeOf_eq hedited.here] using horder
  obtain ⟨base,hs⟩ :=
    settles_of_run hroot hfollows hslash htree hclosed hfounded hfound hne horder hfirst
  obtain ⟨base',hs'⟩ := settles_of_run hroot hfollows hslash (hedited.isFileTree htree)
    (closed_edited hedited hclosed) (fun root hr => founded_edited hedited (hfounded root hr))
      hfound' hne horder'
    hsecond
  exact ⟨base,base',hs,hs'⟩

/-- Runs before and after an edit of one definition file part in what is its own. -/
theorem parted_of_edit (h : EditedRuns env o g files c steps steps' d d' r r' u u')
    (hfounded : ∀ root, o.outputPath = some root → Founded d root)
    (horder : InOrder d (g.outputDirectories files)) (ht : TemplatesApart g.setup d files) :
    HookGenerator.ofOptions env d' o = .ok g ∧ g.discover d' = .ok files ∧
      Parted g.setup files c steps steps' d d' r r' u.disk u'.disk := by
  obtain ⟨hg',hfound'⟩ := h.found_again
  obtain ⟨base,base',hs,hs'⟩ := h.settles hfounded horder
  obtain ⟨hg,hbasic,hroot,-,hends,htree,-,hfound,he,-,-⟩ := h
  have hfollows := HookGenerator.follows_of_ofOptions hg
  have hedited := he.edited
  have hplain := plain_of_discover (w := .ofDisk d) hroot hfollows htree.names hfound
  have hread : ∀ p ∈ files, ∃ bytes, d.read p = .ok bytes := fun p hp =>
    (mem_discover ((HookGenerator.discover_eq_ok hfollows).1 hfound) hp).2
  have hplans : ∀ p ∈ others d c files, plan g.setup d' p = plan g.setup d p :=
    plans_others hedited htree.linkFree hread
  have hentries :
      entriesFor g.setup d' (others d c files) = entriesFor g.setup d (others d c files) :=
    List.filterMap_congr fun p hp => by rw [hplans p hp]
  have hformat : ∀ d d' text, g.setup.hook.formatting d' text = g.setup.hook.formatting d text := by
    obtain ⟨style,-,hhook,-⟩ := HookGenerator.basic_of_ofOptions hg hbasic
    intro d d' text
    rw [hhook,Format.format_basic,Format.format_basic]
  refine ⟨hg',hfound',hs.listed hplain d c,hentries ▸ hs'.listed hplain d c,?_,
    fun directory hu => ?_,directory_own hfollows htree.linkFree hplain hread horder,
    fun _ _ _ => statement_own htree.linkFree rfl,
    fun _ _ _ => statement_own (hedited.linkFree htree.linkFree) hedited.here,
    fun q hq hmine hindex hsame => ?_⟩
  · exact hs.written hs' hplans (fun directory hu =>
      HookGenerator.plain_outputDirectories hroot hfollows hplain (uses_iff.1 hu))
  · exact hs.indexes hs' hedited hplans (fun base => keeps_of_basic hg hbasic hends base) hu
  · exact hs.elsewhere_edited hs' he hplans ht hformat hq hmine hindex hsame

end Two

structure EditTrial extends Trial where
  place : Place
  text : String

def makes (s : Setup) (d : Disk) (files : List Path) : Bool :=
  files.any fun p => match plan s d p with | .make _ => true | _ => false

section Trials

variable {files : List Path} {d : Disk} {s : Setup}

theorem not_fills_of_makes (h : makes s d files = false) (directory : Path) (x : String) :
    ¬ Fills s d files directory x := by
  rintro ⟨m,hm,-⟩
  obtain ⟨p,hp,hplan⟩ := isHooked_iff.1 hm
  have hp := List.any_eq_false.1 h p hp
  rw [hplan] at hp
  exact hp rfl

theorem exists_fills_of_makes (h : makes s d files = true) :
    ∃ directory x, Fills s d files directory x := by
  obtain ⟨p,hp,hmake⟩ := List.any_eq_true.1 h
  cases hplan : plan s d p with
  | make m => exact ⟨_,_,m,isHooked_iff.2 ⟨p,hp,hplan⟩,rfl,rfl⟩
  | report entry => rw [hplan] at hmake; cases hmake
  | fail => rw [hplan] at hmake; cases hmake

theorem templatesApart_of_isNone (h : s.hook.templates.isNone = true) :
    TemplatesApart s d files := by
  intro directory ht
  rw [ht] at h
  cases h

end Trials

namespace EditTrial

def edited (t : EditTrial) : Disk := t.disk.putAt t.place (.file (Text.encode t.text) false)

def again (t : EditTrial) : Trial := { t.toTrial with disk := t.edited }

def isEditable (t : EditTrial) : Bool :=
  !t.options.namePrefix.toList.contains '/' &&
    t.options.namePrefix.toList.all (fun c => !Text.isLineEnd c) &&
    formsTree t.disk.tree &&
    t.disk.tree.entries.all (fun (q,_) => (List.range q.length).all fun n =>
      t.disk.tree.get? (q.take n) == some .directory) &&
    (match t.disk.tree.get? t.place with | some (.file _ _) => true | _ => false) &&
    t.files.any (fun p => placeOf t.disk p == t.place) &&
    t.options.configPath.all fun path => placeOf t.disk path != t.place

def Runs (t : EditTrial) (g : HookGenerator) (steps steps' : List Nat) (r r' : Report)
    (w w' : World) : Prop :=
  EditedRuns [] t.options g t.files t.place steps steps' t.disk t.edited r r' w w'

variable {t : EditTrial}

theorem exists_runs (h : t.IsSound) (steps steps' : List Nat) (check : HookGenerator → Bool)
    (hbasic : t.options.formatters.toList = ["basic"]) (hroot : t.options.root.Plain)
    (hplace : t.place ≠ [])
    (heditable : t.isEditable = true)
    (hpass : passes (HookGenerator.ofOptions [] t.disk t.options)
      (fun g => t.comesThrough g steps &&
      (t.again.comesThrough g steps' &&
        g.setup.hook.templates.all
          (fun directory => !(placeOf t.disk directory).isPrefixOf t.place) &&
          check g)) = true) :
    ∃ g r r' w w', t.Runs g steps steps' r r' w w' ∧ g.outputDirectories t.files = t.directories ∧
      w.disk = (t.standing g steps).world.disk ∧ w'.disk = (t.again.standing g steps').world.disk ∧
      check g = true := by
  simp only [isEditable,Bool.and_eq_true,Bool.not_eq_true'] at heditable
  obtain ⟨⟨⟨⟨⟨⟨hslash,hends⟩,htree⟩,hclosed⟩,hfile⟩,hmem⟩,hconfig⟩ := heditable
  have hne : t.files ≠ [] := fun hnil => by rw [hnil] at hmem; cases hmem
  obtain ⟨g,r,w,hrun,hcheck⟩ := h.exists_runs hne steps _ hpass
  simp only [Bool.and_eq_true] at hcheck
  obtain ⟨⟨hthrough,htemplates⟩,hcheck⟩ := hcheck
  have hfollows := HookGenerator.follows_of_ofOptions hrun.generator
  have hoptions : g.options = t.options := by
    obtain ⟨_,_,_,rfl⟩ := hfollows
    rfl
  obtain ⟨bytes,executable,hfile⟩ : ∃ bytes executable, t.disk.tree.get? t.place =
    some (.file bytes executable) := by
    split at hfile
    · exact ⟨_,_,‹_›⟩
    · cases hfile
  have hedited : Edited t.place t.disk t.edited := .of_putAt hplace hfile _ _
  have hfiles := isFileTree_of_formsTree htree
  have hedit : Edit g t.files t.place t.disk t.edited := by
    refine ⟨hedited,by simpa using hmem,fun path hpath => ?_,fun directory hd hpre => ?_⟩
    · rw [hoptions] at hpath
      simpa [hpath] using hconfig
    · rw [hd] at htemplates
      simp [List.isPrefixOf_iff_prefix.2 hpre] at htemplates
  have hfound' : g.discover t.edited = .ok t.files := (HookGenerator.discover_eq_ok hfollows).2
    (discover_shape hedited.sameShape hroot hfiles.names h.found)
  obtain ⟨r',w',hrun',hdisk',-⟩ :=
    run_of_comesThrough (w := .ofDisk t.edited) hfound' hne hrun.directories hthrough
  have hsame : run (runBy g ⟨t.files,steps'⟩) (.ofDisk t.edited) =
      run (g.run (Progress.follow g.setup steps')) (.ofDisk t.edited) := run_runBy hfound'
  exact ⟨g,r,r',w,w',
    ⟨hrun.generator,hbasic,hroot,by simpa using hslash,notLineEnd_of_all hends,hfiles,
      closed_of_entries hclosed,hrun.found,hedit,hrun.run_follow,hsame ▸ hrun'⟩,
    hrun.directories,hrun.disk,hdisk',hcheck⟩

end EditTrial

def becomesQuery : EditTrial :=
  { besideFragment with place := ["src","a","F.graphql"], text := "query F { f }" }

theorem queryBesideFragment_parted : ∃ g r r' w w',
    becomesQuery.Runs g byTurns (eachInTurn 2) r r' w w' ∧ becomesQuery.edited ≠ becomesQuery.disk ∧
    (∀ root, becomesQuery.options.outputPath = some root → Founded becomesQuery.disk root) ∧
    InOrder becomesQuery.disk (g.outputDirectories becomesQuery.files) ∧
    TemplatesApart g.setup becomesQuery.disk becomesQuery.files ∧
    Parted g.setup becomesQuery.files becomesQuery.place byTurns (eachInTurn 2) becomesQuery.disk
      becomesQuery.edited r r' w.disk w'.disk := by
  obtain ⟨g,r,r',w,w',hruns,hdirs,-,-,htemplates⟩ := EditTrial.exists_runs (t := becomesQuery)
    isSound_besideFragment byTurns (eachInTurn 2) (fun g => g.setup.hook.templates.isNone)
    rfl (Path.plain_ofString ".") (by simp [becomesQuery]) (by decide +kernel) (by decide +kernel)
  have hfounded : ∀ root, becomesQuery.options.outputPath = some root →
      Founded becomesQuery.disk root :=
    fun root hr => by cases hr
  have horder : InOrder becomesQuery.disk (g.outputDirectories becomesQuery.files) := by
    rw [hdirs]; exact List.pairwise_singleton _ _
  have hapart : TemplatesApart g.setup becomesQuery.disk becomesQuery.files :=
    templatesApart_of_isNone htemplates
  have hne : becomesQuery.edited ≠ becomesQuery.disk := fun h => by
    have hget := congrArg (fun d => d.tree.get? becomesQuery.place) h
    revert hget
    decide +kernel
  exact ⟨g,r,r',w,w',hruns,hne,hfounded,horder,hapart,
    (parted_of_edit hruns hfounded horder hapart).2.2⟩

/-- The index of a directory lists one name before the edit, and after it another one, which the
edited file does not give. -/
def ReplacesIndex (s : Setup) (files : List Path) (c : Place) (d d' e e' : Disk) : Prop :=
  ∃ directory x y, Uses s files directory ∧ y ≠ x ∧
    (∀ other, ¬ Fills s d' (own d c files) other y) ∧
    e.tree.get? (indexPlace s.index d directory) =
      some (.file (Text.encode (statement x ++ "\n")) false) ∧
    e'.tree.get? (indexPlace s.index d directory) =
      some (.file (Text.encode (statement y ++ "\n")) false)

def ReplacesFile (s : Setup) (files : List Path) (c : Place) (d d' e e' : Disk) : Prop :=
  ∃ q, q ≠ c ∧
    (∀ m, IsHooked s d (own d c files) m ∨ IsHooked s d' (own d c files) m →
      modulePlace s d m ≠ q) ∧
    (∀ directory, Uses s files directory → q ≠ indexPlace s.index d directory) ∧
    e'.tree.get? q ≠ e.tree.get? q

/-- A place is that of no index, and of no module of the edited file. -/
def spares (g : HookGenerator) (d d' : Disk) (files directories : List Path) (c q : Place) : Bool :=
  q != c && !goesTo g.setup d (own d c files) q && !goesTo g.setup d' (own d c files) q &&
    directories.all fun directory => q != indexPlace g.setup.index d directory

theorem replacesFile_of_spares {g : HookGenerator} {files directories : List Path} {c q : Place}
    {d d' e e' : Disk}
    (hdirs : g.outputDirectories files = directories) (hhere : d'.here = d.here)
    (h : spares g d d' files directories c q = true) (hother : e'.tree.get? q ≠ e.tree.get? q) :
    ReplacesFile g.setup files c d d' e e' := by
  simp only [spares,Bool.and_eq_true,Bool.not_eq_true',bne_iff_ne] at h
  obtain ⟨⟨⟨hq,hmine⟩,hmine'⟩,hindex⟩ := h
  refine ⟨q,hq,fun m hm => ?_,fun directory hu => ?_,hother⟩
  · rcases hm with hm | hm
    · exact goesTo_eq_false hmine m hm
    · rw [modulePlace,← placeOf_eq hhere]
      exact goesTo_eq_false hmine' m hm
  · have hd := List.all_eq_true.1 hindex directory (hdirs ▸ uses_iff.1 hu)
    simpa using hd

def becomesFragment : EditTrial := { besideFragment with
  place := ["src","a","A.graphql"], text := "fragment A on T { f }" }

theorem edit_changes_indexes : ∃ g r r' w w',
    becomesFragment.Runs g (eachInTurn 2) (eachInTurn 2) r r' w w' ∧
    (∀ root, becomesFragment.options.outputPath = some root → Founded becomesFragment.disk root) ∧
    InOrder becomesFragment.disk (g.outputDirectories becomesFragment.files) ∧
    TemplatesApart g.setup becomesFragment.disk becomesFragment.files ∧ r'.indexes ≠ r.indexes := by
  obtain ⟨g,r,r',w,w',hruns,hdirs,-,-,hcheck⟩ := EditTrial.exists_runs (t := becomesFragment)
    isSound_besideFragment (eachInTurn 2) (eachInTurn 2)
    (fun g => g.setup.hook.templates.isNone &&
      makes g.setup becomesFragment.disk becomesFragment.files &&
      !makes g.setup becomesFragment.edited becomesFragment.files)
    rfl (Path.plain_ofString ".") (by simp [becomesFragment]) (by decide +kernel)
      (by decide +kernel)
  simp only [Bool.and_eq_true,Bool.not_eq_true'] at hcheck
  obtain ⟨⟨htemplates,hmakes⟩,hnone⟩ := hcheck
  have hfounded : ∀ root, becomesFragment.options.outputPath = some root →
      Founded becomesFragment.disk root :=
    fun root hr => by cases hr
  have horder : InOrder becomesFragment.disk (g.outputDirectories becomesFragment.files) := by
    rw [hdirs]; exact List.pairwise_singleton _ _
  have hapart : TemplatesApart g.setup becomesFragment.disk becomesFragment.files :=
    templatesApart_of_isNone htemplates
  obtain ⟨base,base',hs,hs'⟩ := EditedRuns.settles hruns hfounded horder
  refine ⟨g,r,r',w,w',hruns,hfounded,horder,hapart,fun heq => ?_⟩
  rw [hs'.indexes_eq_nil_iff.2 (not_fills_of_makes hnone)] at heq
  obtain ⟨directory,x,hx⟩ := exists_fills_of_makes hmakes
  exact hs.indexes_eq_nil_iff.1 heq.symm directory x hx

/-- A query that becomes a fragment, where an earlier run has left an index in a directory that is
reached by way of one that is not there. -/
def staleIndex : EditTrial where
  disk := {
    here := []
    tree := ⟨[(["src"],.directory),(["src","a"],.directory),
      (["src","a","A.graphql"],.file (Text.encode "query A { a }") false),(["out"],.directory),
      (["out","index.ts"],.file (Text.encode "export * from './useOld';\n") false),
      (["t"],.directory),(["t","query.j2"],.file (Text.encode "// X") false)]⟩ }
  options := { HookOptions.standard with outputRoot := some "nope/../out", templates := some "t" }
  files := [⟨.here,["src","a","A.graphql"]⟩]
  directories := [⟨.here,["nope","..","out"]⟩]
  place := ["src","a","A.graphql"]
  text := "fragment A on T { f }"

theorem stale_index_replaced : ∃ g r r' w w',
    staleIndex.Runs g (eachInTurn 1) (eachInTurn 1) r r' w w' ∧
    InOrder staleIndex.disk (g.outputDirectories staleIndex.files) ∧
    TemplatesApart g.setup staleIndex.disk staleIndex.files ∧
    ReplacesIndex g.setup staleIndex.files staleIndex.place staleIndex.disk staleIndex.edited
      w.disk w'.disk := by
  obtain ⟨g,r,r',w,w',hruns,hdirs,hdisk,hdisk',hcheck⟩ := EditTrial.exists_runs (t := staleIndex)
    (Trial.isSound_of_checks (by decide +kernel)) (eachInTurn 1) (eachInTurn 1)
    (fun g => g.setup.hook.templates == some ⟨.here,["t"]⟩ &&
      !makes g.setup staleIndex.edited (own staleIndex.disk staleIndex.place staleIndex.files) &&
      staleIndex.indexAfter g (eachInTurn 1) ⟨.here,["nope","..","out"]⟩ ==
        some (.file (Text.encode (statement "useAQuery" ++ "\n")) false) &&
      staleIndex.again.indexAfter g (eachInTurn 1) ⟨.here,["nope","..","out"]⟩ ==
        some (.file (Text.encode (statement "useOld" ++ "\n")) false))
    rfl (Path.plain_ofString ".") (by simp [staleIndex]) (by decide +kernel) (by decide +kernel)
  simp only [Bool.and_eq_true,Bool.not_eq_true',beq_iff_eq] at hcheck
  obtain ⟨⟨⟨htemplates,hnone⟩,hx⟩,hy⟩ := hcheck
  have horder : InOrder staleIndex.disk (g.outputDirectories staleIndex.files) := by
    rw [hdirs]; exact List.pairwise_singleton _ _
  have hapart : TemplatesApart g.setup staleIndex.disk staleIndex.files :=
    templatesApart_of_outputDirectories htemplates (by rw [hdirs]; decide +kernel)
  exact ⟨g,r,r',w,w',hruns,horder,hapart,⟨.here,["nope","..","out"]⟩,"useAQuery","useOld",
    uses_iff.2 (by rw [hdirs]; exact List.mem_singleton_self _),by decide,
    fun other => not_fills_of_makes hnone other _,by rw [hdisk]; exact hx,by rw [hdisk']; exact hy⟩

def renamedDirectory : EditTrial := { leftDirectory with
  place := ["c",".work",".w","A.graphql"], text := "fragment A on T { f }" }

theorem renamed_index_replaced : ∃ g r r' w w',
    renamedDirectory.Runs g (eachInTurn 2) (eachInTurn 2) r r' w w' ∧
    (∀ root, renamedDirectory.options.outputPath = some root → Founded renamedDirectory.disk root) ∧
    TemplatesApart g.setup renamedDirectory.disk renamedDirectory.files ∧
    ReplacesIndex g.setup renamedDirectory.files renamedDirectory.place renamedDirectory.disk
      renamedDirectory.edited w.disk w'.disk := by
  obtain ⟨g,r,r',w,w',hruns,hdirs,hdisk,hdisk',hcheck⟩ := EditTrial.exists_runs
    (t := renamedDirectory)
    isSound_leftDirectory (eachInTurn 2) (eachInTurn 2)
    (fun g => g.setup.hook.templates == some ⟨.here,[".t"]⟩ &&
      !makes g.setup renamedDirectory.edited
        (own renamedDirectory.disk renamedDirectory.place renamedDirectory.files) &&
      renamedDirectory.indexAfter g (eachInTurn 2) ⟨.here,["hooks"]⟩ ==
        some (.file (Text.encode (statement "useAQuery" ++ "\n")) false) &&
      renamedDirectory.again.indexAfter g (eachInTurn 2) ⟨.here,["hooks"]⟩ ==
        some (.file (Text.encode (statement "useBQuery" ++ "\n")) false))
    rfl (Path.plain_ofString ".") (by simp [renamedDirectory]) (by decide +kernel)
      (by decide +kernel)
  simp only [Bool.and_eq_true,Bool.not_eq_true',beq_iff_eq] at hcheck
  obtain ⟨⟨⟨htemplates,hnone⟩,hx⟩,hy⟩ := hcheck
  have hapart : TemplatesApart g.setup renamedDirectory.disk renamedDirectory.files :=
    templatesApart_of_outputDirectories htemplates (by rw [hdirs]; decide +kernel)
  exact ⟨g,r,r',w,w',hruns,(fun root hr => by cases hr),hapart,⟨.here,["hooks"]⟩,
    "useAQuery","useBQuery",
    uses_iff.2 (by rw [hdirs]; exact List.mem_cons_of_mem _ (List.mem_singleton_self _)),by decide,
    fun other => not_fills_of_makes hnone other _,by rw [hdisk]; exact hx,by rw [hdisk']; exact hy⟩

def includingBeside : EditTrial where
  disk := {
    here := []
    tree := ⟨[(["src"],.directory),(["src","a"],.directory),
      (["src","a","X.graphql"],.file (Text.encode "mutation X { x }") false),
      (["src","b"],.directory),(["src","b","A.graphql"],.file (Text.encode "query A { a }") false),
      (["t"],.directory),
      (["t","query.j2"],
        .file (Text.encode "\x7b% include 'gen/useXMutation.ts' ignore missing %\x7d") false),
      (["t","mutation.j2"],.file (Text.encode "// X") false)]⟩ }
  options := { HookOptions.standard with outputRoot := some "t/gen", templates := some "t" }
  files := [⟨.here,["src","a","X.graphql"]⟩,⟨.here,["src","b","A.graphql"]⟩]
  directories := [⟨.here,["t","gen"]⟩]
  place := ["src","a","X.graphql"]
  text := "fragment X on T { x }"

theorem included_module_replaced : ∃ g r r' w w',
    includingBeside.Runs g (eachInTurn 2) (eachInTurn 2) r r' w w' ∧
    (∀ root, includingBeside.options.outputPath = some root → Founded includingBeside.disk root) ∧
    InOrder includingBeside.disk (g.outputDirectories includingBeside.files) ∧
    ReplacesFile g.setup includingBeside.files includingBeside.place includingBeside.disk
      includingBeside.edited
      w.disk w'.disk := by
  obtain ⟨g,r,r',w,w',hruns,hdirs,hdisk,hdisk',hcheck⟩ := EditTrial.exists_runs
    (t := includingBeside)
    (Trial.isSound_of_checks (by decide +kernel)) (eachInTurn 2) (eachInTurn 2)
    (fun g => spares g includingBeside.disk includingBeside.edited includingBeside.files
        includingBeside.directories includingBeside.place ["t","gen","useAQuery.ts"] &&
      (includingBeside.again.standing g (eachInTurn 2)).world.disk.tree.get? ["t","gen",
        "useAQuery.ts"] !=
        (includingBeside.standing g (eachInTurn 2)).world.disk.tree.get? ["t","gen","useAQuery.ts"])
    rfl (Path.plain_ofString ".") (by simp [includingBeside]) (by decide +kernel)
      (by decide +kernel)
  simp only [Bool.and_eq_true,bne_iff_ne] at hcheck
  obtain ⟨hspares,hother⟩ := hcheck
  have hfounded : ∀ root, includingBeside.options.outputPath = some root →
      Founded includingBeside.disk root :=
    fun root hr => by
      obtain rfl := Option.some.inj hr
      exact founded_of_upright ⟨0,_,rfl,by decide +kernel⟩
  have horder : InOrder includingBeside.disk (g.outputDirectories includingBeside.files) := by
    rw [hdirs]; exact List.pairwise_singleton _ _
  exact ⟨g,r,r',w,w',hruns,hfounded,horder,
    replacesFile_of_spares hdirs rfl hspares (by rw [hdisk,hdisk']; exact hother)⟩

def sharedModule : EditTrial where
  disk := {
    here := []
    tree := ⟨[(["src"],.directory),(["src","a"],.directory),
      (["src","a","X.graphql"],.file (Text.encode "query X { a }") false),(["src","b"],.directory),
      (["src","b","X.graphql"],.file (Text.encode "query X($v: Int) { b }") false),
      (["src","c"],.directory),
      (["src","c","F.graphql"],.file (Text.encode "fragment F on T { f }") false),
      (["t"],.directory),(["t","query.j2"],.file (Text.encode "// X") false),
      (["t","query_variables.j2"],.file (Text.encode "// Y") false)]⟩ }
  options := { HookOptions.standard with templates := some "t" }
  files := [⟨.here,["src","a","X.graphql"]⟩,⟨.here,["src","b","X.graphql"]⟩,
    ⟨.here,["src","c","F.graphql"]⟩]
  directories := [⟨.here,["src","hooks"]⟩]
  place := ["src","c","F.graphql"]
  text := "fragment F on T { g }"

def secondFirst : List Nat := oneByOne 1 0 ++ eachInTurn 3

theorem shared_module_replaced : ∃ g r r' w w',
    sharedModule.Runs g (eachInTurn 3) secondFirst r r' w w' ∧
    (∀ root, sharedModule.options.outputPath = some root → Founded sharedModule.disk root) ∧
    InOrder sharedModule.disk (g.outputDirectories sharedModule.files) ∧
    TemplatesApart g.setup sharedModule.disk sharedModule.files ∧
    ReplacesFile g.setup sharedModule.files sharedModule.place sharedModule.disk sharedModule.edited
      w.disk w'.disk := by
  obtain ⟨g,r,r',w,w',hruns,hdirs,hdisk,hdisk',hcheck⟩ := EditTrial.exists_runs (t := sharedModule)
    (Trial.isSound_of_checks (by decide +kernel)) (eachInTurn 3) secondFirst
    (fun g => g.setup.hook.templates == some ⟨.here,["t"]⟩ &&
      spares g sharedModule.disk sharedModule.edited sharedModule.files sharedModule.directories
        sharedModule.place ["src","hooks","useXQuery.ts"] &&
      (sharedModule.again.standing g secondFirst).world.disk.tree.get? ["src","hooks",
        "useXQuery.ts"] !=
        (sharedModule.standing g (eachInTurn 3)).world.disk.tree.get?
          ["src","hooks","useXQuery.ts"])
    rfl (Path.plain_ofString ".") (by simp [sharedModule]) (by decide +kernel) (by decide +kernel)
  simp only [Bool.and_eq_true,bne_iff_ne,beq_iff_eq] at hcheck
  obtain ⟨⟨htemplates,hspares⟩,hother⟩ := hcheck
  have hfounded : ∀ root, sharedModule.options.outputPath = some root →
      Founded sharedModule.disk root :=
    fun root hr => by cases hr
  have horder : InOrder sharedModule.disk (g.outputDirectories sharedModule.files) := by
    rw [hdirs]; exact List.pairwise_singleton _ _
  have hapart : TemplatesApart g.setup sharedModule.disk sharedModule.files :=
    templatesApart_of_outputDirectories htemplates (by rw [hdirs]; decide +kernel)
  exact ⟨g,r,r',w,w',hruns,hfounded,horder,hapart,
    replacesFile_of_spares hdirs rfl hspares (by rw [hdisk,hdisk']; exact hother)⟩

/-- An edit of one definition file shows in the list of indexes, which goes by the directories that
got modules. It shows elsewhere where an output directory keeps what was there, or has two names,
where a template includes a module, and where another schedule gives the last word on a shared
module to another definition. -/
theorem edit_shows_elsewhere :
    (∃ g r r' w w', becomesFragment.Runs g (eachInTurn 2) (eachInTurn 2) r r' w w' ∧
      (∀ root, becomesFragment.options.outputPath = some root → Founded becomesFragment.disk root) ∧
      InOrder becomesFragment.disk (g.outputDirectories becomesFragment.files) ∧
      TemplatesApart g.setup becomesFragment.disk becomesFragment.files ∧ r'.indexes ≠ r.indexes) ∧
    (∃ g r r' w w', staleIndex.Runs g (eachInTurn 1) (eachInTurn 1) r r' w w' ∧
      InOrder staleIndex.disk (g.outputDirectories staleIndex.files) ∧
      TemplatesApart g.setup staleIndex.disk staleIndex.files ∧
      ReplacesIndex g.setup staleIndex.files staleIndex.place staleIndex.disk
        staleIndex.edited w.disk w'.disk) ∧
    (∃ g r r' w w', renamedDirectory.Runs g (eachInTurn 2) (eachInTurn 2) r r' w w' ∧
      (∀ root, renamedDirectory.options.outputPath = some root →
        Founded renamedDirectory.disk root) ∧
      TemplatesApart g.setup renamedDirectory.disk renamedDirectory.files ∧
      ReplacesIndex g.setup renamedDirectory.files renamedDirectory.place renamedDirectory.disk
        renamedDirectory.edited w.disk w'.disk) ∧
    (∃ g r r' w w', includingBeside.Runs g (eachInTurn 2) (eachInTurn 2) r r' w w' ∧
      (∀ root, includingBeside.options.outputPath = some root → Founded includingBeside.disk root) ∧
      InOrder includingBeside.disk (g.outputDirectories includingBeside.files) ∧
      ReplacesFile g.setup includingBeside.files includingBeside.place includingBeside.disk
        includingBeside.edited w.disk w'.disk) ∧
    ∃ g r r' w w', sharedModule.Runs g (eachInTurn 3) secondFirst r r' w w' ∧
      (∀ root, sharedModule.options.outputPath = some root → Founded sharedModule.disk root) ∧
      InOrder sharedModule.disk (g.outputDirectories sharedModule.files) ∧
      TemplatesApart g.setup sharedModule.disk sharedModule.files ∧
      ReplacesFile g.setup sharedModule.files sharedModule.place sharedModule.disk
        sharedModule.edited
        w.disk w'.disk :=
  ⟨edit_changes_indexes,stale_index_replaced,renamed_index_replaced,included_module_replaced,
    shared_module_replaced⟩

end OperationHooks.Run
