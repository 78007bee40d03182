import Mathlib.Data.List.Nodup
import OperationHooks.Proofs.Glob.Listing
import OperationHooks.Proofs.Hook
import OperationHooks.Proofs.Index.Batch
import OperationHooks.Proofs.Index.Text
import OperationHooks.Proofs.Template.Formatted
import OperationHooks.Run.Schema
/-!
Runs that write the index of a directory of schema modules. The index lists the files of the
directory with the right extension, itself apart; it is all that is written, and so writing it again
changes nothing.
-/
set_option autoImplicit false

namespace OperationHooks.SchemaIndexer
open Effect Disk Index

def reportFor (x : SchemaIndexer) (files : List Path) : Report :=
  { Report.empty with
    phase := .done
    discovered := files.length
    generated := files.map (·.text)
    indexes := [(x.index.indexPath x.directory).text] }

section Course

variable {x : SchemaIndexer} {w w' : Run.World} {d' : Disk} {files : List Path} {r : Report}

theorem run_onIndexes {α : Type} (work : Index.Work α) (w : Run.World) :
    Effect.run (Run.Work.onIndexes work) w =
    ((Effect.run work w.toWorld).1,{ w with toWorld := (Effect.run work w.toWorld).2 }) := by
  unfold Run.Work.onIndexes
  simp only [run_bind,run_get]
  rfl

theorem run_forM_onIndexes {α : Type} (work : α → Index.Work Unit) (xs : List α) (w : Run.World) :
    Effect.run (xs.forM fun a => Run.Work.onIndexes (work a)) w =
      ((Effect.run (xs.forM work) w.toWorld).1,
        { w with toWorld := (Effect.run (xs.forM work) w.toWorld).2 }) := by
  induction xs generalizing w with
  | nil => rfl
  | cons a rest ih =>
    show Effect.run (Run.Work.onIndexes (work a) >>= fun _ => rest.forM
      fun a => Run.Work.onIndexes (work a)) w =
      ((Effect.run (work a >>= fun _ => rest.forM work) w.toWorld).1,
        { w with toWorld := (Effect.run (work a >>= fun _ => rest.forM work) w.toWorld).2 })
    simp only [run_bind,run_onIndexes]
    cases Effect.run (work a) w.toWorld with
    | mk result inner =>
      cases result with
      | error fault => rfl
      | ok u => exact ih _

theorem disk_of_run (h : ∀ files, x.modules w.disk = .ok files → files = []) :
    (Effect.run x.run w).2.disk = w.disk := by
  unfold SchemaIndexer.run
  simp only [run_bind,run_modify,setPhase,Run.Work.report,run_get,run_lift]
  cases hm : x.modules w.disk with
  | error fault => rfl
  | ok files =>
    obtain rfl := h files hm
    simp only [List.isEmpty_nil,if_true,run_bind,run_modify,Run.Work.note,run_get,run_pure]
    rfl

def callsOf (x : SchemaIndexer) (files : List Path) : List (Path × String) :=
  (files.map Path.stem).map fun stem => (x.directory,stem)

theorem run_of_modules (hm : x.modules w.disk = .ok files) (hne : files ≠ []) :
    ∃ start : Index.World, start.disk = w.disk ∧ start.indexes = [] ∧ ∀ r d',
      (∃ w', Effect.run x.run w = (.ok r,w') ∧ w'.disk = d') ↔
        ∃ paths inner, Effect.run (collect x.index (x.callsOf files)) start = (.ok paths,inner) ∧
          r = { x.reportFor files with indexes := (written x.index inner.indexes).map (·.text) } ∧
          inner.disk = d' := by
  have hempty : files.isEmpty = false := by simpa using hne
  let start : Index.World := ⟨w.disk,[],w.log ++ [⟨.info,"Generating index file..."⟩]⟩
  have hregister : registerAll x.index (x.callsOf files) =
      files.forM fun file => register x.index x.directory file.stem := by
    simp only [registerAll,callsOf,List.forM_eq_forM,List.forM_map]
  refine ⟨start,rfl,rfl,fun r d' => ?_⟩
  rw [collect,hregister]
  unfold SchemaIndexer.run
  simp only [run_bind,run_modify,setPhase,Run.Work.report,run_get,run_lift,hm,hempty,
    Bool.false_eq_true,
    if_false,Run.Work.note,run_forM_onIndexes,run_onIndexes,Run.World.note,Index.World.note]
  rw [show (⟨w.disk,[],w.log ++ [⟨.info,"Generating index file..."⟩]⟩ : Index.World) =
    start from rfl]
  cases Effect.run (files.forM fun file => register x.index x.directory file.stem) start with
  | mk result inner =>
    cases result with
    | error fault => simp
    | ok u =>
      dsimp only
      cases Effect.run (flushAll x.index) inner with
      | mk flushed last =>
        cases flushed with
        | error fault => simp
        | ok paths =>
          simp only [run_pure]
          constructor
          · rintro ⟨w',he,rfl⟩
            obtain ⟨hresult,rfl⟩ := Prod.mk.inj he
            exact ⟨paths,last,rfl,(Except.ok.inj hresult).symm,rfl⟩
          · rintro ⟨_,_,he,rfl,rfl⟩
            obtain ⟨-,rfl⟩ := Prod.mk.inj he
            exact ⟨_,rfl,rfl⟩

theorem discovered_of_run (h : Effect.run x.run w = (.ok r,w')) :
    ∃ files, x.modules w.disk = .ok files ∧ r.discovered = files.length := by
  cases hm : x.modules w.disk with
  | error fault =>
    unfold SchemaIndexer.run at h
    simp only [run_bind,run_modify,setPhase,Run.Work.report,run_get,run_lift,hm] at h
    cases h
  | ok files =>
    refine ⟨files,rfl,?_⟩
    by_cases hne : files = []
    · subst hne
      unfold SchemaIndexer.run at h
      simp only [run_bind,run_modify,setPhase,Run.Work.report,run_get,run_lift,hm,
        List.isEmpty_nil,if_true,
        Run.Work.note,run_pure] at h
      rw [← Except.ok.inj (Prod.mk.inj h).1]
      rfl
    · obtain ⟨start,-,-,hrun⟩ := run_of_modules hm hne
      obtain ⟨-,-,-,rfl,-⟩ := (hrun r w'.disk).1 ⟨w',h,rfl⟩
      rfl

/-- Where the modules have different stems a run that has found some gives its report if the index
can be written. -/
theorem run_iff_indexed (hm : x.modules w.disk = .ok files) (hne : files ≠ [])
    (hbatch : x.index.batch = true)
    (hstems : (files.map Path.stem).Nodup) :
    (∃ w', Effect.run x.run w = (.ok r,w') ∧ w'.disk = d') ↔
      r = x.reportFor files ∧ Indexed x.index x.directory (files.map Path.stem) w.disk d' := by
  have hne' : files.map Path.stem ≠ [] := by simpa using hne
  obtain ⟨start,hdisk,hindexes,hrun⟩ := run_of_modules hm hne
  rw [hrun r d',← hdisk,← collect_one hindexes hbatch hne' hstems]
  have hreport :
      ∀ {paths inner}, Effect.run (collect x.index (x.callsOf files)) start = (.ok paths,inner) →
      { x.reportFor files with indexes := (written x.index inner.indexes).map (·.text) } =
        x.reportFor files := fun hr => by
    rw [written_collect hindexes hr,callsOf,sorted_single x.directory hne']
    rfl
  constructor
  · rintro ⟨paths,inner,hr,rfl,rfl⟩
    exact ⟨hreport hr,paths,inner,hr,rfl⟩
  · rintro ⟨rfl,paths,inner,hr,rfl⟩
    exact ⟨paths,inner,hr,(hreport hr).symm,rfl⟩

end Course

/-- A file of the directory that is shown, has the right extension and is not the index. -/
structure IsModule (x : SchemaIndexer) (d : Disk) (stem : String) : Prop where
  file : LeadsTo d (childOf x.directory (stem ++ "." ++ x.options.extension.text))
    (placeOf d x.directory ++ [stem ++ "." ++ x.options.extension.text])
  shown : Glob.isHidden (stem ++ "." ++ x.options.extension.text) = false
  other : stem ≠ "index"

def IsFor (x : SchemaIndexer) (o : SchemaOptions) : Prop :=
  o.formatters.toList = ["basic"] ∧ ∃ env d style, ofOptions env d o = .ok x ∧
    Config.styleOptions d o.configPath o.extension.text = .ok style ∧
    (style.useTabs = false ∨ style.tabWidth ≠ 0)

section Modules

variable {o : SchemaOptions} {x : SchemaIndexer} {d d' : Disk} {files : List Path} {stem : String}

/-- What an indexer takes from its options. -/
structure Follows (x : SchemaIndexer) (o : SchemaOptions) : Prop where
  options : x.options = o
  directory : x.directory = o.resolve o.directory
  extension : x.index.extension = o.extension.text
  batch : x.index.batch = true
  nested : x.index.nested = standardNested
  keeps : ∀ d nested entries, entries ≠ [] →
    (∀ baseName ∈ entries, ∀ c ∈ baseName.toList, Text.isLineEnd c = false) →
    x.index.formatting d (textOf nested entries) = .ok (textOf nested entries)

theorem IsFor.follows (h : x.IsFor o) : x.Follows o := by
  obtain ⟨hbasic,env,d,style,hx,hstyle,htabs⟩ := h
  have hformatter : Config.formatter o.formatters.toList = .ok [.basic] := by
    rw [hbasic]
    rfl
  unfold ofOptions at hx
  rw [hstyle,hformatter] at hx
  obtain rfl := Except.ok.inj hx
  refine ⟨rfl,rfl,rfl,rfl,rfl,fun d nested entries _ hends => ?_⟩
  show Format.Formatter.format env style [.basic] d _ = _
  rw [Format.format_basic,basic_textOf_eq htabs hends]

theorem Follows.fileName_eq (h : x.Follows o) :
    x.index.fileName = "index" ++ "." ++ o.extension.text := by
  rw [Settings.fileName,h.extension]
  rfl

theorem Follows.isPart_fileName (h : x.Follows o) :
    Path.IsPart x.index.fileName ∧ x.index.fileName ≠ ".." ∧ x.index.fileName.utf8ByteSize ≤
      maxNameBytes := by
  rw [h.fileName_eq]
  cases o.extension <;> decide +kernel

theorem pattern_eq (x : SchemaIndexer) : x.pattern = "*" ++ ("." ++ x.options.extension.text) := by
  unfold pattern
  cases x.options.extension <;> decide +kernel

theorem isLiteral_extension (e : Extension) :
    Glob.IsLiteral ("." ++ e.text).toList ∧ '/' ∉ ("." ++ e.text).toList := by
  unfold Glob.IsLiteral
  cases e <;> decide +kernel

theorem namesIn_of_hasDirectory {p : Path} (h : HasDirectory d p) :
    Glob.namesIn d p = d.tree.names (placeOf d p) := by
  rw [Glob.namesIn,h]

theorem hasDirectory_of_mem_namesIn {p : Path} {name : String} (hl : LinkFree d.tree)
    (h : name ∈ Glob.namesIn d p) : HasDirectory d p := by
  unfold Glob.namesIn at h
  split at h
  · rename_i place hw
    obtain rfl : place = placeOf d p := place_of_walk hl hw
    exact hw
  · cases h

/-- Where the modules are is told by their names. -/
theorem leadsTo_childOf (hl : LinkFree d.tree) {p : Path} {name : String} (hdot : name ≠ ".")
    (hup : name ≠ "..") :
    d.isFile (childOf p name) = .ok true ↔ LeadsTo d (childOf p name) (placeOf d p ++ [name]) := by
  rw [isFile_eq_true]
  refine ⟨fun ⟨c,hc⟩ => ?_,fun h => ⟨_,h⟩⟩
  obtain rfl : c = placeOf d p ++ [name] := by
    obtain ⟨bytes,executable,hw⟩ := hc
    exact (place_of_walk hl hw).trans (placeOf_childOf d p hdot hup)
  exact hc

theorem modules_eq_ok (h : x.Follows o) :
    x.modules d = .ok files ↔ Glob.isUnaskable d x.directory = false ∧
    (∀ name ∈ Glob.starred d x.directory ("." ++ o.extension.text),
      ∃ answer, d.isFile (childOf x.directory name) = .ok answer) ∧
    files = Path.sorted ((Glob.starredFiles d x.directory ("." ++ o.extension.text)
      [x.index.fileName]).map (childOf x.directory)) := by
  have hextension := isLiteral_extension o.extension
  rw [← discover_star hextension.1 hextension.2,modules,pattern_eq,h.options]
  cases discover d x.directory ("*" ++ ("." ++ o.extension.text)) [x.index.fileName] with
  | error fault => simp [Except.mapError]
  | ok found => simp [Except.mapError]

theorem mem_starredFiles_iff (h : x.Follows o) (hl : LinkFree d.tree) {name : String} :
    name ∈ Glob.starredFiles d x.directory ("." ++ o.extension.text) [x.index.fileName] ↔
      HasDirectory d x.directory ∧ ∃ stem, name = stem ++ "." ++ o.extension.text ∧
      x.IsModule d stem := by
  have hname : ∀ {stem : String}, Glob.isHidden (stem ++ "." ++ o.extension.text) = false →
      stem ++ "." ++ o.extension.text ≠ "." ∧ stem ++ "." ++ o.extension.text ≠ ".." := by
    intro stem hshown
    constructor <;> intro he <;> rw [he] at hshown <;> cases hshown
  have hother : ∀ {stem : String}, stem ++ "." ++ o.extension.text ∉ [x.index.fileName] ↔
      stem ≠ "index" := by
    intro stem
    rw [List.mem_singleton,h.fileName_eq]
    exact not_congr ⟨fun he => (String.append_left_inj _).1 ((String.append_left_inj _).1 he),
      fun he => he ▸ rfl⟩
  rw [mem_starredFiles (isLiteral_extension o.extension).1]
  constructor
  · rintro ⟨hthere,hshown,⟨stem,rfl⟩,hfile,hn⟩
    rw [← String.append_assoc] at hthere hshown hfile hn ⊢
    obtain ⟨hdot,hup⟩ := hname hshown
    refine ⟨hasDirectory_of_mem_namesIn hl hthere,stem,rfl,?_,?_,hother.1 hn⟩
    · rw [h.options]
      exact (leadsTo_childOf hl hdot hup).1 hfile
    · rw [h.options]
      exact hshown
  · rintro ⟨hd,stem,rfl,hfile,hshown,hne⟩
    rw [h.options] at hfile hshown
    obtain ⟨hdot,hup⟩ := hname hshown
    refine ⟨?_,hshown,⟨stem,String.append_assoc⟩,(leadsTo_childOf hl hdot hup).2 hfile,hother.2 hne⟩
    obtain ⟨bytes,executable,hw⟩ := hfile
    rw [namesIn_of_hasDirectory hd,Tree.mem_names]
    exact ⟨_,get?_of_walk hw⟩

theorem stem_childOf_module (h : x.Follows o) (hm : x.IsModule d stem) :
    (childOf x.directory (stem ++ "." ++ o.extension.text)).stem = stem := by
  have hshown := hm.shown
  rw [h.options] at hshown
  refine stem_childOf _ ?_ ?_ ?_
  · rintro rfl
    simp [Glob.isHidden] at hshown
  · cases o.extension <;> decide +kernel
  · cases o.extension <;> decide +kernel

theorem modules_spec (h : x.Follows o) (hl : LinkFree d.tree) (hm : x.modules d = .ok files) :
    (files ≠ [] → HasDirectory d x.directory) ∧ (files.map Path.stem).Nodup ∧
      (HasDirectory d x.directory → ∀ stem, stem ∈ files.map Path.stem ↔ x.IsModule d stem) ∧
      ∀ stem ∈ files.map Path.stem, x.IsModule d stem := by
  obtain ⟨-,-,hfiles⟩ := (modules_eq_ok h).1 hm
  have hmem : ∀ p, p ∈ files ↔ HasDirectory d x.directory ∧ ∃ stem,
      p = childOf x.directory (stem ++ "." ++ o.extension.text) ∧ x.IsModule d stem := by
    intro p
    rw [hfiles,Path.mem_sorted,List.mem_map]
    constructor
    · rintro ⟨name,hname,rfl⟩
      obtain ⟨hd,stem,rfl,hmodule⟩ := (mem_starredFiles_iff h hl).1 hname
      exact ⟨hd,stem,rfl,hmodule⟩
    · rintro ⟨hd,stem,rfl,hmodule⟩
      exact ⟨_,(mem_starredFiles_iff h hl).2 ⟨hd,stem,rfl,hmodule⟩,rfl⟩
  refine ⟨fun hne => ?_,?_,fun hd stem => ?_,fun stem hs => ?_⟩
  · obtain ⟨p,hp⟩ := List.exists_mem_of_ne_nil _ hne
    exact ((hmem p).1 hp).1
  · refine List.Nodup.map_on ?_ (hfiles ▸ Path.nodup_sorted _)
    intro p hp q hq he
    obtain ⟨-,stem,rfl,hs⟩ := (hmem p).1 hp
    obtain ⟨-,stem',rfl,hs'⟩ := (hmem q).1 hq
    rw [stem_childOf_module h hs,stem_childOf_module h hs'] at he
    rw [he]
  · rw [List.mem_map]
    constructor
    · rintro ⟨p,hp,rfl⟩
      obtain ⟨-,stem,rfl,hs⟩ := (hmem p).1 hp
      rwa [stem_childOf_module h hs]
    · intro hs
      exact ⟨_,(hmem _).2 ⟨hd,stem,rfl,hs⟩,stem_childOf_module h hs⟩
  · obtain ⟨p,hp,rfl⟩ := List.mem_map.1 hs
    obtain ⟨-,stem,rfl,hmodule⟩ := (hmem p).1 hp
    rwa [stem_childOf_module h hmodule]

end Modules

section Indexing

variable {o : SchemaOptions} {x x' : SchemaIndexer} {d d' : Disk} {files : List Path}
variable {entries : List String}

theorem putAt_putAt (d : Disk) (place : Place) (e : Disk.Entry) :
    (d.putAt place e).putAt place e = d.putAt place e := by
  simp [putAt,Tree.put,List.filter_filter]

theorem plainWalk_single {t u : Tree} {place : Place} {name : String}
    (h : u.get? (place ++ [name]) = t.get? (place ++ [name])) :
    plainWalk u place [name] = plainWalk t place [name] := by
  simp only [plainWalk,walkNames,h]

/-- Where nothing has changed at a name of a directory, the answer is the same. -/
theorem isFile_childOf_congr {p : Path} {name : String} (hl : LinkFree d.tree)
    (hl' : LinkFree d'.tree)
    (hd : HasDirectory d p) (hd' : HasDirectory d' p) (hh : d'.here = d.here)
    (h : d'.tree.get? (placeOf d p ++ [name]) = d.tree.get? (placeOf d p ++ [name])) :
    d'.isFile (childOf p name) = d.isFile (childOf p name) := by
  by_cases ha : Askable (childOf p name)
  · have hw : ∀ {d : Disk}, LinkFree d.tree → HasDirectory d p → d.walk true (childOf p name) =
        (plainWalk d.tree (placeOf d p) [name]).mapError fun errno =>
          .system (.refused errno (childOf p name).text) := fun hl hd => by
      rw [walk_of_askable ha,walkFrom_linkFree hl,startOf_childOf,childOf,
        plainWalk_append hl _ ((walk_linkFree hl _).1 hd).2]
    rw [isFile,isFile, entry?, entry?,hw hl hd,hw hl' hd',placeOf_eq hh,plainWalk_single h]
  · exact isFile_of_not_askable ha d d'

theorem Follows.ground (h : x.Follows o) (hl : LinkFree d.tree) (hd : HasDirectory d x.directory) :
    Ground x.index d fun directory => directory = x.directory :=
  ⟨hl,fun _ he => he ▸ hd,fun _ _ hp hq _ => hp.trans hq.symm,h.isPart_fileName.1,
    h.isPart_fileName.2.1,
    h.isPart_fileName.2.2,h.nested⟩

def indexedDisk (x : SchemaIndexer) (d : Disk) (text : String) : Disk :=
  d.putAt (indexPlace x.index d x.directory)
    (stored (d.tree.get? (indexPlace x.index d x.directory)) (Text.encode text))

theorem disk_of_indexed (h : x.Follows o) (hl : LinkFree d.tree) (hd : HasDirectory d x.directory)
    (hne : entries ≠ [])
    (hends : ∀ baseName ∈ entries, ∀ c ∈ baseName.toList, Text.isLineEnd c = false) :
    Indexed x.index x.directory entries d d' ↔ ∃ nested,
      d.isFile (x.index.nestedIndex x.directory) = .ok nested ∧
        CanWrite d (x.index.indexPath x.directory) ∧
        d' = x.indexedDisk d (textOf nested entries) := by
  have hsave := fun nested =>
    (h.ground hl hd).save_index (.refl (fun _ => True) d) rfl (textOf nested entries)
  constructor
  · rintro ⟨nested,text,hnested,htext,hs⟩
    rw [h.keeps d nested entries hne hends] at htext
    obtain rfl := Except.ok.inj htext
    rcases hsave nested with ⟨hcan,hsaved⟩ | ⟨-,fault,hfault⟩
    · rw [hsaved] at hs
      exact ⟨nested,hnested,hcan,(Prod.mk.inj hs).2.symm⟩
    · rw [hfault] at hs
      cases hs
  · rintro ⟨nested,hnested,hcan,rfl⟩
    refine ⟨nested,_,hnested,h.keeps d nested entries hne hends,?_⟩
    rcases hsave nested with ⟨-,hsaved⟩ | ⟨hcannot,-⟩
    · exact hsaved
    · exact absurd hcan hcannot

theorem indexPlace_ne_nil (x : SchemaIndexer) (d : Disk) :
    indexPlace x.index d x.directory ≠ [] := by
  simp [indexPlace]

theorem get?_indexedDisk (x : SchemaIndexer) (d : Disk) (text : String) (q : Place) :
    (x.indexedDisk d text).tree.get? q = if q = indexPlace x.index d x.directory then
      some (stored (d.tree.get? (indexPlace x.index d x.directory)) (Text.encode text))
        else d.tree.get? q :=
  Tree.get?_put (x.indexPlace_ne_nil d) _ q

theorem overlaid_indexedDisk (h : x.Follows o) (hl : LinkFree d.tree)
    (hd : HasDirectory d x.directory)
    (hcan : CanWrite d (x.index.indexPath x.directory)) (text : String) :
    Overlaid (· = indexPlace x.index d x.directory) d (x.indexedDisk d text) := by
  rw [(h.ground hl hd).indexPath_eq,
    canWrite_childOf hl hd h.isPart_fileName.1.2.1 h.isPart_fileName.2.1] at hcan
  exact (Overlaid.refl (· = indexPlace x.index d x.directory) d).put rfl
    (x.indexPlace_ne_nil d) hcan.2.2 _ _

theorem modules_indexedDisk (h : x.Follows o) (hroot : x.directory.Plain) (ht : IsFileTree d)
    (hd : HasDirectory d x.directory) (hcan : CanWrite d (x.index.indexPath x.directory))
    (text : String)
    (hm : x.modules d = .ok files) : x.modules (x.indexedDisk d text) = .ok files := by
  have hover := overlaid_indexedDisk h ht.linkFree hd hcan text
  have hl' := hover.linkFree ht.linkFree
  have hd' := (hasDirectory_overlaid ht.linkFree hover).2 hd
  have hplace : placeOf (x.indexedDisk d text) x.directory = placeOf d x.directory :=
    placeOf_eq hover.here _
  have hsame : ∀ name, name ∉ [x.index.fileName] →
      (x.indexedDisk d text).tree.get? (placeOf d x.directory ++ [name]) =
        d.tree.get? (placeOf d x.directory ++ [name]) := fun name hn => by
    refine hover.of_not fun he => hn ?_
    rw [List.mem_singleton]
    exact (List.append_singleton_inj.1 he).2
  have hfind : ∀ {d : Disk}, x.modules d = .ok files ↔ discover d x.directory
      ("*" ++ ("." ++ o.extension.text)) [x.index.fileName] = .ok files := fun {d} => by
    rw [modules_eq_ok h,discover_star (isLiteral_extension _).1 (isLiteral_extension _).2]
  have hunaskable : ∀ {d : Disk}, HasDirectory d x.directory →
      Glob.isUnaskable d x.directory = false :=
    fun hd => by rw [Glob.isUnaskable,hd]
  rw [hfind] at hm ⊢
  refine discover_star_congr (isLiteral_extension _).1 (isLiteral_extension _).2 hroot
    (fun name hn => ?_) ?_
    (fun name hn => ?_)
      (fun name hn => isFile_childOf_congr ht.linkFree hl' hd hd' hover.here (hsame name hn))
    (fun name hn => ?_) hm
  · rw [namesIn_of_hasDirectory hd,Tree.mem_names] at hn
    obtain ⟨e,he⟩ := hn
    exact ht.names _ e he name (by simp)
  · rw [hunaskable hd,hunaskable hd']
  · rw [namesIn_of_hasDirectory hd,namesIn_of_hasDirectory hd',Tree.mem_names,Tree.mem_names,
      hplace,hsame name hn]
  · rw [List.mem_singleton.1 hn,← (h.ground ht.linkFree hd).indexPath_eq]
    have hcan' := hcan
    rw [(h.ground ht.linkFree hd).indexPath_eq,
      ← canWrite_overlaid ht.linkFree hover hd h.isPart_fileName.1.2.1
      h.isPart_fileName.2.1,← (h.ground ht.linkFree hd).indexPath_eq] at hcan'
    obtain ⟨found,hw,-⟩ := hcan'
    unfold isFile entry?
    rw [hw]
    cases found with
    | missing c => exact ⟨_,rfl⟩
    | entry c e => exact ⟨_,rfl⟩

theorem nested_indexedDisk (h : x.Follows o) (hl : LinkFree d.tree)
    (hd : HasDirectory d x.directory)
    (hcan : CanWrite d (x.index.indexPath x.directory)) (text : String) {nested : Bool}
    (hn : d.isFile (x.index.nestedIndex x.directory) = .ok nested) :
    (x.indexedDisk d text).isFile (x.index.nestedIndex x.directory) = .ok nested := by
  have hover := overlaid_indexedDisk h hl hd hcan text
  have g := h.ground hl hd
  obtain ⟨answer,ha⟩ := g.isFile_nestedIndex hover rfl ⟨d,nested,hn⟩
  have hplace : placeOf d (x.index.nestedIndex x.directory) ≠ indexPlace x.index d x.directory := by
    have hpart : Path.IsPart standardNested :=
      ⟨by decide +kernel,by decide +kernel,by decide +kernel⟩
    rw [Settings.nestedIndex,h.nested,div_part _ hpart,div_part _ g.fileName,
      placeOf_childOf _ _ g.fileName.2.1
      g.fileName_up,placeOf_childOf _ _ hpart.2.1 (by decide +kernel),indexPlace]
    intro he
    have hlength := congrArg List.length he
    simp at hlength
  have hiff : (x.indexedDisk d text).isFile (x.index.nestedIndex x.directory) = .ok true ↔
      d.isFile (x.index.nestedIndex x.directory) = .ok true := by
    rw [isFile_iff_read,isFile_iff_read]
    exact exists_congr fun bytes => read_overlaid hl hover hplace
  rw [ha,hn] at hiff
  rw [ha]
  cases answer <;> cases nested <;> simp_all

theorem indexed_again (h : x.Follows o) (hl : LinkFree d.tree) (hd : HasDirectory d x.directory)
    (hcan : CanWrite d (x.index.indexPath x.directory)) (hne : entries ≠ [])
    (hends : ∀ baseName ∈ entries, ∀ c ∈ baseName.toList, Text.isLineEnd c = false) {nested : Bool}
    (hn : d.isFile (x.index.nestedIndex x.directory) = .ok nested) :
    Indexed x.index x.directory entries (x.indexedDisk d (textOf nested entries))
      (x.indexedDisk d (textOf nested entries)) := by
  have g := h.ground hl hd
  have hover := overlaid_indexedDisk h hl hd hcan (textOf nested entries)
  have hl' := hover.linkFree hl
  have hd' := (hasDirectory_overlaid hl hover).2 hd
  refine (disk_of_indexed h hl' hd' hne hends).2 ⟨nested,nested_indexedDisk h hl hd hcan _ hn,?_,?_⟩
  · rw [g.indexPath_eq] at hcan ⊢
    exact (canWrite_overlaid hl hover hd h.isPart_fileName.1.2.1 h.isPart_fileName.2.1).2 hcan
  · have hplace : indexPlace x.index (x.indexedDisk d (textOf nested entries)) x.directory =
        indexPlace x.index d x.directory := by rw [indexPlace,placeOf_eq hover.here,indexPlace]
    have hagain : x.indexedDisk (x.indexedDisk d (textOf nested entries)) (textOf nested entries) =
        (x.indexedDisk d (textOf nested entries)).putAt (indexPlace x.index d x.directory)
          (stored (d.tree.get? (indexPlace x.index d x.directory))
            (Text.encode (textOf nested entries))) := by
      rw [indexedDisk,hplace,get?_indexedDisk,if_pos rfl,stored_stored]
    rw [hagain]
    exact (putAt_putAt d _ _).symm

end Indexing

section Runs

variable {o : SchemaOptions} {x x' : SchemaIndexer} {w w' : Run.World} {files : List Path}

theorem Follows.modules_eq (h : x.Follows o) (h' : x'.Follows o) (d : Disk) :
    x'.modules d = x.modules d := by
  have hfile : x'.index.fileName = x.index.fileName := h'.fileName_eq.trans h.fileName_eq.symm
  rw [modules,modules,pattern,pattern,h'.options,h.options,h'.directory,h.directory,hfile]

theorem Follows.reportFor_eq (h : x.Follows o) (h' : x'.Follows o) :
    x'.reportFor files = x.reportFor files := by
  have hfile : x'.index.fileName = x.index.fileName := h'.fileName_eq.trans h.fileName_eq.symm
  rw [reportFor,reportFor,Settings.indexPath,Settings.indexPath,h'.directory,h.directory,hfile]

theorem Follows.indexedDisk_eq (h : x.Follows o) (h' : x'.Follows o) (d : Disk) (text : String) :
    x'.indexedDisk d text = x.indexedDisk d text := by
  have hfile : x'.index.fileName = x.index.fileName := h'.fileName_eq.trans h.fileName_eq.symm
  rw [indexedDisk,indexedDisk,indexPlace,indexPlace,h'.directory,h.directory,hfile]

/-- The lines of an index: that for nested hooks first, if they have an index, and then one for each
module, in the order of these lines. -/
def ListsModules (x : SchemaIndexer) (d : Disk) (lines : List String) : Prop :=
  ∃ (nested : Bool) (stems : List String), d.isFile (x.index.nestedIndex x.directory) = .ok nested ∧
    stems.Pairwise (precedes · ·) ∧ stems.Nodup ∧ (∀ stem, stem ∈ stems ↔ x.IsModule d stem) ∧
    lines = (if nested then [nestedStatement] else []) ++ stems.map statement

structure WritesIndex (x : SchemaIndexer) (d d' : Disk) (text : String) : Prop where
  lines : ∃ lines, x.ListsModules d lines ∧ text = "\n".intercalate lines ++ "\n" ∧
    Text.splitLines text.toList = lines.map String.toList
  here : d'.here = d.here
  index : ∃ executable,
    d'.tree.get? (placeOf d x.directory ++ ["index." ++ x.options.extension.text]) =
    some (.file (Text.encode text) executable)
  others : ∀ q, q ≠ placeOf d x.directory ++ ["index." ++ x.options.extension.text] →
    d'.tree.get? q = d.tree.get? q

theorem Follows.listsModules (h : x.Follows o) {d : Disk} (hl : LinkFree d.tree)
    (hm : x.modules d = .ok files)
    (hne : files ≠ []) {nested : Bool}
    (hn : d.isFile (x.index.nestedIndex x.directory) = .ok nested) :
    x.ListsModules d (linesOf nested (files.map Path.stem)) := by
  obtain ⟨hd,hnodup,hmem,-⟩ := modules_spec h hl hm
  have hperm := sortEntries_perm (files.map Path.stem)
  exact ⟨nested,_,hn,pairwise_sortEntries _,hperm.nodup_iff.2 hnodup,
    fun stem => hperm.mem_iff.trans (hmem (hd hne) stem),linesOf_eq nested _⟩

/-- A run that has found modules writes their index and nothing else. Another run leaves it as it
is, and reports the same. Without modules nothing is written. -/
theorem modules_indexed (hx : x.IsFor o) (hroot : o.root.Plain) (ht : IsFileTree w.disk) :
    ((∀ stem, ¬ x.IsModule w.disk stem) → (Effect.run x.run w).2.disk = w.disk) ∧
    ∀ r w', Effect.run x.run w = (.ok r,w') → r.discovered ≠ 0 →
      (∀ stem, x.IsModule w.disk stem → ∀ c ∈ stem.toList, Text.isLineEnd c = false) →
      (∃ text, x.WritesIndex w.disk w'.disk text) ∧
      ∀ x' : SchemaIndexer, x'.IsFor o → ∀ v : Run.World, v.disk = w'.disk →
        ∃ v', Effect.run x'.run v = (.ok r,v') ∧ v'.disk = w'.disk := by
  have h := hx.follows
  have hl := ht.linkFree
  have hdirectory : x.directory.Plain := by
    rw [h.directory]
    exact Path.plain_join hroot (Path.plain_ofString _)
  refine ⟨fun hnone => disk_of_run fun files hm => ?_,fun r w' hrun hfound hends => ?_⟩
  · by_contra hne
    obtain ⟨-,-,-,hmodules⟩ := modules_spec h hl hm
    obtain ⟨p,hp⟩ := List.exists_mem_of_ne_nil _ hne
    exact hnone _ (hmodules _ (List.mem_map_of_mem hp))
  · obtain ⟨files,hm,hlength⟩ := discovered_of_run hrun
    have hne : files ≠ [] := by
      rintro rfl
      exact hfound hlength
    obtain ⟨hd,hnodup,hmem,-⟩ := modules_spec h hl hm
    have hd := hd hne
    have hne' : files.map Path.stem ≠ [] := by simpa using hne
    have hends : ∀ stem ∈ files.map Path.stem, ∀ c ∈ stem.toList, Text.isLineEnd c = false :=
      fun stem hs => hends stem ((hmem hd stem).1 hs)
    obtain ⟨rfl,hindexed⟩ := (run_iff_indexed hm hne h.batch hnodup).1 ⟨w',hrun,rfl⟩
    obtain ⟨nested,hn,hcan,hdisk⟩ := (disk_of_indexed h hl hd hne' hends).1 hindexed
    have hplace : indexPlace x.index w.disk x.directory =
        placeOf w.disk x.directory ++ ["index." ++ x.options.extension.text] := by
      rw [indexPlace,h.fileName_eq,h.options]
      cases o.extension <;> rfl
    refine ⟨⟨textOf nested (files.map Path.stem),⟨_,h.listsModules hl hm hne hn,rfl,?_⟩,?_,?_,?_⟩,
      ?_⟩
    · rw [toList_textOf,Format.splitLines_joinWithEnds (linesOf_ne_nil hne' nested)]
      exact fun line hline => (isNeat_linesOf hends line hline).ends
    · rw [hdisk]
      rfl
    · rw [hdisk,← hplace,get?_indexedDisk,if_pos rfl]
      exact ⟨_,rfl⟩
    · intro q hq
      rw [hdisk,get?_indexedDisk,if_neg (hplace ▸ hq)]
    · intro x' hx' v hv
      have h' := hx'.follows
      rw [← h.reportFor_eq h',← hv]
      refine (run_iff_indexed ?_ hne h'.batch hnodup).2 ⟨rfl,?_⟩
      · rw [h.modules_eq h',hv,hdisk]
        exact modules_indexedDisk h hdirectory ht hd hcan _ hm
      · have hd' : HasDirectory w.disk x'.directory := by rw [h'.directory,← h.directory]; exact hd
        have hindex : x'.index.indexPath x'.directory = x.index.indexPath x.directory := by
          rw [Settings.indexPath,Settings.indexPath,h'.directory,h.directory,
            h'.fileName_eq,h.fileName_eq]
        have hnested : x'.index.nestedIndex x'.directory = x.index.nestedIndex x.directory := by
          rw [Settings.nestedIndex,Settings.nestedIndex,h'.directory,h.directory,
            h'.fileName_eq,h.fileName_eq,
            h'.nested,h.nested]
        rw [hv,hdisk,← h.indexedDisk_eq h']
        exact indexed_again h' hl hd' (hindex ▸ hcan) hne' hends (hnested ▸ hn)

def generatedSchema : Disk where
  here := []
  tree := ⟨[(["src"],.directory),(["src","lib"],.directory),
    (["src","lib","__generated__"],.directory),
    (["src","lib","__generated__","User.ts"],.file [] false),
    (["src","lib","__generated__","a.b.ts"],.file [] false),
    (["src","lib","__generated__",".draft.ts"],.file [] false),
    (["src","lib","__generated__","index.ts"],.file [] false),
    (["src","lib","__generated__","hooks"],.directory),
    (["src","lib","__generated__","hooks","index.ts"],.file [] false)]⟩

theorem modules_indexed_generatedSchema :
    ∃ (x : SchemaIndexer) (r : Report) (w' : Run.World) (text : String),
    Effect.run x.run (.ofDisk generatedSchema) = (.ok r,w') ∧ r.discovered = 2 ∧
      x.WritesIndex generatedSchema w'.disk text ∧
      ∃ v', Effect.run x.run w' = (.ok r,v') ∧ v'.disk = w'.disk := by
  let root : Path := .ofString "src/lib/__generated__"
  let stems : List String := ["User","a.b"]
  obtain ⟨x,hx,-⟩ : ∃ x, ofOptions [] generatedSchema .standard = .ok x ∧ true = true :=
    exists_of_passes (by decide +kernel)
  obtain ⟨style,hstyle,htabs⟩ :
      ∃ style, Config.styleOptions generatedSchema SchemaOptions.standard.configPath
      SchemaOptions.standard.extension.text = .ok style ∧ (!style.useTabs) = true :=
    exists_of_passes (by decide +kernel)
  have hfor : x.IsFor .standard := ⟨rfl,[],_,style,hx,hstyle,.inl (by simpa using htabs)⟩
  have h := hfor.follows
  have ht : IsFileTree generatedSchema := isFileTree_of_formsTree (by decide +kernel)
  have hdirectory : x.directory = root := h.directory.trans (by decide +kernel)
  have hfile : x.index.fileName = "index.ts" := h.fileName_eq.trans (by decide +kernel)
  have hm :
      x.modules generatedSchema = .ok (stems.map fun stem => childOf root (stem ++ ".ts")) := by
    rw [modules_eq_ok h,hdirectory,hfile]
    have hasked : ((Glob.starred generatedSchema root ".ts").all fun name =>
        passes (generatedSchema.isFile (childOf root name)) fun _ => true) =
          true := by decide +kernel
    refine ⟨by decide +kernel,
      fun name hn => (exists_of_passes (List.all_eq_true.1 hasked name hn)).imp
      fun _ h => h.1,?_⟩
    · rw [show Glob.starredFiles _ _ _ _ = ["User.ts","a.b.ts"] by decide +kernel]
      exact (Path.sorted_of_pairwise (by decide +kernel) (by decide +kernel)).symm
  have hstems :
      (stems.map fun stem => childOf root (stem ++ ".ts")).map Path.stem =
      stems := by decide +kernel
  have hends : ∀ stem ∈ stems, ∀ c ∈ stem.toList, Text.isLineEnd c = false := by
    have hall :
        (stems.all fun stem => stem.toList.all fun c => !Text.isLineEnd c) = true := by decide
    exact fun stem hs c hc => by
      simpa using List.all_eq_true.1 (List.all_eq_true.1 hall stem hs) c hc
  have hd : HasDirectory generatedSchema x.directory := by
    rw [hdirectory,HasDirectory]
    decide +kernel
  have hindexed : Indexed x.index x.directory stems generatedSchema
      (x.indexedDisk generatedSchema (textOf true stems)) := by
    refine (disk_of_indexed h ht.linkFree hd (by decide) hends).2 ⟨true,?_,⟨.entry
      ["src","lib","__generated__","index.ts"] (.file [] false),?_,by simp⟩,rfl⟩
    · rw [Settings.nestedIndex,hdirectory,hfile,h.nested]
      decide +kernel
    · rw [Settings.indexPath,hdirectory,hfile]
      decide +kernel
  obtain ⟨w',hrun,-⟩ := (run_iff_indexed (w := .ofDisk generatedSchema) hm (by simp [stems]) h.batch
    (by rw [hstems]; decide)).2 ⟨rfl,hstems ▸ hindexed⟩
  obtain ⟨-,hwritten⟩ :=
    modules_indexed (w := .ofDisk generatedSchema) hfor (Path.plain_ofString _) ht
  obtain ⟨⟨text,htext⟩,hagain⟩ := hwritten _ w' hrun (by simp [reportFor,stems]) fun stem hs => by
    refine hends stem ?_
    rw [← hstems]
    exact ((modules_spec h ht.linkFree hm).2.2.1 hd stem).2 hs
  exact ⟨x,_,w',text,hrun,by simp [reportFor,stems],htext,hagain x hfor w' rfl⟩

end Runs

end OperationHooks.SchemaIndexer
