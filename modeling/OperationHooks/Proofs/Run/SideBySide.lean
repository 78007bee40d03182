import OperationHooks.Proofs.Disk.Fold
import OperationHooks.Proofs.Glob.Shape
import OperationHooks.Proofs.Run.Aftermath
/-!
Runs side by side, on disks that differ in what one definition file says. The other definitions come
to what they came to, and the tasks start on disks that differ in that file alone.
-/
set_option autoImplicit false

namespace OperationHooks
open Effect Disk

section Generator

variable {env : Format.Environment} {o : HookOptions} {c : Place} {d d' : Disk} {path : Path}
variable {room : Nat}

theorem Config.read_congr (h : ∀ bytes, d'.read path = .ok bytes ↔ d.read path = .ok bytes)
    (hread : ∃ bytes, d.read path = .ok bytes) :
      Config.read room d' path = Config.read room d path := by
  obtain ⟨bytes,hbytes⟩ := hread
  unfold Config.read
  rw [hbytes,(h bytes).2 hbytes]

theorem Config.entries_edited (he : Edited c d d') (hl : LinkFree d.tree)
    (hpath : placeOf d path ≠ c) :
    Config.entries room d' (some path) = Config.entries room d (some path) := by
  simp only [Config.entries,isFile_shape he.sameShape]
  cases hfile : d.isFile path with
  | error fault => simp only [mapError_error,bind,Except.bind]
  | ok there =>
    simp only [mapError_ok,bind,Except.bind]
    split
    · rename_i hthere
      rw [hthere] at hfile
      rw [Config.read_congr (he.read_iff hl hpath) (isFile_iff_read.1 hfile)]
    · rfl

theorem Hook.templateDirectory_shape (h : SameShape d d') (directory : Option String) :
    Hook.templateDirectory d' directory = Hook.templateDirectory d directory := by
  unfold Hook.templateDirectory
  simp only [isDirectory_shape h]

theorem HookGenerator.ofOptions_edited (he : Edited c d d') (hl : LinkFree d.tree)
    (hconfig : ∀ path, o.configPath = some path → placeOf d path ≠ c) :
      ofOptions env d' o = ofOptions env d o := by
  have hentries : Config.entries Yaml.usualRoom d' o.configPath =
      Config.entries Yaml.usualRoom d o.configPath := by
    cases hpath : o.configPath with
    | none => rfl
    | some path => exact Config.entries_edited he hl (hconfig path hpath)
  unfold ofOptions Config.styleOptions Config.styleWithin
  rw [hentries,Hook.templateDirectory_shape he.sameShape]

end Generator

namespace Run
open Index

structure Edit (g : HookGenerator) (files : List Path) (c : Place) (d d' : Disk) : Prop where
  edited : Edited c d d'
  found : ∃ p ∈ files, placeOf d p = c
  config : ∀ path, g.options.configPath = some path → placeOf d path ≠ c
  templates : ∀ directory, g.setup.hook.templates = some directory → ¬ placeOf d directory <+: c

def own (d : Disk) (c : Place) (files : List Path) : List Path :=
  files.filter fun p => placeOf d p = c

def others (d : Disk) (c : Place) (files : List Path) : List Path :=
  files.filter fun p => placeOf d p ≠ c

def ownIndexes (s : Setup) (d : Disk) (c : Place) (files : List Path) : List String :=
  (own d c files).map fun p => (s.index.indexPath (s.hook.outputDirectory p)).text

/-- The report of a run over so many files that came to these entries and indexes. -/
def listing (count : Nat) (entries : List Entry) (indexes : List String) : Report where
  phase := .done
  discovered := count
  generated := Report.sortTexts (entries.filterMap Entry.generated?)
  skipped := Report.sortOutcomes (entries.filterMap Entry.skipped?)
  errors := Report.sortOutcomes (entries.filterMap Entry.error?)
  indexes
  message := none

section Files

variable {s : Setup} {files : List Path} {c : Place} {d d' base : Disk}
  {p directory : Path} {m : Descriptor}
variable {x : String}

theorem mem_own : p ∈ own d c files ↔ p ∈ files ∧ placeOf d p = c := by simp [own]

theorem mem_others : p ∈ others d c files ↔ p ∈ files ∧ placeOf d p ≠ c := by simp [others]

theorem mem_files_iff (d : Disk) (c : Place) (files : List Path) :
    p ∈ files ↔ p ∈ others d c files ∨ p ∈ own d c files := by
  rw [mem_others,mem_own]
  by_cases h : placeOf d p = c <;> simp [h]

theorem isHooked_split (d : Disk) (c : Place) (files : List Path) :
    IsHooked s d' files m ↔ IsHooked s d' (others d c files) m ∨
    IsHooked s d' (own d c files) m := by
  simp only [IsHooked,mem_files_iff d c files,or_and_right,exists_or]

theorem fills_split (d : Disk) (c : Place) : Fills s d' files directory x ↔
    Fills s d' (others d c files) directory x ∨ Fills s d' (own d c files) directory x := by
  simp only [Fills,isHooked_split d c files,or_and_right,exists_or]

theorem not_fills (h : ¬ Uses s (own d c files) directory) :
    ¬ Fills s d' (own d c files) directory x := by
  intro hf
  obtain ⟨p,hp,m,-,hdir,-⟩ := receives_iff.2 hf
  exact h ⟨p,hp,hdir⟩

theorem entriesFor_split (h : ∀ p ∈ files, plan s base p = plan s d' p) :
    (entriesFor s d' (others d c files) ++ entriesFor s d' (own d c files)).Perm
      (entriesFor s base files) := by
  have hsplit : (others d c files ++ own d c files).Perm files := by
    refine List.perm_append_comm.trans ?_
    simpa [own,others] using List.filter_append_perm (fun p => decide (placeOf d p = c)) files
  have hentries : entriesFor s base files = entriesFor s d' files :=
    List.filterMap_congr fun p hp => by rw [h p hp]
  rw [hentries,entriesFor,entriesFor,← List.filterMap_append]
  exact hsplit.filterMap _

theorem plans_others (he : Edited c d d') (hl : LinkFree d.tree)
    (hread : ∀ p ∈ files, ∃ bytes, d.read p = .ok bytes) :
      ∀ p ∈ others d c files, plan s d' p = plan s d p := by
  intro p hp
  obtain ⟨hp,hplace⟩ := mem_others.1 hp
  rw [plan,plan,opened_congr (he.read_iff hl hplace) (hread p hp)]

theorem mem_others_of_make {q : Place}
    (hmine : ∀ m, IsHooked s d' (own d c files) m → modulePlace s d' m ≠ q)
    (hp : p ∈ files) (hplan : plan s d' p = .make m) (hq : modulePlace s d' m = q) :
      p ∈ others d c files :=
  ((mem_files_iff d c files).1 hp).resolve_right fun ho => hmine m (isHooked_iff.2 ⟨p,ho,hplan⟩) hq

theorem writes_edited {q : Place} (hhere : d'.here = d.here)
    (hplans : ∀ p ∈ others d c files, plan s d' p = plan s d p)
    (hmine : ∀ m, IsHooked s d (own d c files) m → modulePlace s d m ≠ q)
    (hmine' : ∀ m, IsHooked s d' (own d c files) m → modulePlace s d' m ≠ q) :
    Writes s d' files q = Writes s d files q := by
  funext i
  refine propext (exists_congr fun p => exists_congr fun m => and_congr_right fun hi => ?_)
  have hp := List.mem_of_getElem? hi
  have hplace : modulePlace s d' m = modulePlace s d m := placeOf_eq hhere _
  constructor
  · rintro ⟨hplan,hq⟩
    exact ⟨(hplans p (mem_others_of_make hmine' hp hplan hq)).symm.trans hplan,hplace.symm.trans hq⟩
  · rintro ⟨hplan,hq⟩
    exact ⟨(hplans p (mem_others_of_make hmine hp hplan hq)).trans hplan,hplace.trans hq⟩

theorem anew_edited (he : Edited c d d') (directories : List Path) {q : Place} (hq : q ≠ c) :
    anew d' directories q = anew d directories q := by
  unfold anew
  simp only [wayOf_eq he.here,placeOf_eq he.here,he.elsewhere q hq]

end Files

section Two

variable {env : Format.Environment} {o : HookOptions} {g : HookGenerator} {files : List Path}
variable {steps steps' : List Nat} {c : Place} {d d' base base' : Disk} {r r' : Report}
  {w w' : Index.World}
variable {u u' : World} {m : Descriptor} {q : Place}

theorem nameOf_of_judged {s : Setup} {p p' : Path} {source : String} {m' : Descriptor}
    (h : Judged s p source (.hooked m)) (h' : Judged s p' source (.hooked m')) :
    s.hook.nameOf m' = s.hook.nameOf m := by
  cases h with
  | hooked document o hp ho =>
    cases h' with
    | hooked document' o' hp' ho' =>
      obtain rfl := Except.ok.inj (hp.symm.trans hp')
      unfold Descriptor.ofDocument
      rw [ho]
      rfl

theorem source_of_place {p p' : Path} {source source' : String} (hl : LinkFree d.tree)
    (h : HasSource d p source) (h' : HasSource d p' source') (hplace : placeOf d p' = placeOf d p) :
    source' = source := by
  have hfile : ∀ {p bytes}, d.read p = .ok bytes →
      ∃ executable, d.tree.get? (placeOf d p) = some (.file bytes executable) :=
        fun {p bytes} hr => by
    obtain ⟨place,executable,hwalk⟩ := read_eq_ok.1 hr
    obtain rfl : place = placeOf d p := place_of_walk hl hwalk
    exact ⟨executable,agrees_of_walkFrom _ _ _ (walk_eq_ok.1 hwalk).2⟩
  obtain ⟨bytes,text,hr,hdecode,rfl⟩ := h
  obtain ⟨bytes',text',hr',hdecode',rfl⟩ := h'
  obtain ⟨executable,hget⟩ := hfile hr
  obtain ⟨executable',hget'⟩ := hfile hr'
  rw [hplace,hget] at hget'
  obtain ⟨rfl,-⟩ := Disk.Entry.file.inj (Option.some.inj hget')
  obtain rfl := Except.ok.inj (hdecode.symm.trans hdecode')
  rfl

theorem statement_own {s : Setup} {d₀ : Disk} (hl : LinkFree d.tree) (hhere : d.here = d₀.here)
    {directory : Path}
    {x x' : String} (h : Fills s d (own d₀ c files) directory x)
    (h' : Fills s d (own d₀ c files) directory x') :
    x' = x := by
  obtain ⟨m,⟨p,hp,source,hsource,hjudged⟩,-,rfl⟩ := h
  obtain ⟨m',⟨p',hp',source',hsource',hjudged'⟩,-,rfl⟩ := h'
  have hplace : placeOf d p' = placeOf d p := by
    rw [placeOf_eq hhere,placeOf_eq hhere,(mem_own.1 hp).2,(mem_own.1 hp').2]
  obtain rfl := source_of_place hl hsource hsource' hplace
  exact nameOf_of_judged hjudged hjudged'

theorem directory_own (hg : g.Follows o) (hl : LinkFree d.tree) (hplain : ∀ p ∈ files, p.Plain)
    (hread : ∀ p ∈ files, ∃ bytes, d.read p = .ok bytes)
    (horder : InOrder d (g.outputDirectories files)) :
    ∀ p ∈ own d c files, ∀ p' ∈ own d c files,
      g.setup.hook.outputDirectory p' = g.setup.hook.outputDirectory p := by
  intro p hp p' hp'
  obtain ⟨hp,hplace⟩ := mem_own.1 hp
  obtain ⟨hp',hplace'⟩ := mem_own.1 hp'
  refine horder.eq (uses_iff.1 ⟨p',hp',rfl⟩) (uses_iff.1 ⟨p,hp,rfl⟩) ?_
  have hdot : ∀ p ∈ files, (p.parent / o.destination).Dotless := fun p hp =>
    Path.dotless_join (Path.dotless_parent (hplain p hp).dotless) (Path.dotless_ofString _)
  rw [HookGenerator.outputDirectory_eq hg,HookGenerator.outputDirectory_eq hg]
  cases o.outputPath with
  | some root => rfl
  | none =>
    obtain ⟨bytes,hr⟩ := hread p hp
    obtain ⟨bytes',hr'⟩ := hread p' hp'
    obtain ⟨name,hname⟩ := placeOf_of_read hl (hplain p hp).dotless hr
    obtain ⟨name',hname'⟩ := placeOf_of_read hl (hplain p' hp').dotless hr'
    rw [hplace] at hname
    rw [hplace',hname] at hname'
    show placeOf d (p'.parent / o.destination).fold = placeOf d (p.parent / o.destination).fold
    rw [placeOf_fold (hdot p' hp'),placeOf_fold (hdot p hp)]
    exact placeOf_beside (List.append_singleton_inj.1 hname').1.symm

namespace Settles

/-- The edit is all that tells the disks apart on which the tasks start. -/
theorem edited (h : Settles g files steps d base r w) (h' : Settles g files steps' d' base' r' w')
    (he : Edited c d d') (hfound : ∃ p ∈ files, placeOf d p = c) : Edited c base base' := by
  obtain ⟨p,hp,rfl⟩ := hfound
  refine ⟨by rw [h.here,h'.here,he.here],fun q hq => ?_,h.get?_of_mem hp,?_⟩
  · rw [h.tree,h'.tree,anew_edited he _ hq]
  · rw [← placeOf_eq he.here]
    exact h'.get?_of_mem hp

theorem listed (h : Settles g files steps d base r w) (hplain : ∀ p ∈ files, p.Plain)
    (d₀ : Disk) (c : Place) :
    r = listing files.length
      (entriesFor g.setup d (others d₀ c files) ++ entriesFor g.setup d (own d₀ c files))
      r.indexes := by
  obtain ⟨entries,hentries,hr⟩ := h.report
  have hperm := entriesFor_split (d := d₀) (c := c) h.plans
  have hsorted := sorted_foldl_add hplain hentries hperm
    (r := { Report.empty with phase := .processing, discovered := files.length })
      rfl rfl .finalizing
    ((written g.setup.index w.indexes).map Path.text)
  rw [reportOf,hsorted,foldl_add] at hr
  rw [hr]
  simp only [listing,Report.sorted,Report.empty,List.nil_append]

/-- The index files of directories that the edited file does not use are reported as before. -/
theorem written (h : Settles g files steps d base r w) (h' : Settles g files steps' d' base' r' w')
    (hplans : ∀ p ∈ others d c files, plan g.setup d' p = plan g.setup d p)
    (hdirs : ∀ directory, Uses g.setup files directory → directory.Plain) :
    r'.indexes.filter (· ∉ ownIndexes g.setup d c files) =
      r.indexes.filter (· ∉ ownIndexes g.setup d c files) := by
  have hoff :
      ∀ {directory}, (g.setup.index.indexPath directory).text ∉ ownIndexes g.setup d c files →
      ¬ Uses g.setup (own d c files) directory := by
    rintro directory hnot ⟨p,hp,rfl⟩
    exact hnot (List.mem_map_of_mem hp)
  -- A directory that the edited file does not use gets the same names.
  have hfills : ∀ directory, ¬ Uses g.setup (own d c files) directory → ∀ x,
      Fills g.setup d' files directory x ↔ Fills g.setup d files directory x :=
        fun directory hu x => by
    refine (fills_split d c).trans (Iff.trans ?_ (fills_split d c).symm)
    simp [not_fills hu,fills_congr hplans]
  rw [h.indexes_eq,h'.indexes_eq,Index.written,Index.written,List.map_map,
    List.map_map,List.filter_map,
    List.filter_map]
  congr 1
  refine Path.eq_of_ordered (fun directory hd => ?_) (fun directory => ?_)
    (((Path.nodup_sorted _).filter _).filter _) (((Path.nodup_sorted _).filter _).filter _)
    (((Path.pairwise_sorted _).filter _).filter _) (((Path.pairwise_sorted _).filter _).filter _)
  · obtain ⟨x,hx⟩ := h'.mem_written.1 (List.mem_filter.1 hd).1
    obtain ⟨p,hp,-,-,hdir,-⟩ := receives_iff.2 hx
    exact hdirs directory ⟨p,hp,hdir⟩
  · refine List.mem_filter.trans (Iff.trans ?_ List.mem_filter.symm)
    rw [h.mem_written,h'.mem_written]
    refine and_congr_left fun hnot => exists_congr fun x => hfills directory (hoff ?_) x
    simpa using hnot

theorem indexes (h : Settles g files steps d base r w) (h' : Settles g files steps' d' base' r' w')
    (he : Edited c d d') (hplans : ∀ p ∈ others d c files, plan g.setup d' p = plan g.setup d p)
    (hkeeps : ∀ base, KeepsIndexes g.setup base files) {directory : Path}
    (hu : Uses g.setup files directory) :
    ∃ names names', HasIndex w.disk (indexPlace g.setup.index d directory) names ∧
      HasIndex w'.disk (indexPlace g.setup.index d directory) names' ∧
      (∀ x, x ∈ names ↔ Fills g.setup d (others d c files) directory x ∨
        Fills g.setup d (own d c files) directory x) ∧
      (∀ x, x ∈ names' ↔ Fills g.setup d (others d c files) directory x ∨
        Fills g.setup d' (own d c files) directory x) ∧
      (¬ Uses g.setup (own d c files) directory → names' = names) := by
  have hplace : indexPlace g.setup.index d directory = indexPlace g.setup.index d' directory := by
    rw [indexPlace,indexPlace,placeOf_eq he.here]
  have hnames : ∀ x, x ∈ sortEntries (w.indexes.state directory).entries ↔
      Fills g.setup d (others d c files) directory x ∨
      Fills g.setup d (own d c files) directory x := fun x => by
    rw [h.mem_index,fills_split d c]
  have hnames' : ∀ x, x ∈ sortEntries (w'.indexes.state directory).entries ↔
      Fills g.setup d (others d c files) directory x ∨
      Fills g.setup d' (own d c files) directory x := fun x => by
    rw [h'.mem_index,fills_split d c,fills_congr hplans]
  refine ⟨_,_,h.index (hkeeps _) hu,hplace ▸ h'.index (hkeeps _) hu,hnames,hnames',fun hnot => ?_⟩
  refine sortEntries_congr ((List.perm_ext_iff_of_nodup (h'.outcome.nodup _) (h.outcome.nodup _)).2
    fun x => ?_)
  rw [← (sortEntries_perm (w'.indexes.state directory).entries).mem_iff,
    ← (sortEntries_perm (w.indexes.state directory).entries).mem_iff,hnames,hnames']
  simp [not_fills hnot]

theorem rendering_edited (hl : LinkFree base.tree) (he : Edited c base base')
    (htemplates : ∀ directory, g.setup.hook.templates = some directory →
      ¬ placeOf base directory <+: c)
    (hformat : ∀ d d' text, g.setup.hook.formatting d' text = g.setup.hook.formatting d text)
    {text : String} :
    g.setup.hook.Rendering base' m text ↔ g.setup.hook.Rendering base m text := by
  have hdraft := Hook.Settings.draft_overlaid (s := g.setup.hook) hl he.overlaid
    (by rintro directory hd q rfl; exact htemplates directory hd)
  unfold Hook.Settings.Rendering
  simp only [Hook.Settings.render_eq_ok,hdraft,hformat base base']

theorem same_last (h : Settles g files steps d base r w)
    (h' : Settles g files steps' d' base' r' w')
    (hhere : d'.here = d.here)
    (hplans : ∀ p ∈ others d c files, plan g.setup d' p = plan g.setup d p)
    (hmine : ∀ m, IsHooked g.setup d (own d c files) m → modulePlace g.setup d m ≠ q)
    (hmine' : ∀ m, IsHooked g.setup d' (own d c files) m → modulePlace g.setup d' m ≠ q)
    (hsame : steps' = steps ∨ ∀ m m', IsHooked g.setup d (others d c files) m →
      IsHooked g.setup d (others d c files) m' → modulePlace g.setup d m = q →
      modulePlace g.setup d m' = q → m' = m)
    (hq : ∃ m, IsHooked g.setup d files m ∧ modulePlace g.setup d m = q) :
    ∃ i path i' path' m, modulePlace g.setup d m = q ∧ files[i]? = some path ∧
      plan g.setup d path = .make m ∧
      HasLastWord steps (Writes g.setup d files q) i ∧ files[i']? = some path' ∧
      plan g.setup d' path' = .make m ∧
      HasLastWord steps' (Writes g.setup d' files q) i' := by
  have hplace : ∀ m, modulePlace g.setup d' m = modulePlace g.setup d m :=
    fun m => placeOf_eq hhere _
  obtain ⟨i,path,m,hi,hplan,hm,hlast⟩ := h.exists_last hq
  have ho := mem_others_of_make hmine (List.mem_of_getElem? hi) hplan hm
  have hplan' := (hplans path ho).trans hplan
  rcases hsame with rfl | hunique
  · exact ⟨i,path,i,path,m,hm,hi,hplan,hlast,hi,hplan',
      writes_edited hhere hplans hmine hmine' ▸ hlast⟩
  · obtain ⟨i',path',m',hi',hplan₂,hm',hlast'⟩ := h'.exists_last
      ⟨m,isHooked_iff.2 ⟨path,List.mem_of_getElem? hi,hplan'⟩,(hplace m).trans hm⟩
    have ho' := mem_others_of_make hmine' (List.mem_of_getElem? hi') hplan₂ hm'
    have hhooked : IsHooked g.setup d (others d c files) m' :=
      isHooked_iff.2 ⟨path',ho',(hplans path' ho').symm.trans hplan₂⟩
    obtain rfl :=
      hunique m m' (isHooked_iff.2 ⟨path,ho,hplan⟩) hhooked hm ((hplace m').symm.trans hm')
    exact ⟨i,path,i',path',m',hm,hi,hplan,hlast,hi',hplan₂,hlast'⟩

/-- Whatever is no index, and no module of the edited file, is as it would have been. -/
theorem elsewhere_edited (h : Settles g files steps d base r w)
    (h' : Settles g files steps' d' base' r' w')
    (he : Edit g files c d d')
    (hplans : ∀ p ∈ others d c files, plan g.setup d' p = plan g.setup d p)
    (ht : TemplatesApart g.setup d files)
    (hformat : ∀ d d' text, g.setup.hook.formatting d' text = g.setup.hook.formatting d text)
    (hq : q ≠ c)
    (hmine : ∀ m, IsHooked g.setup d (own d c files) m ∨ IsHooked g.setup d' (own d c files) m →
      modulePlace g.setup d m ≠ q)
    (hindex : ∀ directory, Uses g.setup files directory → q ≠ indexPlace g.setup.index d directory)
    (hsame : steps' = steps ∨ ∀ m m', IsHooked g.setup d (others d c files) m →
      IsHooked g.setup d (others d c files) m' → modulePlace g.setup d m = q →
      modulePlace g.setup d m' = q → m' = m) :
    w'.disk.tree.get? q = w.disk.tree.get? q := by
  have hhere := he.edited.here
  have hplace : ∀ m, modulePlace g.setup d' m = modulePlace g.setup d m :=
    fun m => placeOf_eq hhere _
  have hmine' : ∀ m, IsHooked g.setup d' (own d c files) m → modulePlace g.setup d' m ≠ q :=
    fun m hm => by
    rw [hplace]
    exact hmine m (.inr hm)
  by_cases hmodule : ∃ m, IsHooked g.setup d files m ∧ modulePlace g.setup d m = q
  · obtain ⟨i,path,i',path',m,rfl,hi,hplan,hlast,hi',hplan',hlast'⟩ :=
      h.same_last h' hhere hplans (fun m hm => hmine m (.inl hm)) hmine' hsame hmodule
    obtain ⟨text,hr,hget⟩ := h.module_file ht hformat hi hplan hlast
    obtain ⟨text',hr',hget'⟩ :=
      h'.module_file (ht.of_here hhere.symm) hformat hi' hplan' (by rwa [hplace])
    rw [hplace] at hget'
    rw [rendering_edited h.prepared.ground.linkFree (h.edited h' he.edited he.found)
      (fun directory hd => by rw [placeOf_eq h.here]; exact he.templates directory hd) hformat]
        at hr'
    rw [hget,hget',rendering_unique hr hr']
  · have hmodule' : ∀ m, IsHooked g.setup d' files m → modulePlace g.setup d' m ≠ q :=
      fun m hm hmq => by
      obtain ⟨path,hp,hplan⟩ := isHooked_iff.1 hm
      have ho := mem_others_of_make hmine' hp hplan hmq
      exact hmodule ⟨m,isHooked_iff.2 ⟨path,hp,(hplans path ho).symm.trans hplan⟩,
        (hplace m).symm.trans hmq⟩
    rw [h.elsewhere (fun m hm hmq => hmodule ⟨m,hm,hmq⟩) hindex,h'.elsewhere hmodule'
      fun directory hu => ?_,
      anew_edited he.edited _ hq]
    rw [indexPlace,placeOf_eq hhere]
    exact hindex directory hu

end Settles

end Two

end Run

end OperationHooks
