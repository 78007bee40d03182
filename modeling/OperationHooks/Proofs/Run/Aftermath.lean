import OperationHooks.Proofs.Run.LastWord
import OperationHooks.Proofs.Run.Layout
import OperationHooks.Proofs.Run.Remaking

set_option autoImplicit false

namespace OperationHooks.Run
open Effect Disk Index

structure Settles (g : HookGenerator) (files : List Path) (steps : List Nat)
    (d base : Disk) (r : Report)
    (w : Index.World) : Prop where
  here : base.here = d.here
  tree : ∀ q, base.tree.get? q = anew d (g.outputDirectories files) q
  plans : ∀ p ∈ files, plan g.setup base p = plan g.setup d p
  prepared : Prepared g.setup base files
  outcome : Outcome g.setup base files w
  report : ∃ entries, entries.Perm (entriesFor g.setup base files) ∧ r = reportOf g.setup
    { Report.empty with phase := .processing, discovered := files.length } entries w.indexes
  late : ∀ q j, Writes g.setup base files q j → 2 ≤ steps.count j
  last : ∀ i path m, files[i]? = some path → plan g.setup base path = .make m →
    HasLastWord steps (Writes g.setup base files (modulePlace g.setup base m)) i →
    HoldsRendering g.setup base files m (modulePlace g.setup base m) w.disk

/-- The index at a place has a line for each of these names, in order, behind one for nested hooks
if there are any. Without names there is no index. -/
structure HasIndex (d : Disk) (q : Place) (names : List String) : Prop where
  nodup : names.Nodup
  sorted : names.Pairwise (precedes · ·)
  absent : names = [] → ∀ bytes executable, d.tree.get? q ≠ some (.file bytes executable)
  text : names ≠ [] → ∃ nested : Bool, d.tree.get? q = some (.file (Text.encode ("\n".intercalate
    ((if nested then [nestedStatement] else []) ++ names.map statement) ++ "\n")) false)

section Settles

variable {o : HookOptions} {g : HookGenerator} {files : List Path}
  {steps : List Nat} {d base : Disk}
variable {r : Report} {w : Index.World} {w' : World} {m : Descriptor} {q : Place}

theorem settles_of_run (hroot : o.root.Plain) (hg : g.Follows o)
    (hslash : '/' ∉ o.namePrefix.toList)
    (htree : IsFileTree d) (hclosed : Closed d.tree)
    (hfounded : ∀ root, o.outputPath = some root → Founded d root)
    (hfound : g.discover d = .ok files) (hne : files ≠ [])
    (horder : InOrder d (g.outputDirectories files))
    (h : run (g.run (Progress.follow g.setup steps)) (.ofDisk d) = (.ok r,w')) :
    ∃ base, Settles g files steps d base r w'.toWorld := by
  have hplain := plain_of_discover (w := .ofDisk d) hroot hg htree.names hfound
  have hc :=
    cleanable_of_inOrder hroot hg htree hclosed hplain
      (founded_outputDirectories hg hfounded) horder
  have hrun :
      run (runOn g files (Progress.follow g.setup steps)) ((World.ofDisk d).begun files.length) =
      (.ok r,w') := (run_eq_of_discover (w := .ofDisk d) hfound hne).symm.trans h
  obtain ⟨w₁,ht⟩ := traced_of_runOn (w := (World.ofDisk d).begun files.length) hroot hg
    hslash htree.linkFree
    hplain horder rfl (interleaves_follow _ _) hrun
  obtain ⟨hlate,hlast⟩ := lastWord_of_runOn ht rfl hrun
  obtain ⟨hclean,hprepared,houtcome,entries,hentries,hr⟩ := ht
  obtain ⟨hhere,hswept⟩ := swept_of_clean
    (w := ((World.ofDisk d).begun files.length).cleaning files.length)
    htree.linkFree hc.dotless hclean
  obtain ⟨-,hreport⟩ := kept_of_clean hclean
  refine ⟨w₁.disk,hhere,
    get?_of_clean (w := ((World.ofDisk d).begun files.length).cleaning files.length) hc hclean,
    fun p hp => ?_,hprepared,houtcome,⟨entries,hentries,?_⟩,hlate,hlast⟩
  · obtain ⟨-,bytes,hread⟩ := mem_discover ((HookGenerator.discover_eq_ok hg).1 hfound) hp
    exact plan_swept htree.linkFree hhere hswept hread (houtcome.planned p hp)
  · have hstart : w₁.processing.report =
        { Report.empty with phase := .processing, discovered := files.length } := by
      show { w₁.report with phase := Phase.processing } = _
      rw [hreport]
      rfl
    rw [hr,hstart]

namespace Settles

theorem bare (h : Settles g files steps d base r w) : IsBare g.setup base files := by
  intro directory hu q hq bytes executable hget
  have hd := uses_iff.1 hu
  rw [placeOf_eq h.here] at hq
  rw [h.tree] at hget
  rcases anew_cases d (g.outputDirectories files) q with ⟨other,ho,hway⟩ | ⟨hnot,-⟩
  · rw [anew_of_way ho hway] at hget; cases hget
  · rw [anew_of_below hnot hd hq] at hget; cases hget

theorem get?_of_mem (h : Settles g files steps d base r w) {p : Path} (hp : p ∈ files) :
    ∃ bytes executable, base.tree.get? (placeOf d p) = some (.file bytes executable) := by
  cases hr : base.read p with
  | error fault =>
    obtain ⟨fault,hf⟩ := opened_of_unread (s := g.setup) hr
    exact absurd (by rw [plan,hf]) (h.outcome.planned p hp)
  | ok bytes =>
    obtain ⟨place,executable,hwalk⟩ := read_eq_ok.1 hr
    obtain rfl : place = placeOf base p := place_of_walk h.prepared.ground.linkFree hwalk
    have hagrees := agrees_of_walkFrom _ _ _ (walk_eq_ok.1 hwalk).2
    rw [← placeOf_eq h.here]
    exact ⟨bytes,executable,hagrees⟩

theorem writes_eq (h : Settles g files steps d base r w) (q : Place) :
    Writes g.setup base files q = Writes g.setup d files q := by
  funext i
  refine propext (exists_congr fun path => exists_congr fun m => and_congr_right fun hi => ?_)
  rw [h.plans path (List.mem_of_getElem? hi),modulePlace,modulePlace,placeOf_eq h.here]

theorem exists_last (h : Settles g files steps d base r w)
    (hq : ∃ m, IsHooked g.setup d files m ∧ modulePlace g.setup d m = q) :
    ∃ i path m, files[i]? = some path ∧ plan g.setup d path = .make m ∧
      modulePlace g.setup d m = q ∧
      HasLastWord steps (Writes g.setup d files q) i := by
  obtain ⟨m,hm,hplace⟩ := hq
  obtain ⟨p,hp,hplan⟩ := isHooked_iff.1 hm
  obtain ⟨j,hj⟩ := List.getElem?_of_mem hp
  have hwrites : ∃ i, Writes g.setup d files q i ∧ HasLastWord steps (Writes g.setup d files q) i :=
    exists_lastWord ⟨j,p,m,hj,hplan,hplace⟩ fun j hj => h.late q j (by rwa [h.writes_eq])
  obtain ⟨i,⟨path,m',hi,hplan',hplace'⟩,hlast⟩ := hwrites
  exact ⟨i,path,m',hi,hplan',hplace',hlast⟩

theorem module_file (h : Settles g files steps d base r w) (ht : TemplatesApart g.setup d files)
    (hformat : ∀ d d' text, g.setup.hook.formatting d' text = g.setup.hook.formatting d text)
    {i : Nat}
    {path : Path} (hi : files[i]? = some path) (hplan : plan g.setup d path = .make m)
    (hlast : HasLastWord steps (Writes g.setup d files (modulePlace g.setup d m)) i) :
    ∃ text, g.setup.hook.Rendering base m text ∧
      w.disk.tree.get? (modulePlace g.setup d m) = some (.file (Text.encode text) false) := by
  have hmem := List.mem_of_getElem? hi
  have hplace : modulePlace g.setup d m = modulePlace g.setup base m := (placeOf_eq h.here _).symm
  rw [hplace] at hlast ⊢
  rw [← h.plans path hmem] at hplan
  rw [← h.writes_eq] at hlast
  obtain ⟨disk,text,executable,ho,hr,hget⟩ := h.last i path m hi hplan hlast
  obtain ⟨_,_,_,_,_,_,_,_,_,hregular⟩ := h.outcome.module_file h.prepared h.bare hmem hplan
  obtain ⟨-,rfl⟩ := Disk.Entry.file.inj (Option.some.inj (hget.symm.trans hregular))
  exact ⟨text,
    (rendering_overlaid h.prepared.ground.linkFree (ht.of_here h.here.symm) hformat ho).1 hr,hget⟩

theorem index (h : Settles g files steps d base r w) (hkeeps : KeepsIndexes g.setup base files)
    {directory : Path} (hu : Uses g.setup files directory) :
    HasIndex w.disk (indexPlace g.setup.index d directory)
      (sortEntries (w.indexes.state directory).entries) := by
  have hplace : indexPlace g.setup.index d directory = indexPlace g.setup.index base directory := by
    rw [indexPlace,indexPlace,placeOf_eq h.here]
  have hperm := sortEntries_perm (w.indexes.state directory).entries
  rw [hplace]
  refine ⟨hperm.nodup_iff.2 (h.outcome.nodup directory),pairwise_sortEntries _,
    fun hnil => ?_,fun hne => ?_⟩
  · have hnone : (w.indexes.state directory).entries = [] := (hnil ▸ hperm).symm.eq_nil
    intro bytes executable
    rw [h.outcome.bare directory hu hnone]
    exact h.bare directory hu _ (Tree.isBelow_concat _ _) bytes executable
  · obtain ⟨x,hx⟩ := List.exists_mem_of_ne_nil _ hne
    have hfills := receives_iff.1 ((h.outcome.entries directory x).1 (hperm.mem_iff.1 hx))
    obtain ⟨nested,hget⟩ := h.outcome.index_file h.bare hkeeps hfills
    refine ⟨nested,?_⟩
    rwa [textOf,linesOf_eq] at hget

theorem mem_index (h : Settles g files steps d base r w) {directory : Path} {x : String} :
    x ∈ sortEntries (w.indexes.state directory).entries ↔ Fills g.setup d files directory x := by
  rw [(sortEntries_perm _).mem_iff,h.outcome.entries,receives_iff,fills_congr h.plans]

theorem indexes_eq (h : Settles g files steps d base r w) :
    r.indexes = (written g.setup.index w.indexes).map Path.text := by
  obtain ⟨entries,-,hr⟩ := h.report
  rw [hr]
  rfl

theorem mem_written (h : Settles g files steps d base r w) {directory : Path} :
    directory ∈
      w.indexes.directories.filter (fun directory => !(w.indexes.state directory).entries.isEmpty) ↔
      ∃ x, Fills g.setup d files directory x := by
  rw [h.outcome.mem_written]
  exact exists_congr fun x => by rw [receives_iff,fills_congr h.plans]

theorem indexes_eq_nil_iff (h : Settles g files steps d base r w) :
    r.indexes = [] ↔ ∀ directory x, ¬ Fills g.setup d files directory x := by
  rw [h.indexes_eq,Index.written,List.map_eq_nil_iff,List.map_eq_nil_iff,
    List.eq_nil_iff_forall_not_mem]
  simp only [h.mem_written,not_exists]

/-- Where no module and no index goes, all is as the cleaning has left it. -/
theorem elsewhere (h : Settles g files steps d base r w)
    (hmodule : ∀ m, IsHooked g.setup d files m → modulePlace g.setup d m ≠ q)
    (hindex : ∀ directory, Uses g.setup files directory →
      q ≠ indexPlace g.setup.index d directory) :
    w.disk.tree.get? q = anew d (g.outputDirectories files) q := by
  rw [← h.tree]
  refine h.outcome.elsewhere q (fun directory hu => ?_) fun p hp m hplan he => ?_
  · rw [indexPlace,placeOf_eq h.here]
    exact hindex directory hu
  · refine hmodule m (isHooked_iff.2 ⟨p,hp,(h.plans p hp).symm.trans hplan⟩) ?_
    rw [he,modulePlace,modulePlace,placeOf_eq h.here]

end Settles

end Settles

end OperationHooks.Run
