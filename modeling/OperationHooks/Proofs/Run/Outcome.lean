import OperationHooks.Proofs.Report
import OperationHooks.Proofs.Run.Course
import OperationHooks.Proofs.Run.Schedule

set_option autoImplicit false

namespace OperationHooks.Run
open Effect Disk Index

/-- A module of some name is made for one of the files, and goes to a directory. -/
def Receives (s : Setup) (base : Disk) (files : List Path) (directory : Path)
    (baseName : String) : Prop :=
  ∃ p ∈ files, ∃ d, plan s base p = .make d ∧ s.hook.outputDirectory p = directory ∧
    s.hook.nameOf d = baseName

structure Outcome (s : Setup) (base : Disk) (files : List Path) (w : Index.World) : Prop where
  planned : ∀ p ∈ files, plan s base p ≠ .fail
  overlaid : Overlaid (Generated s base files) base w.disk
  entries : ∀ directory baseName, baseName ∈ (w.indexes.state directory).entries ↔
    Receives s base files directory baseName
  nodup : ∀ directory, (w.indexes.state directory).entries.Nodup
  stands : ∀ directory, (w.indexes.state directory).entries ≠ [] →
    Stands s.index base w.disk directory (w.indexes.state directory).entries
  bare : ∀ directory, Uses s files directory → (w.indexes.state directory).entries = [] →
    w.disk.tree.get? (indexPlace s.index base directory) =
      base.tree.get? (indexPlace s.index base directory)
  made : ∀ p ∈ files, ∀ d, plan s base p = .make d → CanWrite base (s.hook.outputPath d) ∧
    (∃ disk text, Overlaid (Generated s base files) base disk ∧ s.hook.Rendering disk d text) ∧
    ∃ p' ∈ files, ∃ d', plan s base p' = .make d' ∧ modulePlace s base d' = modulePlace s base d ∧
      ∃ disk text, Overlaid (Generated s base files) base disk ∧ s.hook.Rendering disk d' text ∧
        w.disk.tree.get? (modulePlace s base d) =
          some (stored (base.tree.get? (modulePlace s base d)) (Text.encode text))
  elsewhere : ∀ q, (∀ directory, Uses s files directory → q ≠ indexPlace s.index base directory) →
    (∀ p ∈ files, ∀ d, plan s base p = .make d → q ≠ modulePlace s base d) →
    w.disk.tree.get? q = base.tree.get? q

def entriesFor (s : Setup) (base : Disk) (files : List Path) : List Entry :=
  files.filterMap fun p => (plan s base p).entry s

section Outcome

variable {s : Setup} {base : Disk} {files : List Path} {r : Report} {p : Progress}
variable {w inner : Index.World}

namespace Sound

theorem finished (h : Sound s base files r p) (hfin : p.isFinished = true) {i : Nat} {path : Path}
    (hi : files[i]? = some path) : p.tasks[i]? = some ⟨path,.finished⟩ := by
  rw [← h.paths,List.getElem?_map] at hi
  obtain ⟨⟨path',stage⟩,ht,rfl⟩ := Option.map_eq_some_iff.1 hi
  have hf := List.all_eq_true.1 hfin _ (List.mem_of_getElem? ht)
  rw [ht]
  cases stage <;> first | rfl | cases hf

theorem planned (h : Sound s base files r p) (hfin : p.isFinished = true) {path : Path}
    (hm : path ∈ files) : plan s base path ≠ .fail := by
  obtain ⟨i,hi⟩ := List.getElem?_of_mem hm
  obtain ⟨entry,he⟩ := h.fits _ (List.mem_of_getElem? (h.finished hfin hi))
  intro hf
  rw [hf] at he; cases he

theorem call_of_finished (h : Sound s base files r p) (hfin : p.isFinished = true)
    {i : Nat} {path : Path}
    {d : Descriptor} (hi : files[i]? = some path) (hp : plan s base path = .make d) :
    callsOf s base p.tasks i = some ⟨s.hook.outputDirectory path,s.hook.nameOf d,.ended none⟩ := by
  rw [callsOf,h.finished hfin hi]
  exact callOf_finished hp

theorem ended_of_finished (h : Sound s base files r p) (hfin : p.isFinished = true)
    {i : Nat} {c : Call}
    (hc : callsOf s base p.tasks i = some c) : c.stage = .ended none := by
  obtain ⟨path,d,hi,hp,-⟩ := h.laid.named i c hc
  rw [h.call_of_finished hfin hi hp] at hc
  obtain rfl := Option.some.inj hc
  rfl

theorem hasEmitted_iff (h : Sound s base files r p) (hfin : p.isFinished = true) (d : Descriptor) :
    HasEmitted s base files (callsOf s base p.tasks) d ↔
    ∃ path ∈ files, plan s base path = .make d := by
  constructor
  · rintro ⟨i,path,c,hi,hp,-⟩; exact ⟨path,List.mem_of_getElem? hi,hp⟩
  · rintro ⟨path,hm,hp⟩
    obtain ⟨i,hi⟩ := List.getElem?_of_mem hm
    exact ⟨i,path,_,hi,hp,h.call_of_finished hfin hi hp⟩

theorem entries_iff (h : Sound s base files r p) (hfin : p.isFinished = true) (directory : Path)
    (baseName : String) : baseName ∈ (p.world.indexes.state directory).entries ↔
      Receives s base files directory baseName := by
  rw [h.laid.coherent.entries]
  constructor
  · rintro ⟨i,c,hc,rfl,rfl,-⟩
    obtain ⟨path,d,hi,hp,hdir,hbase⟩ := h.laid.named i c hc
    exact ⟨path,List.mem_of_getElem? hi,d,hp,hdir.symm,hbase.symm⟩
  · rintro ⟨path,hm,d,hp,rfl,rfl⟩
    obtain ⟨i,hi⟩ := List.getElem?_of_mem hm
    exact ⟨i,_,h.call_of_finished hfin hi hp,rfl,rfl,rfl⟩

theorem report_of_finished (h : Sound s base files r p) (hfin : p.isFinished = true) :
    ∃ entries : List Entry, p.world.report = entries.foldl Entry.add r ∧
      entries.Perm (entriesFor s base files) := by
  obtain ⟨entries,he,hperm⟩ := h.report
  refine ⟨entries,he,hperm.trans (List.Perm.of_eq ?_)⟩
  rw [entriesOf,entriesFor,← h.paths,List.filterMap_map]
  refine List.filterMap_congr fun t ht => ?_
  rw [if_pos (List.all_eq_true.1 hfin t ht)]
  rfl

theorem upkept (h : Sound s base files r p) (hfin : p.isFinished = true)
    (hdisk : w.disk = p.world.disk)
    (hindexes : w.indexes = p.world.indexes) :
    Upkept s.index base (Uses s files) w.indexes.directories w := by
  have hlaid := h.laid.quiet hdisk hindexes
  exact hlaid.filed.upkept hlaid.coherent (fun _ _ => hlaid.uses) fun _ _ =>
    h.ended_of_finished hfin

theorem flushed (h : Sound s base files r p) (hp : Prepared s base files)
    (hfin : p.isFinished = true)
    (hdisk : w.disk = p.world.disk) (hindexes : w.indexes = p.world.indexes)
    {paths : List Path} (hflush : run (flushAll s.index) w = (.ok paths,inner)) :
    Upkept s.index base (Uses s files) [] inner ∧
      Overlaid (Generated s base files) base inner.disk ∧
      Refreshed s.index base (Uses s files) w inner := by
  rw [run_flushAll] at hflush
  cases hr : run (w.indexes.directories.mapM (flush s.index)) w with
  | mk result w₁ =>
    rw [hr] at hflush
    cases result with
    | error fault => cases hflush
    | ok written =>
      obtain ⟨-,rfl⟩ := Prod.mk.inj hflush
      exact flushes_ok hp.ground (h.upkept hfin hdisk hindexes)
        (h.laid.quiet hdisk hindexes).overlaid
        (fun _ => hp.generated_index) (fun _ hd => hd) hr

/-- What the tasks and the flush after them have come to. -/
theorem outcome (h : Sound s base files r p) (hp : Prepared s base files)
    (hfin : p.isFinished = true)
    (hdisk : w.disk = p.world.disk) (hindexes : w.indexes = p.world.indexes)
    {paths : List Path} (hflush : run (flushAll s.index) w = (.ok paths,inner)) :
    Outcome s base files inner := by
  obtain ⟨hup,hover,hfresh⟩ := h.flushed hp hfin hdisk hindexes hflush
  have hentries : ∀ directory, (inner.indexes.state directory).entries =
      (p.world.indexes.state directory).entries := fun directory => by
    rw [hfresh.entries,hindexes]
  refine ⟨fun _ hm => h.planned hfin hm,hover,fun directory x => ?_,fun directory => ?_,
    fun directory hd => ?_,hup.bare,fun path hm d hplan => ?_,fun q hq hq' => ?_⟩
  · rw [hentries]; exact h.entries_iff hfin directory x
  · rw [hentries]; exact h.laid.coherent.nodup directory
  · exact (hup.stands directory hd).2.resolve_right fun h => by cases h.1
  · obtain ⟨hcan,hrender,d',disk,text,hd',hplace,ho,hr',hget⟩ :=
      h.laid.emitted d ((h.hasEmitted_iff hfin d).2 ⟨path,hm,hplan⟩)
    obtain ⟨path',hm',hplan'⟩ := (h.hasEmitted_iff hfin d').1 hd'
    refine ⟨hcan,hrender,path',hm',d',hplan',hplace,disk,text,ho,hr',?_⟩
    rw [hfresh.elsewhere _ fun _ _ => hp.modulePlace_ne hplan,hdisk]
    exact hget
  · rw [hfresh.elsewhere q hq,hdisk]
    refine h.laid.elsewhere q hq fun d hd => ?_
    obtain ⟨path,hm,hplan⟩ := (h.hasEmitted_iff hfin d).1 hd
    exact hq' path hm d hplan

theorem flush_of_feasible (h : Sound s base files r p) (hp : Prepared s base files)
    (hf : Feasible s base files) (hfin : p.isFinished = true) (hdisk : w.disk = p.world.disk)
    (hindexes : w.indexes = p.world.indexes) :
    ∃ paths inner, run (flushAll s.index) w = (.ok paths,inner) := by
  have hlaid := h.laid.quiet hdisk hindexes
  obtain ⟨written,inner,hr⟩ := flushes_total hp.ground (h.upkept hfin hdisk hindexes) hlaid.overlaid
    (fun _ => hp.generated_index) (fun _ hd => hd) hf.formats fun directory hd => by
      rw [hindexes] at hd
      obtain ⟨x,hx⟩ := List.exists_mem_of_ne_nil _ hd
      obtain ⟨path,hm,d,hplan,rfl,-⟩ := (h.entries_iff hfin directory x).1 hx
      exact (hf.writable path hm d hplan).2.1
  exact ⟨_,inner,by rw [run_flushAll,hr]⟩

end Sound

def Entry.generated? : Entry → Option String
  | .generated path => some path.text
  | _ => none

def Entry.skipped? : Entry → Option FileOutcome
  | .skipped path reason => some ⟨path.text,reason.text,none⟩
  | _ => none

def Entry.error? : Entry → Option FileOutcome
  | .error path reason errorType => some ⟨path.text,reason,some errorType⟩
  | _ => none

theorem foldl_add (entries : List Entry) (r : Report) : entries.foldl Entry.add r =
    { r with
      generated := r.generated ++ entries.filterMap Entry.generated?
      skipped := r.skipped ++ entries.filterMap Entry.skipped?
      errors := r.errors ++ entries.filterMap Entry.error? } := by
  induction entries generalizing r with
  | nil => simp
  | cons entry rest ih =>
    rw [List.foldl_cons,ih]
    cases entry <;>
      simp [List.filterMap_cons,Entry.add,Entry.generated?,Entry.skipped?,Entry.error?]

theorem outcome_eq_of_path {f : Entry → Option FileOutcome}
    (hf : ∀ p entry o, plan s base p = .report entry → f entry = some o → o.path = p.text)
    (hg : ∀ path, f (.generated path) = none) (hplain : ∀ p ∈ files, p.Plain) {a b : FileOutcome}
    (ha : a ∈ (entriesFor s base files).filterMap f)
    (hb : b ∈ (entriesFor s base files).filterMap f)
    (h : a.path = b.path) : a = b := by
  have hsource : ∀ o, o ∈ (entriesFor s base files).filterMap f →
      ∃ p ∈ files, ∃ entry, plan s base p = .report entry ∧ f entry = some o := by
    intro o ho
    obtain ⟨entry,he,ho⟩ := List.mem_filterMap.1 ho
    obtain ⟨p,hp,he⟩ := List.mem_filterMap.1 he
    cases hplan : plan s base p with
    | report entry' =>
      rw [hplan] at he
      obtain rfl := Option.some.inj he
      exact ⟨p,hp,entry',hplan,ho⟩
    | make d =>
      rw [hplan] at he
      obtain rfl := Option.some.inj he
      rw [hg] at ho; cases ho
    | fail => rw [hplan] at he; cases he
  obtain ⟨p,hp,entry,hplan,hfa⟩ := hsource a ha
  obtain ⟨q,hq,entry',hplan',hfb⟩ := hsource b hb
  have htext : p.text = q.text := by rw [← hf p entry a hplan hfa,← hf q entry' b hplan' hfb,h]
  obtain rfl := Path.text_injective (hplain p hp) (hplain q hq) htext
  obtain rfl := Plan.report.inj (hplan.symm.trans hplan')
  exact Option.some.inj (hfa.symm.trans hfb)

theorem sorted_foldl_add {entries entries' : List Entry} (hplain : ∀ p ∈ files, p.Plain)
    (h : entries.Perm (entriesFor s base files)) (h' : entries'.Perm (entriesFor s base files))
    (hskipped : r.skipped = []) (herrors : r.errors = []) (phase : Phase) (indexes : List String) :
    { entries.foldl Entry.add r with phase, indexes }.sorted =
      { entries'.foldl Entry.add r with phase, indexes }.sorted := by
  have hperm := h.trans h'.symm
  have hmem : ∀ f : Entry → Option FileOutcome, ∀ o ∈ entries.filterMap f,
      o ∈ (entriesFor s base files).filterMap f := fun f o ho => (h.filterMap f).mem_iff.1 ho
  rw [foldl_add,foldl_add,Report.sorted,Report.sorted]
  simp only [hskipped,herrors,List.nil_append]
  congr 1
  · exact Report.sortTexts_congr ((hperm.filterMap _).append_left _)
  · refine Report.sortOutcomes_congr (hperm.filterMap _) fun a ha b hb =>
      outcome_eq_of_path (fun p entry o hp ho => ?_) (fun _ => rfl) hplain
        (hmem _ a ha) (hmem _ b hb)
    rcases path_of_report hp with ⟨reason,rfl⟩ | ⟨reason,type,rfl⟩
    · obtain rfl := Option.some.inj ho; rfl
    · cases ho
  · refine Report.sortOutcomes_congr (hperm.filterMap _) fun a ha b hb =>
      outcome_eq_of_path (fun p entry o hp ho => ?_) (fun _ => rfl) hplain
        (hmem _ a ha) (hmem _ b hb)
    rcases path_of_report hp with ⟨reason,rfl⟩ | ⟨reason,type,rfl⟩
    · cases ho
    · obtain rfl := Option.some.inj ho; rfl

theorem Outcome.mem_written (h : Outcome s base files w) {directory : Path} :
    directory ∈ w.indexes.directories.filter
      (fun directory => !(w.indexes.state directory).entries.isEmpty) ↔
    ∃ baseName, Receives s base files directory baseName := by
  rw [List.mem_filter]
  constructor
  · rintro ⟨-,hne⟩
    obtain ⟨x,hx⟩ := List.exists_mem_of_ne_nil _ (by simpa using hne)
    exact ⟨x,(h.entries directory x).1 hx⟩
  · rintro ⟨x,hx⟩
    have hx := (h.entries directory x).2 hx
    have hne : (w.indexes.state directory).entries ≠ [] := List.ne_nil_of_mem hx
    exact ⟨Table.mem_directories_of_entries hne,by simpa using hne⟩

/-- The index files that are reported are given by the definitions alone. -/
theorem written_congr {w' : Index.World} (h : Outcome s base files w) (h' : Outcome s base files w')
    (hplain : ∀ directory, Uses s files directory → directory.Plain) :
    written s.index w.indexes = written s.index w'.indexes := by
  unfold written
  congr 1
  refine Path.eq_of_ordered (fun directory hd => ?_) (fun directory => ?_)
    ((Path.nodup_sorted _).filter _) ((Path.nodup_sorted _).filter _)
    ((Path.pairwise_sorted _).filter _) ((Path.pairwise_sorted _).filter _)
  · obtain ⟨x,p,hp,d,-,hdir,-⟩ := h.mem_written.1 hd
    exact hplain directory ⟨p,hp,hdir⟩
  · rw [h.mem_written,h'.mem_written]

end Outcome

end OperationHooks.Run
