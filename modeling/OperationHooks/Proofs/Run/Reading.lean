import Mathlib.Data.List.Induction
import Mathlib.Data.List.Nodup
import OperationHooks.Proofs.Disk.Saving
import OperationHooks.Proofs.Run.Schedule
/-!
Tasks on any disk. Each goes by its file as it stands when it takes its first step, whatever has
been written by then; and whatever is written goes to modules of definitions that were read, and to
indexes beside them.
-/
set_option autoImplicit false

namespace OperationHooks.Run
open Effect Disk Index

def Progress.diskAt (s : Setup) (p : Progress) (schedule : List Nat) (path : Path) : Disk :=
  (p.follow s (schedule.takeWhile (· ≠ (p.tasks.map Task.path).idxOf path))).world.disk

def entriesSeen (s : Setup) (seen : Path → Disk) (tasks : List Task) : List Entry :=
  tasks.filterMap fun t => if t.isFinished then (plan s (seen t.path) t.path).entry s else none

/-- Each task is where the file that it has seen has led it. -/
structure Told (s : Setup) (seen : Path → Disk) (r : Report) (p : Progress) : Prop where
  fits : ∀ t ∈ p.tasks, Fits s (seen t.path) t
  report : ∃ entries : List Entry, p.world.report = entries.foldl Entry.add r ∧
    entries.Perm (entriesSeen s seen p.tasks)

section Told

variable {s : Setup} {seen : Path → Disk} {files : List Path} {r : Report} {p : Progress} {t : Task}
variable {i : Nat} {path : Path} {w w' : World} {stage stage' : Stage} {d : Descriptor}

theorem opened_ne_reading (s : Setup) (disk : Disk) (path : Path) :
    opened s disk path ≠ .reading := by
  rcases opened_cases s disk path with ⟨entry,ho⟩ | ⟨d,ho⟩ | ⟨fault,ho⟩ <;> rw [ho] <;> simp

theorem reading_of_advances (h : Advances s path w stage stage' w') : stage' ≠ .reading := by
  cases h with
  | read w' hq => exact opened_ne_reading s w.disk path
  | _ => simp

theorem Fits.named (h : Fits s (seen t.path) t) (d : Descriptor) (hd : t.stage = .emitting d) :
    s.hook.nameFault? d = none := by
  rw [Fits,hd] at h
  exact (emitting_of_opened h).2.2

theorem fits_of_opened {disk : Disk} (hf : ∀ fault, opened s disk path ≠ .failed fault) :
    Fits s disk ⟨path,opened s disk path⟩ := by
  rcases opened_cases s disk path with ⟨entry,ho⟩ | ⟨d,ho⟩ | ⟨fault,ho⟩
  · show Fits s disk ⟨path,opened s disk path⟩
    rw [ho]
    show (plan s disk path).entry s = some entry
    rw [plan,ho]
    rfl
  · rw [ho]
    exact ho
  · exact absurd ho (hf fault)

theorem isFinished_of_opened (disk : Disk) : Task.isFinished ⟨path,opened s disk path⟩ = false := by
  rcases opened_cases s disk path with ⟨entry,ho⟩ | ⟨d,ho⟩ | ⟨fault,ho⟩ <;> rw [ho] <;> rfl

namespace Told

theorem start (s : Setup) (seen : Path → Disk) (files : List Path) (w : World) :
    Told s seen w.report (.start files w) := by
  refine ⟨fun t ht => ?_,[],rfl,?_⟩
  · obtain ⟨path,-,rfl⟩ := List.mem_map.1 ht
    trivial
  · have hnone : entriesSeen s seen (files.map Task.start) = [] := by
      unfold entriesSeen
      rw [List.filterMap_map]
      exact List.filterMap_eq_nil_iff.2 fun _ _ => rfl
    show List.Perm [] (entriesSeen s seen (files.map Task.start))
    rw [hnone]

theorem set (h : Told s seen r p) {fault : Option Fault}
    (hfits : Fits s (seen t.path) ⟨t.path,stage⟩)
    (hreport : ∃ entries : List Entry, w.report = entries.foldl Entry.add r ∧
      entries.Perm (entriesSeen s seen (p.tasks.set i ⟨t.path,stage⟩))) :
    Told s seen r ⟨p.tasks.set i ⟨t.path,stage⟩,w,fault⟩ := by
  refine ⟨fun t' ht' => ?_,hreport⟩
  rcases List.mem_or_eq_of_mem_set ht' with ht' | rfl
  · exact h.fits t' ht'
  · exact hfits

theorem set_unfinished (h : Told s seen r p) (hi : p.tasks[i]? = some t) {fault : Option Fault}
    (hfits : Fits s (seen t.path) ⟨t.path,stage⟩) (hr : w.report = p.world.report)
    (ht : t.isFinished = false) (ht' : Task.isFinished ⟨t.path,stage⟩ = false) :
    Told s seen r ⟨p.tasks.set i ⟨t.path,stage⟩,w,fault⟩ := by
  obtain ⟨entries,he,hperm⟩ := h.report
  refine h.set hfits ⟨entries,hr.trans he,?_⟩
  rw [entriesSeen,filterMap_set_same hi (by simp [ht,ht'])]
  exact hperm

theorem advances (h : Told s seen r p) (hi : p.tasks[i]? = some t) {fault : Option Fault}
    (ha : Advances s t.path p.world t.stage stage w) (hf : ∀ fault, stage ≠ .failed fault)
    (hread : t.stage = .reading → seen t.path = p.world.disk) :
    Told s seen r ⟨p.tasks.set i ⟨t.path,stage⟩,w,fault⟩ := by
  have hfit := h.fits t (List.mem_of_getElem? hi)
  obtain ⟨path,stage₀⟩ := t
  dsimp only at ha hread ⊢
  cases ha with
  | read w hq =>
    refine h.set_unfinished hi ?_ hq.report rfl (isFinished_of_opened _)
    dsimp only
    rw [hread rfl]
    exact fits_of_opened hf
  | emit d m w hr hindexes hreport =>
    have hopen : opened s (seen path) path = .emitting d := hfit
    refine h.set_unfinished hi ⟨d,?_,(Hook.Settings.emit_ok hr).1⟩ hreport rfl rfl
    exact (plan_of_emitting hopen).trans (if_pos (Hook.Settings.shaped_of_emit hr))
  | unsupported d w hv hq =>
    have hopen : opened s (seen path) path = .emitting d := hfit
    refine h.set_unfinished hi ?_ hq.report rfl rfl
    show (plan s (seen path) path).entry s = _
    rw [plan_of_emitting hopen,hv]
    rfl
  | unemitted d fault w hv hr => exact absurd rfl (hf fault)
  | register m stage₁ stage₂ inner hm => exact h.set_unfinished hi hfit rfl rfl rfl
  | registered m =>
    obtain ⟨d,hplan,hpath⟩ := hfit
    refine h.set_unfinished hi ?_ rfl rfl rfl
    show (plan s (seen path) path).entry s = _
    rw [hplan,hpath]
    rfl
  | unregistered m fault => exact absurd rfl (hf fault)
  | report entry =>
    have hentry : (plan s (seen path) path).entry s = some entry := hfit
    have hfits : Fits s (seen path) ⟨path,.finished⟩ := ⟨entry,hentry⟩
    refine h.set (t := ⟨path,.reporting entry⟩) hfits ?_
    obtain ⟨entries,he,hperm⟩ := h.report
    refine ⟨entries ++ [entry],by rw [List.foldl_append,← he]; rfl,?_⟩
    refine List.Perm.trans ?_ (filterMap_set_new hi rfl hentry).symm
    exact (List.perm_append_singleton entry entries).trans (hperm.cons entry)

end Told

end Told

def IsModule (s : Setup) (seen : Path → Disk) (path q : Path) : Prop :=
  ∃ d, plan s (seen path) path = .make d ∧ q = s.hook.outputPath d

def IsIndex (s : Setup) (seen : Path → Disk) (path q : Path) : Prop :=
  ∃ d, plan s (seen path) path = .make d ∧ q = s.index.indexPath (s.hook.outputPath d).parent

def IsWritten (s : Setup) (seen : Path → Disk) (files : List Path) (q : Path) : Prop :=
  ∃ path ∈ files, IsModule s seen path q ∨ IsIndex s seen path q

/-- Somebody may write to a path besides the task that makes the module for a file. -/
def IsWrittenBeside (s : Setup) (seen : Path → Disk) (files : List Path) (own q : Path) : Prop :=
  ∃ path ∈ files, path ≠ own ∧ IsModule s seen path q ∨ IsIndex s seen path q

def Task.HasEmitted (t : Task) : Prop :=
  match t.stage with
  | .registering _ _ | .reporting _ | .finished => True
  | _ => False

/-- The module for a definition is what this was rendered to on some disk, as far as nothing else
that was written leads there. -/
def HasRendering (s : Setup) (passed : Disk → Prop) (written : Path → Prop)
    (d : Descriptor) (disk : Disk) :
    Prop :=
  ∃ before text, passed before ∧ s.hook.Rendering before d text ∧
  Holds written (s.hook.outputPath d) text disk

/-- The disk while tasks are carried out: a file is as it was unless somebody was to write to it,
and a module is a rendering of its definition unless somebody else was. -/
structure Wrote (s : Setup) (seen : Path → Disk) (files : List Path)
    (passed : Disk → Prop) (base : Disk)
    (p : Progress) : Prop where
  filled : Changed Tree.Filled base p.world.disk
  untouched : ∀ c bytes executable, base.tree.get? c = some (.file bytes executable) →
    Untouched (IsWritten s seen files) c bytes executable p.world.disk
  modules : ∀ t ∈ p.tasks, t.HasEmitted → ∀ d, plan s (seen t.path) t.path = .make d →
    HasRendering s passed (IsWrittenBeside s seen files t.path) d p.world.disk
  listed : ∀ directory ∈ p.world.indexes.directories,
    ∃ path ∈ files, IsIndex s seen path (s.index.indexPath directory)

section Wrote

variable {s : Setup} {seen : Path → Disk} {files : List Path} {r : Report} {p : Progress} {t : Task}
variable {i : Nat} {w : World} {stage : Stage} {d : Descriptor} {passed : Disk → Prop} {base : Disk}
variable {directory : Path} {baseName : String} {v v' : Index.World} {st st' : Index.Stage}

/-- A registration may save its index, or it may fail to and leave a directory. -/
theorem disk_of_moves (h : Moves s.index directory baseName v st st' v') : v'.disk = v.disk ∨
    (∃ text, Saved (s.index.indexPath directory) text v.disk v'.disk) ∨
      Changed Tree.Grown v.disk v'.disk := by
  cases h with
  | store text disk hs => exact .inr (.inl ⟨text,saved_of_save hs⟩)
  | unstored text fault disk hs => exact .inr (.inr (grown_of_unsaved hs))
  | _ => exact .inl rfl

theorem directories_of_moves (h : Moves s.index directory baseName v st st' v') :
    ∀ other ∈ v'.indexes.directories, other = directory ∨ other ∈ v.indexes.directories := by
  intro other ho
  cases h with
  | repeated message hb => exact .inr ho
  | render text ht => exact .inr ho
  | unrendered fault ht => exact .inr ho
  | store text disk hs => exact .inr ho
  | unstored text fault disk hs => exact .inr ho
  | settle => rw [indexes_settled] at ho; exact Table.mem_directories_modify.1 ho
  | _ => rw [World.indexes_modify] at ho; exact Table.mem_directories_modify.1 ho

section HasRendering

variable {written : Path → Prop} {disk disk' : Disk} {q : Path} {text : String}

theorem HasRendering.saved (h : HasRendering s passed written d disk) (hq : written q)
    (hs : Saved q text disk disk') : HasRendering s passed written d disk' := by
  obtain ⟨before,text',hp,hr,hh⟩ := h
  exact ⟨before,text',hp,hr,hh.saved hq hs⟩

theorem HasRendering.grown (h : HasRendering s passed written d disk)
    (hg : Changed Tree.Grown disk disk') :
    HasRendering s passed written d disk' := by
  obtain ⟨before,text,hp,hr,hh⟩ := h
  exact ⟨before,text,hp,hr,hh.grown hg⟩

/-- Where nothing else that was written leads to a module, it reads as its definition was rendered.
-/
theorem HasRendering.read (h : HasRendering s passed written d disk)
    (hapart : ∀ q, written q → ¬ OneFile disk (s.hook.outputPath d) q) :
    ∃ before text, passed before ∧ s.hook.Rendering before d text ∧
      disk.read (s.hook.outputPath d) = .ok (Text.encode text) := by
  obtain ⟨before,text,hp,hr,hh⟩ := h
  exact ⟨before,text,hp,hr,hh.read hapart⟩

end HasRendering

namespace Wrote

theorem start (s : Setup) (seen : Path → Disk) (files : List Path) (passed : Disk → Prop)
    (hw : w.indexes = []) : Wrote s seen files passed w.disk (.start files w) := by
  refine ⟨.filled_refl _,fun c bytes executable hget => .inl hget,fun t ht he => ?_,
    fun directory hd => ?_⟩
  · obtain ⟨path,-,rfl⟩ := List.mem_map.1 ht
    exact absurd he id
  · rw [show (Progress.start files w).world.indexes = [] from hw,Table.mem_directories] at hd
    exact absurd rfl hd

theorem quiet (h : Wrote s seen files passed base p) (hi : p.tasks[i]? = some t)
    {fault : Option Fault}
    (hdisk : w.disk = p.world.disk) (hindexes : w.indexes = p.world.indexes)
    (hmade : Task.HasEmitted ⟨t.path,stage⟩ → ∀ d, plan s (seen t.path) t.path =
      .make d → t.HasEmitted) :
    Wrote s seen files passed base ⟨p.tasks.set i ⟨t.path,stage⟩,w,fault⟩ := by
  obtain ⟨hfilled,huntouched,hmodules,hlisted⟩ := h
  refine ⟨hdisk ▸ hfilled,hdisk ▸ huntouched,fun t' ht' he d hd => ?_,hindexes ▸ hlisted⟩
  rw [show (Progress.mk (p.tasks.set i ⟨t.path,stage⟩) w fault).world.disk =
    p.world.disk from hdisk]
  rcases List.mem_or_eq_of_mem_set ht' with ht' | rfl
  · exact hmodules t' ht' he d hd
  · exact hmodules t (List.mem_of_getElem? hi) (hmade he d hd) d hd

theorem register (h : Wrote s seen files passed base p) (hi : p.tasks[i]? = some t)
    {fault : Option Fault}
    {m : Hook.Module} (ht : t.stage = .registering m st) (hfit : Fits s (seen t.path) t)
    (hm : Moves s.index m.path.parent m.baseName p.world.toWorld st st' v)
    (hfile : t.path ∈ files) :
    Wrote s seen files passed base
      ⟨p.tasks.set i ⟨t.path,.registering m st'⟩,{ p.world with toWorld := v },fault⟩ := by
  obtain ⟨d,hplan,hpath⟩ : ∃ d, plan s (seen t.path) t.path = .make d ∧
    m.path = s.hook.outputPath d := by
    rw [Fits,ht] at hfit
    exact hfit
  have hindex : IsIndex s seen t.path (s.index.indexPath m.path.parent) := ⟨d,hplan,by rw [hpath]⟩
  have hfill : Changed Tree.Filled p.world.disk v.disk := by
    rcases disk_of_moves hm with he | ⟨text,hs⟩ | hg
    · rw [he]; exact .filled_refl _
    · exact hs.filled
    · exact ⟨hg.1,hg.2.filled⟩
  have hindexed :
      ∀ own, IsWrittenBeside s seen files own (s.index.indexPath m.path.parent) := fun _ =>
    ⟨t.path,hfile,.inr hindex⟩
  refine ⟨h.filled.filled_trans hfill,fun c bytes executable hget => ?_,fun t' ht' he d' hd' => ?_,
    fun directory hd => ?_⟩
  · have hu := h.untouched c bytes executable hget
    rcases disk_of_moves hm with hsame | ⟨text,hs⟩ | hg
    · exact hsame ▸ hu
    · exact hu.saved ⟨t.path,hfile,.inr hindex⟩ hs
    · exact hu.grown hg
  · have hold : ∃ t₀ ∈ p.tasks, t₀.path = t'.path ∧ t₀.HasEmitted := by
      rcases List.mem_or_eq_of_mem_set ht' with ht' | rfl
      · exact ⟨t',ht',rfl,he⟩
      · refine ⟨t,List.mem_of_getElem? hi,rfl,?_⟩
        rw [Task.HasEmitted,ht]
        trivial
    obtain ⟨t₀,ht₀,hpath₀,he₀⟩ := hold
    rw [← hpath₀] at hd' ⊢
    have hr := h.modules t₀ ht₀ he₀ d' hd'
    rcases disk_of_moves hm with hsame | ⟨text,hs⟩ | hg
    · exact hsame ▸ hr
    · exact hr.saved (hindexed _) hs
    · exact hr.grown hg
  · rcases directories_of_moves hm directory hd with rfl | hd
    · exact ⟨t.path,hfile,hindex⟩
    · exact h.listed directory hd

/-- A module is written. -/
theorem emit (h : Wrote s seen files passed base p) (hi : p.tasks[i]? = some t)
    {fault : Option Fault}
    (ht : t.stage = .emitting d) (hpaths : p.tasks.map Task.path = files) (hnodup : files.Nodup)
    (hplan : plan s (seen t.path) t.path = .make d) {m : Hook.Module}
    (hr : run (s.hook.emit (Variant.select? d.kind d.hasVariables) d) p.world.disk = (.ok m,w.disk))
    (hindexes : w.indexes = p.world.indexes) (hpassed : passed p.world.disk) :
    Wrote s seen files passed base ⟨p.tasks.set i ⟨t.path,.registering m .waiting⟩,w,fault⟩ := by
  obtain ⟨-,text,hrender,hsave⟩ := Hook.Settings.emit_ok hr
  have hs := saved_of_save hsave
  have hmem := List.mem_of_getElem? hi
  have hfile : t.path ∈ files := hpaths ▸ List.mem_map_of_mem hmem
  have hmodule : IsModule s seen t.path (s.hook.outputPath d) := ⟨d,hplan,rfl⟩
  refine ⟨h.filled.filled_trans hs.filled,fun c bytes executable hget =>
    (h.untouched c bytes executable hget).saved ⟨t.path,hfile,.inl hmodule⟩ hs,
      fun t' ht' he d' hd' => ?_,
    fun directory hd => h.listed directory (hindexes ▸ hd)⟩
  rcases List.mem_or_eq_of_mem_set ht' with ht' | rfl
  · have hne : t.path ≠ t'.path := by
      intro heq
      obtain rfl := List.inj_on_of_nodup_map (hpaths ▸ hnodup) hmem ht' heq
      rw [Task.HasEmitted,ht] at he
      exact he
    exact (h.modules t' ht' he d' hd').saved ⟨t.path,hfile,.inl ⟨hne,hmodule⟩⟩ hs
  · obtain rfl := Plan.make.inj (hplan.symm.trans hd')
    exact ⟨p.world.disk,text,hpassed,hrender,.of_saved hs⟩

theorem advances (h : Wrote s seen files passed base p) (htold : Told s seen r p)
    (hi : p.tasks[i]? = some t) (hpaths : p.tasks.map Task.path = files) (hnodup : files.Nodup)
    {fault : Option Fault} (ha : Advances s t.path p.world t.stage stage w)
    (hf : ∀ fault, stage ≠ .failed fault) (hread : t.stage = .reading → seen t.path = p.world.disk)
    (hpassed : passed p.world.disk) :
    Wrote s seen files passed base ⟨p.tasks.set i ⟨t.path,stage⟩,w,fault⟩ := by
  have hfit := htold.fits t (List.mem_of_getElem? hi)
  have hfile : t.path ∈ files := hpaths ▸ List.mem_map_of_mem (List.mem_of_getElem? hi)
  generalize hstage : t.stage = stage₀ at ha hread
  cases ha with
  | read w hq =>
    refine h.quiet hi hq.disk hq.indexes fun he d hd => ?_
    rw [hread rfl,plan] at hd
    rcases opened_cases s p.world.disk t.path with ⟨entry,ho⟩ | ⟨d',ho⟩
      | ⟨fault,ho⟩ <;> rw [ho] at hd he
    · cases hd
    · exact absurd he id
    · cases hd
  | emit d m w hr hindexes hreport =>
    have hopen :
        opened s (seen t.path) t.path = .emitting d := by rw [Fits,hstage] at hfit; exact hfit
    have hplan : plan s (seen t.path) t.path = .make d :=
      (plan_of_emitting hopen).trans (if_pos (Hook.Settings.shaped_of_emit hr))
    exact h.emit hi hstage hpaths hnodup hplan hr hindexes hpassed
  | unsupported d w hv hq =>
    have hopen :
        opened s (seen t.path) t.path = .emitting d := by rw [Fits,hstage] at hfit; exact hfit
    refine h.quiet hi hq.disk hq.indexes fun _ d' hd' => ?_
    rw [plan_of_emitting hopen,hv] at hd'
    cases hd'
  | unemitted d fault w hv hr => exact absurd rfl (hf fault)
  | register m stage₁ stage₂ inner hm => exact h.register hi hstage hfit hm hfile
  | registered m =>
    refine h.quiet hi rfl rfl fun _ _ _ => ?_
    rw [Task.HasEmitted,hstage]
    trivial
  | unregistered m fault => exact absurd rfl (hf fault)
  | report entry =>
    refine h.quiet hi rfl rfl fun _ _ _ => ?_
    rw [Task.HasEmitted,hstage]
    trivial

end Wrote

end Wrote

def Passes (s : Setup) (p : Progress) (schedule : List Nat) (disk : Disk) : Prop :=
  ∃ before, before <+: schedule ∧ (p.follow s before).world.disk = disk

structure Along (s : Setup) (seen : Path → Disk) (files : List Path)
    (passed : Disk → Prop) (w : World)
    (before : List Nat) (p : Progress) : Prop where
  paths : p.tasks.map Task.path = files
  reads : ∀ i t, p.tasks[i]? = some t → (t.stage = .reading ↔ i ∉ before)
  told : Told s seen w.report p
  wrote : Wrote s seen files passed w.disk p

section Along

variable {s : Setup} {seen : Path → Disk} {files : List Path} {passed : Disk → Prop} {w : World}
variable {before schedule : List Nat} {p : Progress} {i : Nat} {path : Path}

theorem takeWhile_before (h : before ++ [i] <+: schedule) (hi : i ∉ before) :
    schedule.takeWhile (· ≠ i) = before := by
  obtain ⟨rest,rfl⟩ := h
  rw [List.append_assoc,List.takeWhile_append_of_pos fun j hj => ?_]
  · simp
  · have hne : j ≠ i := fun he => hi (he ▸ hj)
    simpa using hne

theorem diskAt_start (hnodup : files.Nodup) (hfile : files[i]? = some path)
    (h : before ++ [i] <+: schedule) (hi : i ∉ before) :
    (Progress.start files w).diskAt s schedule path =
      ((Progress.start files w).follow s before).world.disk := by
  have hpaths : (Progress.start files w).tasks.map Task.path = files := by
    show (files.map Task.start).map Task.path = files
    rw [List.map_map]
    exact List.map_id files
  obtain ⟨hlt,rfl⟩ := List.getElem?_eq_some_iff.1 hfile
  rw [Progress.diskAt,hpaths,hnodup.idxOf_getElem i hlt,takeWhile_before h hi]

namespace Along

theorem start (s : Setup) (seen : Path → Disk) (files : List Path) (passed : Disk → Prop)
    (hw : w.indexes = []) : Along s seen files passed w [] (.start files w) := by
  refine ⟨?_,fun i t ht => ?_,.start s seen files w,.start s seen files passed hw⟩
  · show (files.map Task.start).map Task.path = files
    rw [List.map_map]
    exact List.map_id files
  · have ht : (files.map Task.start)[i]? = some t := ht
    rw [List.getElem?_map] at ht
    obtain ⟨path,-,rfl⟩ := Option.map_eq_some_iff.1 ht
    simp [Task.start]

theorem file_of_task (h : Along s seen files passed w before p) {t : Task}
    (hi : p.tasks[i]? = some t) :
    files[i]? = some t.path := by
  rw [← h.paths,List.getElem?_map,hi]
  rfl

theorem task_of_file (h : Along s seen files passed w before p) (hfin : p.isFinished = true)
    (hm : path ∈ files) : ∃ t ∈ p.tasks, t.path = path ∧ t.stage = .finished := by
  rw [← h.paths] at hm
  obtain ⟨t,ht,rfl⟩ := List.mem_map.1 hm
  refine ⟨t,ht,rfl,?_⟩
  have hf := List.all_eq_true.1 hfin t ht
  obtain ⟨path,stage⟩ := t
  cases stage <;> first | rfl | cases hf

theorem entriesSeen_of_finished (h : Along s seen files passed w before p)
    (hfin : p.isFinished = true) :
    entriesSeen s seen p.tasks = files.filterMap fun path => (plan s (seen path) path).entry s := by
  rw [entriesSeen,← h.paths,List.filterMap_map]
  refine List.filterMap_congr fun t ht => ?_
  rw [if_pos (List.all_eq_true.1 hfin t ht)]
  rfl

theorem step (h : Along s seen files passed w before p) (hnodup : files.Nodup)
    (hread : i ∉ before → ∀ path, files[i]? = some path → seen path = p.world.disk)
    (hpassed : passed p.world.disk) (hf : (p.step s i).fault = none) :
    Along s seen files passed w (before ++ [i]) (p.step s i) := by
  rcases step_cases s p i with ⟨hs,hnone⟩ | ⟨t,stage,w',hi,ha,hs⟩ <;> rw [hs] at hf ⊢
  · -- A task that stands still has read its file.
    refine ⟨h.paths,fun j t hj => ?_,h.told,h.wrote⟩
    rw [h.reads j t hj,List.mem_append,not_or]
    refine ⟨fun hb => ⟨hb,?_⟩,And.left⟩
    intro hm
    obtain rfl := List.mem_singleton.1 hm
    rcases advance_eq_none (hnone t hj) with he | ⟨fault,he⟩ | ⟨m,stage,he,-⟩ <;>
      rw [(h.reads j t hj).2 hb] at he <;> cases he
  · have hfit := h.told.fits t (List.mem_of_getElem? hi)
    have hadv := advances_of_advance hfit.named ha
    have hstage : ∀ fault, stage ≠ .failed fault := fun fault he => by
      rw [he] at hf
      cases hf' : p.fault <;> rw [hf'] at hf <;> cases hf
    have hseen : t.stage = .reading → seen t.path = p.world.disk := fun hr =>
      hread ((h.reads i t hi).1 hr) t.path (h.file_of_task hi)
    have hpaths : (p.tasks.set i ⟨t.path,stage⟩).map Task.path = p.tasks.map Task.path :=
      paths_set hi rfl
    refine ⟨hpaths.trans h.paths,fun j t' hj => ?_,h.told.advances hi hadv hstage hseen,
      h.wrote.advances h.told hi h.paths hnodup hadv hstage hseen hpassed⟩
    obtain ⟨hlt,-⟩ := List.getElem?_eq_some_iff.1 hi
    rw [List.getElem?_set] at hj
    by_cases he : i = j
    · subst he
      rw [if_pos rfl,if_pos hlt] at hj
      obtain rfl := Option.some.inj hj
      simp [reading_of_advances hadv]
    · rw [if_neg he] at hj
      rw [h.reads j t' hj,List.mem_append]
      simp [Ne.symm he]

end Along

theorem along_of_follow (hw : w.indexes = []) (hnodup : files.Nodup)
    (hf : ((Progress.start files w).follow s schedule).fault = none) (hb : before <+: schedule) :
    Along s ((Progress.start files w).diskAt s schedule) files
      (Passes s (.start files w) schedule) w before
      ((Progress.start files w).follow s before) := by
  induction before using List.reverseRecOn with
  | nil => exact .start s _ files _ hw
  | append_singleton before i ih =>
    have hb' : before <+: schedule := (List.prefix_append before [i]).trans hb
    have hfollow : ∀ xs, xs <+: schedule → ((Progress.start files w).follow s xs).fault = none := by
      rintro xs ⟨rest,rfl⟩
      rw [follow_append] at hf
      exact fault_of_follow hf
    rw [follow_concat]
    refine (ih hb').step hnodup (fun hi path hfile => diskAt_start hnodup hfile hb hi)
      ⟨before,hb',rfl⟩ ?_
    rw [← follow_concat]
    exact hfollow _ hb

end Along

end OperationHooks.Run
