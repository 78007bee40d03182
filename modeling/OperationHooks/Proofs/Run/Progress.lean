import OperationHooks.Proofs.Index.Flush
import OperationHooks.Proofs.Run.Task
/-!
Tasks that take their steps in any order. Whatever has been done so far, each module that was
written is a rendering of a definition that goes there, the registrations stand as the tasks do, and
nothing else on the disk has changed.
-/
set_option autoImplicit false

namespace OperationHooks.Run
open Effect Disk Index

def Uses (s : Setup) (files : List Path) (directory : Path) : Prop :=
  ∃ p ∈ files, s.hook.outputDirectory p = directory

/-- A run may write to a place: it is right in an output directory and has the extension of hooks.
-/
def Generated (s : Setup) (base : Disk) (files : List Path) (q : Place) : Prop :=
  ∃ directory stem, Uses s files directory ∧
    q = placeOf base directory ++ [stem ++ "." ++ s.hook.extension]

/-- What tasks for some files can rely on: their output directories are there, and no definition is
in one of them. -/
structure Prepared (s : Setup) (base : Disk) (files : List Path) : Prop where
  ground : Ground s.index base (Uses s files)
  names : s.hook.IsSlashFree
  extension : s.index.extension = s.hook.extension
  apart : ∀ p ∈ files, ∀ directory, Uses s files directory →
    Tree.isBelow (placeOf base directory) (placeOf base p) = false

def modulePlace (s : Setup) (base : Disk) (d : Descriptor) : Place :=
  placeOf base (s.hook.outputPath d)

section Prepared

variable {s : Setup} {base disk disk' : Disk} {files : List Path}
  {p directory : Path} {d : Descriptor}

theorem isNamed_of_plan (h : plan s base p = .make d) : d.IsNamed :=
  Descriptor.isNamed_of_ofFile (emitting_of_opened (plan_make h).1).1

theorem sourcePath_of_plan (h : plan s base p = .make d) : d.sourcePath = p :=
  Descriptor.sourcePath_of_ofFile (emitting_of_opened (plan_make h).1).1

namespace Prepared

theorem outputPath_eq (h : Prepared s base files) (hp : plan s base p = .make d) :
    s.hook.outputPath d = childOf (s.hook.outputDirectory p) (s.hook.fileName d) := by
  rw [h.names.outputPath_eq (isNamed_of_plan hp),sourcePath_of_plan hp]

theorem stem_outputPath (h : Prepared s base files) (hp : plan s base p = .make d) :
    (s.hook.outputPath d).stem = s.hook.nameOf d := h.names.stem_outputPath (isNamed_of_plan hp)

theorem isPart (h : Prepared s base files) (hp : plan s base p = .make d) :
    Path.IsPart (s.hook.fileName d) ∧ s.hook.fileName d ≠ ".." :=
      h.names.isPart (isNamed_of_plan hp)

theorem modulePlace_eq (h : Prepared s base files) (hp : plan s base p = .make d) :
    modulePlace s base d = placeOf base (s.hook.outputDirectory p) ++ [s.hook.fileName d] := by
  rw [modulePlace,h.outputPath_eq hp,placeOf_childOf base _ (h.isPart hp).1.2.1 (h.isPart hp).2]

theorem indexFile_eq (h : Prepared s base files) :
    s.index.fileName = "index" ++ "." ++ s.hook.extension := by
  rw [← h.extension]; rfl

theorem generated_index (h : Prepared s base files) (hu : Uses s files directory) :
    Generated s base files (indexPlace s.index base directory) :=
  ⟨directory,"index",hu,by rw [indexPlace,h.indexFile_eq]⟩

theorem generated_module (h : Prepared s base files) (hm : p ∈ files)
    (hp : plan s base p = .make d) :
    Generated s base files (modulePlace s base d) :=
  ⟨_,s.hook.nameOf d,⟨p,hm,rfl⟩,h.modulePlace_eq hp⟩

theorem not_generated (h : Prepared s base files) (hm : p ∈ files) :
    ¬ Generated s base files (placeOf base p) := by
  rintro ⟨directory,stem,hu,he⟩
  have hbelow := h.apart p hm directory hu
  rw [he,Tree.isBelow_concat] at hbelow; cases hbelow

theorem modulePlace_ne (h : Prepared s base files) (hp : plan s base p = .make d) :
    modulePlace s base d ≠ indexPlace s.index base directory := by
  rw [h.modulePlace_eq hp,indexPlace,h.indexFile_eq]
  intro he
  exact Hook.Settings.fileName_ne_index s.hook d (List.append_singleton_inj.1 he).2

theorem modulePlace_ne_nil (h : Prepared s base files) (hp : plan s base p = .make d) :
    modulePlace s base d ≠ [] := by rw [h.modulePlace_eq hp]; simp

/-- Definitions are read as they were before the first task took a step. -/
theorem read_iff (h : Prepared s base files) (ho : Overlaid (Generated s base files) base disk)
    (hm : p ∈ files) (bytes : List UInt8) : disk.read p = .ok bytes ↔ base.read p = .ok bytes :=
  read_overlaid h.ground.linkFree ho (h.not_generated hm)

/-- What a task finds in its file is what was there from the start, unless it fails. -/
theorem opened_eq (h : Prepared s base files) (ho : Overlaid (Generated s base files) base disk)
    (hm : p ∈ files) (hf : ∀ fault, opened s disk p ≠ .failed fault) :
    opened s disk p = opened s base p := by
  cases hr : disk.read p with
  | error fault =>
    obtain ⟨fault,hfault⟩ := opened_of_unread (s := s) hr
    exact absurd hfault (hf fault)
  | ok bytes => exact opened_congr (h.read_iff ho hm) ⟨bytes,(h.read_iff ho hm bytes).1 hr⟩

theorem save_module (h : Prepared s base files) (ho : Overlaid (Generated s base files) base disk)
    (hm : p ∈ files) (hp : plan s base p = .make d) (text : String) :
    (CanWrite base (s.hook.outputPath d) ∧ run (save (s.hook.outputPath d) text) disk =
        (.ok (),disk.putAt (modulePlace s base d)
          (stored (disk.tree.get? (modulePlace s base d)) (Text.encode text)))) ∨
      ¬ CanWrite base (s.hook.outputPath d) ∧
        ∃ fault, run (save (s.hook.outputPath d) text) disk = (.error fault,disk) := by
  unfold modulePlace
  rw [h.outputPath_eq hp]
  exact save_overlaid h.ground.linkFree ho (h.ground.there _ ⟨p,hm,rfl⟩) (h.isPart hp).1.2.1
    (h.isPart hp).2 text

theorem emit_ok (h : Prepared s base files) (ho : Overlaid (Generated s base files) base disk)
    (hm : p ∈ files) (hp : plan s base p = .make d) {m : Hook.Module}
    (he : run (s.hook.emit (Variant.select? d.kind d.hasVariables) d) disk = (.ok m,disk')) :
    m.path = s.hook.outputPath d ∧ CanWrite base (s.hook.outputPath d) ∧
      ∃ text, s.hook.Rendering disk d text ∧ disk' = disk.putAt (modulePlace s base d)
        (stored (disk.tree.get? (modulePlace s base d)) (Text.encode text)) := by
  obtain ⟨hpath,text,hr,hsave⟩ := Hook.Settings.emit_ok he
  rcases h.save_module ho hm hp text with ⟨hcan,hs⟩ | ⟨-,fault,hs⟩ <;> rw [hsave] at hs
  · exact ⟨hpath,hcan,text,hr,(Prod.mk.inj hs).2⟩
  · cases hs

theorem emit_total (h : Prepared s base files) (ho : Overlaid (Generated s base files) base disk)
    (hm : p ∈ files) (hp : plan s base p = .make d) (hcan : CanWrite base (s.hook.outputPath d))
    {text : String} (ht : s.hook.Rendering disk d text) :
    ∃ m disk', run (s.hook.emit (Variant.select? d.kind d.hasVariables) d) disk =
      (.ok m,disk') := by
  obtain ⟨content,hr,hf⟩ := ht
  rcases h.save_module ho hm hp text with ⟨-,hs⟩ | ⟨hcan',-⟩
  · exact ⟨_,_,Hook.Settings.emit_of_render hr hf hs⟩
  · exact absurd hcan hcan'

end Prepared

end Prepared

def callOf (s : Setup) (base : Disk) (t : Task) : Option Call :=
  match plan s base t.path, t.stage with
  | .make d, .registering _ stage => some ⟨s.hook.outputDirectory t.path,s.hook.nameOf d,stage⟩
  | .make d, .reporting _ => some ⟨s.hook.outputDirectory t.path,s.hook.nameOf d,.ended none⟩
  | .make d, .finished => some ⟨s.hook.outputDirectory t.path,s.hook.nameOf d,.ended none⟩
  | _, _ => none

def callsOf (s : Setup) (base : Disk) (tasks : List Task) : Calls := fun i =>
  tasks[i]?.bind (callOf s base)

def Fits (s : Setup) (base : Disk) (t : Task) : Prop :=
  match t.stage with
  | .reading => True
  | .emitting d => opened s base t.path = .emitting d
  | .registering m _ => ∃ d, plan s base t.path = .make d ∧ m.path = s.hook.outputPath d
  | .reporting entry => (plan s base t.path).entry s = some entry
  | .finished => ∃ entry, (plan s base t.path).entry s = some entry
  | .failed _ => False

def HasEmitted (s : Setup) (base : Disk) (files : List Path) (calls : Calls)
    (d : Descriptor) : Prop :=
  ∃ i p c, files[i]? = some p ∧ plan s base p = .make d ∧ calls i = some c

/-- At a place is a rendering of some definition that goes there. -/
def HasModule (s : Setup) (base : Disk) (files : List Path) (calls : Calls)
    (disk : Disk) (q : Place) :
    Prop :=
  ∃ d disk' text, HasEmitted s base files calls d ∧ modulePlace s base d = q ∧
    Overlaid (Generated s base files) base disk' ∧ s.hook.Rendering disk' d text ∧
    disk.tree.get? q = some (stored (base.tree.get? q) (Text.encode text))

structure Laid (s : Setup) (base : Disk) (files : List Path) (calls : Calls) (w : Index.World) :
    Prop where
  named : ∀ i c, calls i = some c → ∃ p d, files[i]? = some p ∧ plan s base p = .make d ∧
    c.directory = s.hook.outputDirectory p ∧ c.baseName = s.hook.nameOf d
  overlaid : Overlaid (Generated s base files) base w.disk
  coherent : Coherent calls w.indexes
  filed : Filed s.index base (Uses s files) calls w
  emitted : ∀ d, HasEmitted s base files calls d → CanWrite base (s.hook.outputPath d) ∧
    (∃ disk text, Overlaid (Generated s base files) base disk ∧ s.hook.Rendering disk d text) ∧
    HasModule s base files calls w.disk (modulePlace s base d)
  elsewhere : ∀ q, (∀ directory, Uses s files directory → q ≠ indexPlace s.index base directory) →
    (∀ d, HasEmitted s base files calls d → q ≠ modulePlace s base d) →
    w.disk.tree.get? q = base.tree.get? q

section Laid

variable {s : Setup} {base disk : Disk} {files : List Path} {calls : Calls}
  {w w' : Index.World} {i : Nat}
variable {p : Path} {d : Descriptor} {c : Call}

theorem hasEmitted_put (hi : ∃ c, calls i = some c) (d : Descriptor) :
    HasEmitted s base files (calls.put i c) d ↔ HasEmitted s base files calls d := by
  obtain ⟨c₀,hi⟩ := hi
  constructor
  · rintro ⟨j,p,c',hj,hp,hc⟩
    by_cases he : j = i
    · subst he; exact ⟨j,p,c₀,hj,hp,hi⟩
    · rw [Calls.put_of_ne _ _ he] at hc; exact ⟨j,p,c',hj,hp,hc⟩
  · rintro ⟨j,p,c',hj,hp,hc⟩
    by_cases he : j = i
    · subst he; exact ⟨j,p,c,hj,hp,Calls.put_self _ _ _⟩
    · exact ⟨j,p,c',hj,hp,by rwa [Calls.put_of_ne _ _ he]⟩

theorem HasEmitted.enter (h : HasEmitted s base files calls d) (hi : calls i = none) (c : Call) :
    HasEmitted s base files (calls.put i c) d := by
  obtain ⟨j,p,c',hj,hp,hc⟩ := h
  refine ⟨j,p,c',hj,hp,?_⟩
  rwa [Calls.put_of_ne]
  rintro rfl; rw [hi] at hc; cases hc

theorem HasModule.mono {calls' : Calls} {disk' : Disk} {q : Place}
    (h : HasModule s base files calls disk q)
    (hc : ∀ d, HasEmitted s base files calls d → HasEmitted s base files calls' d)
    (hq : disk'.tree.get? q = disk.tree.get? q) : HasModule s base files calls' disk' q := by
  obtain ⟨d,disk₀,text,he,hplace,ho,hr,hd⟩ := h
  exact ⟨d,disk₀,text,hc d he,hplace,ho,hr,hq.trans hd⟩

namespace Laid

theorem uses (h : Laid s base files calls w) {i : Nat} {c : Call} (hi : calls i = some c) :
    Uses s files c.directory := by
  obtain ⟨p,d,hp,-,hd,-⟩ := h.named i c hi
  exact ⟨p,List.mem_of_getElem? hp,hd.symm⟩

theorem quiet (h : Laid s base files calls w) (hdisk : w'.disk = w.disk)
    (hindexes : w'.indexes = w.indexes) :
    Laid s base files calls w' :=
  ⟨h.named,hdisk ▸ h.overlaid,hindexes ▸ h.coherent,
    h.filed.elsewhere h.coherent (fun _ _ => h.uses) hindexes (fun _ _ => by rw [hdisk]),
    hdisk ▸ h.emitted,hdisk ▸ h.elsewhere⟩

theorem register (h : Laid s base files calls w) (hp : Prepared s base files) {directory : Path}
    {baseName : String} {stage stage' : Index.Stage}
    (hi : calls i = some ⟨directory,baseName,stage⟩)
    (hm : Moves s.index directory baseName w stage stage' w') :
    Laid s base files (calls.put i ⟨directory,baseName,stage'⟩) w' := by
  have hu : Uses s files directory := h.uses hi
  obtain ⟨hfiled,hover⟩ := h.filed.moves hp.ground h.coherent (fun _ _ => h.uses) h.overlaid
    (fun _ => hp.generated_index) hi hm
  have hkeep := hp.ground.disk_of_moves h.overlaid hu hm
  have hemitted : ∀ d, HasEmitted s base files (calls.put i ⟨directory,baseName,stage'⟩) d ↔
      HasEmitted s base files calls d := hasEmitted_put ⟨_,hi⟩
  refine ⟨fun j c hj => ?_,hover,h.coherent.moves hi hm,hfiled,fun d hd => ?_,fun q hq hq' => ?_⟩
  · by_cases he : j = i
    · subst he
      rw [Calls.put_self] at hj
      obtain rfl := Option.some.inj hj
      obtain ⟨p,d,hname⟩ := h.named j _ hi
      exact ⟨p,d,hname⟩
    · rw [Calls.put_of_ne _ _ he] at hj; exact h.named j c hj
  · obtain ⟨hcan,hrender,hmodule⟩ := h.emitted d ((hemitted d).1 hd)
    obtain ⟨_,p,_,-,hplan,-⟩ := hd
    exact ⟨hcan,hrender,hmodule.mono (fun d => (hemitted d).2) (hkeep _ (hp.modulePlace_ne hplan))⟩
  · rw [hkeep q (hq directory hu)]
    exact h.elsewhere q hq fun d hd => hq' d ((hemitted d).2 hd)

/-- A module is written, and its registration comes up. -/
theorem emit (h : Laid s base files calls w) (hp : Prepared s base files) (hi : calls i = none)
    (hfile : files[i]? = some p) (hplan : plan s base p = .make d) {m : Hook.Module}
    (he : run (s.hook.emit (Variant.select? d.kind d.hasVariables) d) w.disk = (.ok m,w'.disk))
    (hindexes : w'.indexes = w.indexes) :
    Laid s base files (calls.put i ⟨s.hook.outputDirectory p,s.hook.nameOf d,.waiting⟩) w' := by
  have hmem := List.mem_of_getElem? hfile
  obtain ⟨-,hcan,text,hr,hdisk⟩ := hp.emit_ok h.overlaid hmem hplan he
  have hne := hp.modulePlace_ne_nil hplan
  have hstored : stored (w.disk.tree.get? (modulePlace s base d)) (Text.encode text) =
      stored (base.tree.get? (modulePlace s base d)) (Text.encode text) := by
    by_cases hd : ∃ d', HasEmitted s base files calls d' ∧ modulePlace s base d =
      modulePlace s base d'
    · obtain ⟨d',hd',heq⟩ := hd
      obtain ⟨_,_,text',-,-,-,-,hget⟩ := (h.emitted d' hd').2.2
      rw [← heq] at hget
      rw [hget]; rfl
    · rw [h.elsewhere _ (fun _ _ => hp.modulePlace_ne hplan) fun d' hd' heq => hd ⟨d',hd',heq⟩]
  rw [hstored] at hdisk
  have hself : w'.disk.tree.get? (modulePlace s base d) =
      some (stored (base.tree.get? (modulePlace s base d)) (Text.encode text)) := by
    rw [hdisk]; exact Tree.get?_put_self hne _
  have hother : ∀ q, q ≠ modulePlace s base d → w'.disk.tree.get? q = w.disk.tree.get? q :=
    fun q hq => by
    rw [hdisk]; exact Tree.get?_put_of_ne hne _ hq
  have hover : Overlaid (Generated s base files) base w'.disk := by
    rw [hdisk]
    refine h.overlaid.put (hp.generated_module hmem hplan) hne ?_ _ _
    rw [hp.outputPath_eq hplan] at hcan
    rw [hp.modulePlace_eq hplan]
    exact ((canWrite_childOf hp.ground.linkFree (hp.ground.there _ ⟨p,hmem,rfl⟩)
      (hp.isPart hplan).1.2.1
      (hp.isPart hplan).2).1 hcan).2.2
  generalize hc : (⟨s.hook.outputDirectory p,s.hook.nameOf d,.waiting⟩ : Call) = c
  have hwait : c.stage = .waiting := by rw [← hc]
  have hnew : HasEmitted s base files (calls.put i c) d := ⟨i,p,c,hfile,hplan,Calls.put_self _ _ _⟩
  have hcases : ∀ d', HasEmitted s base files (calls.put i c) d' →
      d' = d ∨ HasEmitted s base files calls d' := by
    rintro d' ⟨j,p',c',hj,hp',hc'⟩
    by_cases he : j = i
    · subst he
      rw [hfile] at hj
      obtain rfl := Option.some.inj hj
      exact .inl (Plan.make.inj (hp'.symm.trans hplan))
    · rw [Calls.put_of_ne _ _ he] at hc'; exact .inr ⟨j,p',c',hj,hp',hc'⟩
  have hmodule : HasModule s base files (calls.put i c) w'.disk (modulePlace s base d) :=
    ⟨d,w.disk,text,hnew,rfl,h.overlaid,hr,hself⟩
  have hfiled : Filed s.index base (Uses s files) calls w' :=
    h.filed.elsewhere h.coherent (fun _ _ => h.uses) hindexes fun directory _ =>
      hother _ fun heq => hp.modulePlace_ne hplan heq.symm
  refine ⟨fun j c' hj => ?_,hover,hindexes ▸ h.coherent.enter hi hwait,hfiled.enter hi hwait,
    fun d' hd' => ?_,fun q hq hq' => ?_⟩
  · by_cases he : j = i
    · subst he
      rw [Calls.put_self] at hj
      obtain rfl := Option.some.inj hj
      rw [← hc]; exact ⟨p,d,hfile,hplan,rfl,rfl⟩
    · rw [Calls.put_of_ne _ _ he] at hj; exact h.named j c' hj
  · rcases hcases d' hd' with rfl | hold
    · exact ⟨hcan,⟨w.disk,text,h.overlaid,hr⟩,hmodule⟩
    · obtain ⟨hcan',hrender',hmodule'⟩ := h.emitted d' hold
      refine ⟨hcan',hrender',?_⟩
      by_cases heq : modulePlace s base d' = modulePlace s base d
      · rw [heq]; exact hmodule
      · exact hmodule'.mono (fun _ he => he.enter hi c) (hother _ heq)
  · rw [hother q (hq' d hnew)]
    exact h.elsewhere q hq fun d' hd' => hq' d' (hd'.enter hi c)

end Laid

end Laid

def entriesOf (s : Setup) (base : Disk) (tasks : List Task) : List Entry :=
  tasks.filterMap fun t => if t.isFinished then (plan s base t.path).entry s else none

/-- What holds of the tasks while none of them has failed; `r` is the report they began with. -/
structure Sound (s : Setup) (base : Disk) (files : List Path) (r : Report)
    (p : Progress) : Prop where
  paths : p.tasks.map Task.path = files
  fits : ∀ t ∈ p.tasks, Fits s base t
  laid : Laid s base files (callsOf s base p.tasks) p.world.toWorld
  report : ∃ entries : List Entry, p.world.report = entries.foldl Entry.add r ∧
    entries.Perm (entriesOf s base p.tasks)

section Tasks

variable {s : Setup} {base : Disk} {files : List Path} {tasks : List Task} {t t' : Task} {i : Nat}

theorem callsOf_set (hi : tasks[i]? = some t) (j : Nat) :
    callsOf s base (tasks.set i t') j = if j = i then callOf s base t' else
      callsOf s base tasks j := by
  have hlt : i < tasks.length := (List.getElem?_eq_some_iff.1 hi).1
  unfold callsOf
  rw [List.getElem?_set]
  by_cases he : j = i
  · subst he; simp [hlt]
  · simp [he,Ne.symm he]

theorem callsOf_set_same (hi : tasks[i]? = some t) (hc : callOf s base t' = callOf s base t) :
    callsOf s base (tasks.set i t') = callsOf s base tasks := by
  funext j
  rw [callsOf_set hi]
  split
  · rename_i he; rw [hc,he,callsOf,hi]; rfl
  · rfl

theorem callsOf_set_put (hi : tasks[i]? = some t) {c : Call} (hc : callOf s base t' = some c) :
    callsOf s base (tasks.set i t') = (callsOf s base tasks).put i c := by
  funext j
  rw [callsOf_set hi,hc]
  rfl

theorem filterMap_set_same {α β : Type} {f : α → Option β} {xs : List α} {x x' : α} {i : Nat}
    (hi : xs[i]? = some x) (hf : f x' = f x) : (xs.set i x').filterMap f = xs.filterMap f := by
  induction xs generalizing i with
  | nil => rfl
  | cons y rest ih =>
    cases i with
    | zero => obtain rfl := Option.some.inj hi; simp [List.filterMap_cons,hf]
    | succ i => simp only [List.set_cons_succ,List.filterMap_cons,ih (i := i) hi]

theorem filterMap_set_new {α β : Type} {f : α → Option β} {xs : List α} {x x' : α} {y : β} {i : Nat}
    (hi : xs[i]? = some x) (hf : f x = none) (hf' : f x' = some y) :
    ((xs.set i x').filterMap f).Perm (y :: xs.filterMap f) := by
  induction xs generalizing i with
  | nil => cases hi
  | cons z rest ih =>
    cases i with
    | zero => obtain rfl := Option.some.inj hi; simp [hf,hf']
    | succ i =>
      simp only [List.set_cons_succ,List.filterMap_cons]
      cases f z with
      | none => exact ih (i := i) hi
      | some y' => exact ((ih (i := i) hi).cons y').trans (List.Perm.swap ..)

theorem paths_set (hi : tasks[i]? = some t) (hp : t'.path = t.path) :
    (tasks.set i t').map Task.path = tasks.map Task.path := by
  obtain ⟨hlt,rfl⟩ := List.getElem?_eq_some_iff.1 hi
  refine List.ext_getElem? fun j => ?_
  rw [List.getElem?_map,List.getElem?_map,List.getElem?_set]
  by_cases he : i = j
  · subst he; simp [hlt,hp]
  · simp [he]

theorem callOf_registering {path : Path} {d : Descriptor} (hp : plan s base path = .make d)
    (m : Hook.Module) (stage : Index.Stage) : callOf s base ⟨path,.registering m stage⟩ =
      some ⟨s.hook.outputDirectory path,s.hook.nameOf d,stage⟩ := by unfold callOf; rw [hp]

theorem callOf_reporting {path : Path} {d : Descriptor}
    (hp : plan s base path = .make d) (entry : Entry) :
    callOf s base ⟨path,.reporting entry⟩ =
      some ⟨s.hook.outputDirectory path,s.hook.nameOf d,.ended none⟩ := by unfold callOf; rw [hp]

theorem callOf_finished {path : Path} {d : Descriptor} (hp : plan s base path = .make d) :
    callOf s base ⟨path,.finished⟩ =
      some ⟨s.hook.outputDirectory path,s.hook.nameOf d,.ended none⟩ := by unfold callOf; rw [hp]

@[simp] theorem callOf_reading (path : Path) : callOf s base ⟨path,.reading⟩ = none := by
  unfold callOf; cases plan s base path <;> rfl

@[simp] theorem callOf_emitting (path : Path) (d : Descriptor) :
    callOf s base ⟨path,.emitting d⟩ = none := by
  unfold callOf; cases plan s base path <;> rfl

theorem callOf_eq_none (hp : ∀ d, plan s base t.path ≠ .make d) : callOf s base t = none := by
  unfold callOf
  split
  · exact absurd ‹_› (hp _)
  · exact absurd ‹_› (hp _)
  · exact absurd ‹_› (hp _)
  · rfl

end Tasks

namespace Sound

variable {s : Setup} {base : Disk} {files : List Path} {r : Report} {p : Progress}
  {t : Task} {i : Nat}

theorem file_of_task (h : Sound s base files r p) (hi : p.tasks[i]? = some t) :
    files[i]? = some t.path := by
  rw [← h.paths,List.getElem?_map,hi]; rfl

theorem step (h : Sound s base files r p) (hi : p.tasks[i]? = some t) {stage : Stage} {w : World}
    {fault : Option Fault} (hfits : Fits s base ⟨t.path,stage⟩)
    (hlaid : Laid s base files (callsOf s base (p.tasks.set i ⟨t.path,stage⟩)) w.toWorld)
    (hreport : ∃ entries : List Entry, w.report = entries.foldl Entry.add r ∧
      entries.Perm (entriesOf s base (p.tasks.set i ⟨t.path,stage⟩))) :
    Sound s base files r ⟨p.tasks.set i ⟨t.path,stage⟩,w,fault⟩ := by
  refine ⟨?_,fun t' ht' => ?_,hlaid,hreport⟩
  · have hpaths : (p.tasks.set i ⟨t.path,stage⟩).map Task.path = p.tasks.map Task.path :=
      paths_set hi rfl
    exact hpaths.trans h.paths
  · rcases List.mem_or_eq_of_mem_set ht' with ht' | rfl
    · exact h.fits t' ht'
    · exact hfits

/-- A step that registers nothing and leaves the disk as it is. -/
theorem quiet (h : Sound s base files r p) (hi : p.tasks[i]? = some t) {stage : Stage} {w : World}
    {fault : Option Fault} (hdisk : w.disk = p.world.disk) (hindexes : w.indexes = p.world.indexes)
    (hfits : Fits s base ⟨t.path,stage⟩) (hc : callOf s base ⟨t.path,stage⟩ = callOf s base t)
    (hreport : ∃ entries : List Entry, w.report = entries.foldl Entry.add r ∧
      entries.Perm (entriesOf s base (p.tasks.set i ⟨t.path,stage⟩))) :
    Sound s base files r ⟨p.tasks.set i ⟨t.path,stage⟩,w,fault⟩ :=
  h.step hi hfits (by rw [callsOf_set_same hi hc]; exact h.laid.quiet hdisk hindexes) hreport

theorem report_unfinished (h : Sound s base files r p) (hi : p.tasks[i]? = some t) {stage : Stage}
    {w : World} (hr : w.report = p.world.report) (ht : t.isFinished = false)
    (ht' : Task.isFinished ⟨t.path,stage⟩ = false) :
    ∃ entries : List Entry, w.report = entries.foldl Entry.add r ∧
      entries.Perm (entriesOf s base (p.tasks.set i ⟨t.path,stage⟩)) := by
  obtain ⟨entries,he,hperm⟩ := h.report
  refine ⟨entries,hr.trans he,?_⟩
  rw [entriesOf,filterMap_set_same hi (by simp [ht,ht'])]
  exact hperm

/-- One step of a task that does not fail. -/
theorem advances (h : Sound s base files r p) (hp : Prepared s base files)
    (hi : p.tasks[i]? = some t)
    {stage : Stage} {w : World} {fault : Option Fault}
    (ha : Advances s t.path p.world t.stage stage w)
    (hf : ∀ fault, stage ≠ .failed fault) :
    Sound s base files r ⟨p.tasks.set i ⟨t.path,stage⟩,w,fault⟩ := by
  obtain ⟨path,stage₀⟩ := t
  have hfile := h.file_of_task hi
  have hmem := List.mem_of_getElem? hfile
  have hfit := h.fits _ (List.mem_of_getElem? hi)
  dsimp only at ha hfile hmem ⊢
  cases ha with
  | read w hq =>
    have hopen := hp.opened_eq h.laid.overlaid hmem hf
    refine h.quiet hi hq.disk hq.indexes ?_ ?_ (h.report_unfinished hi hq.report rfl ?_)
    · rcases opened_cases s base path with ⟨entry,ho⟩ | ⟨d,ho⟩ | ⟨fault,ho⟩ <;> rw [hopen,ho]
      · show Plan.entry s (plan s base path) = _
        rw [plan,ho]; rfl
      · exact ho
      · exact absurd (hopen.trans ho) (hf fault)
    · rcases opened_cases s base path with ⟨entry,ho⟩ | ⟨d,ho⟩ | ⟨fault,ho⟩ <;> rw [hopen,ho]
      · rw [callOf_eq_none,callOf_reading]
        intro d hd
        rw [plan,ho] at hd; cases hd
      · simp
      · exact absurd (hopen.trans ho) (hf fault)
    · rcases opened_cases s base path with ⟨entry,ho⟩ | ⟨d,ho⟩ | ⟨fault,ho⟩ <;>
        rw [hopen,ho] <;> rfl
  | emit d m w hr hindexes hreport =>
    have hopen : opened s base path = .emitting d := hfit
    have hplan : plan s base path = .make d := by
      rw [plan_of_emitting hopen,if_pos (Hook.Settings.shaped_of_emit hr)]
    have hnone : callsOf s base p.tasks i = none := by rw [callsOf,hi]; exact callOf_emitting _ _
    obtain ⟨hpath,-⟩ := hp.emit_ok h.laid.overlaid hmem hplan hr
    refine h.step hi ⟨d,hplan,hpath⟩ ?_ (h.report_unfinished hi hreport rfl rfl)
    rw [callsOf_set_put hi (callOf_registering hplan m .waiting)]
    exact h.laid.emit hp hnone hfile hplan hr hindexes
  | unsupported d w hv hq =>
    have hopen : opened s base path = .emitting d := hfit
    have hplan : plan s base path = .report (unsupported path d) := by
      rw [plan_of_emitting hopen,if_neg (by simp [hv])]
    refine h.quiet hi hq.disk hq.indexes ?_ ?_ (h.report_unfinished hi hq.report rfl rfl)
    · show Plan.entry s (plan s base path) = _
      rw [hplan]; rfl
    · rw [callOf_eq_none (by simp [hplan]),callOf_emitting]
  | unemitted d fault w hv hr => exact absurd rfl (hf fault)
  | register m stage₁ stage₂ inner hm =>
    obtain ⟨d,hplan,hpath⟩ := hfit
    have hcall :
        callsOf s base p.tasks i = some ⟨s.hook.outputDirectory path,s.hook.nameOf d,stage₁⟩ := by
      rw [callsOf,hi]; exact callOf_registering hplan m stage₁
    have hm' : Moves s.index (s.hook.outputDirectory path) (s.hook.nameOf d) p.world.toWorld
        stage₁ stage₂ inner := by
      rw [Hook.Module.baseName,hpath,hp.stem_outputPath hplan,hp.outputPath_eq hplan,
        parent_childOf] at hm
      exact hm
    refine h.step hi ⟨d,hplan,hpath⟩ ?_ (h.report_unfinished hi rfl rfl rfl)
    rw [callsOf_set_put hi (callOf_registering hplan m stage₂)]
    exact h.laid.register hp hcall hm'
  | registered m =>
    obtain ⟨d,hplan,hpath⟩ := hfit
    refine h.quiet hi rfl rfl ?_ ?_ (h.report_unfinished hi rfl rfl rfl)
    · show Plan.entry s (plan s base path) = _
      rw [hplan,hpath]; rfl
    · rw [callOf_reporting hplan,callOf_registering hplan]
  | unregistered m fault => exact absurd rfl (hf fault)
  | report entry =>
    have hentry : (plan s base path).entry s = some entry := hfit
    refine h.quiet hi rfl rfl ⟨entry,hentry⟩ ?_ ?_
    · cases hplan : plan s base path with
      | make d => rw [callOf_finished hplan,callOf_reporting hplan]
      | _ => rw [callOf_eq_none (by simp [hplan]),callOf_eq_none (by simp [hplan])]
    · obtain ⟨entries,he,hperm⟩ := h.report
      refine ⟨entries ++ [entry],by rw [List.foldl_append,← he]; rfl,?_⟩
      refine List.Perm.trans ?_ (filterMap_set_new hi rfl hentry).symm
      exact (List.perm_append_singleton entry entries).trans (hperm.cons entry)

end Sound

end OperationHooks.Run
