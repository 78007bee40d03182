import OperationHooks.Proofs.Disk.Alike
import OperationHooks.Proofs.Format
import OperationHooks.Proofs.Index.Modes
import OperationHooks.Proofs.Run.Course
/-!
Two runs in worlds that are alike: the same entries on the disk, the same indexes and the same
report. Each step of a task does the same in both and leaves them alike, and so do all the tasks and
the flush after them. Messages and phases may differ, as nothing is decided by them.
-/
set_option autoImplicit false

namespace OperationHooks
open Effect Disk

def Format.IsSteady {α β : Type} (f : Disk → α → Except Format.Fault β) : Prop :=
  ∀ d d' text, Disk.Alike d d' → f d' text = f d text

theorem Format.isSteady_basic (env : Format.Environment) (o : Format.Options) :
    IsSteady (Formatter.format env o [.basic]) := fun d d' text _ => by
  rw [format_basic,format_basic]

theorem Format.isSteady_basicBroken (env : Format.Environment) (o : Format.Options) :
    IsSteady (Formatter.formatBroken env o [.basic]) := fun d d' text _ => by
  simp only [Formatter.formatBroken,List.foldlM_cons,List.foldlM_nil,Tool.formatBroken]

/-- Both formattings of a hook go by what stands on the disk. -/
structure Hook.Settings.IsSteady (s : Hook.Settings) : Prop where
  whole : Format.IsSteady s.formatting
  broken : Format.IsSteady s.formattingBroken

namespace Index

structure World.Alike (w v : World) : Prop where
  disk : Disk.Alike w.disk v.disk
  indexes : v.indexes = w.indexes

section Steps

variable {s : Settings} {w v : World}

theorem World.Alike.modify (h : w.Alike v) (directory : Path) (f : State → State) :
    (w.modify directory f).Alike (v.modify directory f) :=
  ⟨h.disk,by rw [World.modify,World.modify,h.indexes]⟩

theorem World.Alike.note (h : w.Alike v) (level : Log.Level) (message message' : String) :
    (w.note level message).Alike (v.note level message') := ⟨h.disk,h.indexes⟩

theorem settled_alike (h : w.Alike v) (directory : Path) :
    (settled s directory w).Alike (settled s directory v) :=
  (h.modify directory _).note _ _ _

theorem formatted_alike (hs : Format.IsSteady s.formatting) (h : w.Alike v) (directory : Path)
    (entries : List String) :
    s.formatted v.disk directory entries = s.formatted w.disk directory entries := by
  have htext : s.text v.disk directory entries = s.text w.disk directory entries := by
    rw [Settings.text,Settings.text,isFile_alike h.disk]
  rw [Settings.formatted,Settings.formatted,htext]
  exact congrArg (s.text w.disk directory entries >>= ·)
    (funext fun text => by rw [hs _ _ _ h.disk])

theorem perform_alike {α : Type} {work : DiskWork α}
    (hwork : Respects Disk.Alike work) (h : w.Alike v) :
    (v.perform work).1 = (w.perform work).1 ∧ (w.perform work).2.Alike (v.perform work).2 := by
  obtain ⟨hresult,hdisk⟩ := hwork _ _ h.disk
  exact ⟨hresult,hdisk,h.indexes⟩

/-- A step of a registration. -/
theorem Stage.advance_alike (hs : Format.IsSteady s.formatting) (h : w.Alike v) (directory : Path)
    (baseName : String)
    (stage : Stage) : Option.Rel (fun a b => a.1 = b.1 ∧ a.2.Alike b.2)
      (stage.advance s directory baseName w) (stage.advance s directory baseName v) := by
  cases stage with
  | waiting =>
    have hwaiting : ∀ w : World, Stage.waiting.advance s directory baseName w =
        if (w.indexes.state directory).locked then none
        else some (.adding,w.modify directory fun state => { state with locked := true }) :=
          fun w => rfl
    rw [hwaiting,hwaiting,h.indexes]
    cases (w.indexes.state directory).locked with
    | true => exact .none
    | false => exact .some ⟨rfl,h.modify directory _⟩
  | adding =>
    rw [advance_adding rfl,advance_adding rfl,h.indexes]
    cases (w.indexes.state directory).add? baseName with
    | none => exact .some ⟨rfl,h.note _ _ _⟩
    | some state => exact .some ⟨rfl,h.modify directory _⟩
  | rendering =>
    rw [advance_rendering rfl,advance_rendering rfl,h.indexes,formatted_alike hs h]
    cases s.formatted w.disk directory (w.indexes.state directory).entries with
    | error fault => exact .some ⟨rfl,h⟩
    | ok text => exact .some ⟨rfl,h⟩
  | storing text =>
    obtain ⟨hresult,hdisk⟩ := respects_save (s.indexPath directory) text _ _ h.disk
    rw [advance_storing,advance_storing]
    cases hw : run (save (s.indexPath directory) text) w.disk with
    | mk result d =>
      cases hv : run (save (s.indexPath directory) text) v.disk with
      | mk result' d' =>
        rw [hw,hv] at hresult hdisk
        obtain rfl : result' = result := hresult
        cases result' with
        | error fault => exact .some ⟨rfl,hdisk,h.indexes⟩
        | ok u => exact .some ⟨rfl,hdisk,h.indexes⟩
  | settling =>
    rw [advance_settling,advance_settling]
    exact .some ⟨rfl,settled_alike h directory⟩
  | releasing fault =>
    rw [advance_releasing,advance_releasing]
    exact .some ⟨rfl,h.modify directory _⟩
  | ended fault => exact .none

theorem respects_flush (hs : Format.IsSteady s.formatting) (directory : Path) :
    Respects World.Alike (flush s directory) := by
  intro w v h
  rw [run_flush,run_flush,h.indexes,formatted_alike hs h]
  by_cases hdirty : (w.indexes.state directory).dirty = true
  · rw [if_pos hdirty,if_pos hdirty]
    cases s.formatted w.disk directory (w.indexes.state directory).entries with
    | error fault => exact ⟨rfl,h.disk,rfl⟩
    | ok text =>
      obtain ⟨hresult,hdisk⟩ := respects_save (s.indexPath directory) text _ _ h.disk
      cases hw : run (save (s.indexPath directory) text) w.disk with
      | mk result d =>
        cases hv : run (save (s.indexPath directory) text) v.disk with
        | mk result' d' =>
          rw [hw,hv] at hresult hdisk
          obtain rfl : result' = result := hresult
          simp only [hw,hv]
          cases result' with
          | error fault => exact ⟨rfl,hdisk,rfl⟩
          | ok u =>
            cases u
            let entered : Disk → World → World := fun d v => ⟨d,w.indexes.enter directory,v.log⟩
            have halike : (entered d w).Alike (entered d' v) := ⟨hdisk,rfl⟩
            have hsettled :
                (settled s directory (entered d w)).Alike (settled s directory (entered d' v)) :=
              settled_alike halike directory
            exact ⟨rfl,hsettled.disk,hsettled.indexes⟩
  · rw [if_neg hdirty,if_neg hdirty]
    exact ⟨rfl,h.disk,rfl⟩

theorem respects_flushes (hs : Format.IsSteady s.formatting) (directories : List Path) :
    Respects World.Alike (directories.mapM (flush s)) := by
  induction directories with
  | nil =>
    rw [List.mapM_nil]
    exact fun w v h => ⟨rfl,h⟩
  | cons directory rest ih =>
    rw [List.mapM_cons]
    exact .bind (respects_flush hs directory) fun _ => .bind ih fun _ _ _ h => ⟨rfl,h⟩

theorem respects_flushAll (hs : Format.IsSteady s.formatting) : Respects World.Alike (flushAll s) :=
  .reading (fun w v h => by rw [h.indexes]) fun w =>
    .bind (respects_flushes hs w.indexes.directories) fun _ _ _ h => ⟨rfl,h⟩

end Steps

end Index

namespace Hook.Settings

variable {s : Settings} {d d' : Disk}

theorem content_alike (h : d.Alike d') (variant : Variant) (name selection : String) :
    s.content d' variant name selection = s.content d variant name selection := by
  have hload : Template.load s.templates d' = Template.load s.templates d := by
    funext name
    simp only [Template.load,Template.ofFile,read_alike h]
  rw [content,content,hload]

theorem draft_alike (h : d.Alike d') (variant : Option Variant) (x : Descriptor) :
    s.draft d' variant x = s.draft d variant x := by
  simp only [draft,content_alike h]

theorem respects_emit (hs : s.IsSteady) (variant : Option Variant) (x : Descriptor) :
    Respects Disk.Alike (s.emit variant x) := by
  refine .reading (fun d d' h => by rw [draft_alike h]) fun d => ?_
  cases s.draft d variant x with
  | error fault => exact .lift (.error fault)
  | ok draft =>
    dsimp only
    cases draft.content.toText with
    | error text =>
      refine .reading (fun d d' h => by rw [hs.broken d d' _ h]) fun d => ?_
      cases s.formattingBroken d text with
      | error cause => exact .lift (.error _)
      | ok e => exact .bind (respects_save draft.path "") fun _ => .lift (.error _)
    | ok content =>
      refine .bind (.reading (fun d d' h => by rw [hs.whole d d' _ h]) fun d => ?_)
        fun _ => .lift (.ok _)
      cases s.formatting d content with
      | error cause => exact .lift (.error _)
      | ok text => exact respects_save draft.path text

end Hook.Settings

namespace Run

/-- Worlds in which tasks do the same and report the same. -/
structure World.Alike (w v : World) : Prop where
  index : w.toWorld.Alike v.toWorld
  report : v.report = w.report

section Tasks

variable {s : Setup} {w v : World}

theorem World.Alike.note (h : w.Alike v) (level level' : Log.Level) (message message' : String) :
    (w.note level message).Alike (v.note level' message') :=
      ⟨⟨h.index.disk,h.index.indexes⟩,h.report⟩

theorem World.Alike.entered (h : w.Alike v) (phase : Phase) :
    (w.entered phase).Alike (v.entered phase) :=
  ⟨⟨h.index.disk,h.index.indexes⟩,congrArg (fun r : Report => { r with phase }) h.report⟩

theorem World.Alike.processing (h : w.Alike v) : w.processing.Alike v.processing :=
  (h.entered .processing).note _ _ _ _

theorem World.Alike.perform {α : Type} {work : DiskWork α}
    (hwork : Respects Disk.Alike work) (h : w.Alike v) :
    (v.perform work).1 = (w.perform work).1 ∧ (w.perform work).2.Alike (v.perform work).2 := by
  obtain ⟨hresult,hinner⟩ := Index.perform_alike hwork h.index
  exact ⟨hresult,hinner,h.report⟩

def SameStep (a b : Stage × World) : Prop := a.1 = b.1 ∧ a.2.Alike b.2

theorem sameStep_ofFault (h : w.Alike v) (path : Path) (fault : Fault) :
    SameStep (Stage.ofFault path fault w) (Stage.ofFault path fault v) := by
  unfold Stage.ofFault
  cases fault <;> first | exact ⟨rfl,h.note _ _ _ _⟩ | exact ⟨rfl,h⟩

theorem sameStep_ofDescriptor (h : w.Alike v) (path : Path) (d : Descriptor) :
    SameStep (Stage.ofDescriptor s path d w) (Stage.ofDescriptor s path d v) := by
  unfold Stage.ofDescriptor
  split
  · exact ⟨rfl,h⟩
  · cases s.hook.nameFault? d with
    | none => exact ⟨rfl,h⟩
    | some reason => exact ⟨rfl,h.note _ _ _ _⟩

theorem Stage.advance_emitting (s : Setup) (path : Path) (w : World) (d : Descriptor) :
    Stage.advance s path w (.emitting d) =
      match w.perform (s.hook.emit (Variant.select? d.kind d.hasVariables) d) with
      | (.error fault,w) => some (Stage.ofFault path fault w)
      | (.ok m,w) => some (.registering m .waiting,w.note .debug s!"Generated {m.path}") := rfl

/-- A step of a task. -/
theorem Stage.advance_alike (hhook : s.hook.IsSteady) (hindex : Format.IsSteady s.index.formatting)
    (h : w.Alike v) (path : Path) (stage : Stage) :
    Option.Rel SameStep (stage.advance s path w) (stage.advance s path v) := by
  cases stage with
  | reading =>
    have hread :
        Descriptor.ofFile s.policy v.disk path = Descriptor.ofFile s.policy w.disk path := by
      rw [Descriptor.ofFile,Descriptor.ofFile,read_alike h.index.disk]
    simp only [Stage.advance,hread]
    cases Descriptor.ofFile s.policy w.disk path with
    | error fault => exact .some (sameStep_ofFault h path fault)
    | ok d => exact .some (sameStep_ofDescriptor h path d)
  | emitting d =>
    obtain ⟨hresult,halike⟩ :=
      h.perform (Hook.Settings.respects_emit hhook (Variant.select? d.kind d.hasVariables) d)
    rw [Stage.advance_emitting,Stage.advance_emitting]
    cases hw : w.perform (s.hook.emit (Variant.select? d.kind d.hasVariables) d) with
    | mk result w' =>
      cases hv : v.perform (s.hook.emit (Variant.select? d.kind d.hasVariables) d) with
      | mk result' v' =>
        rw [hw,hv] at hresult halike
        obtain rfl : result' = result := hresult
        cases result' with
        | error fault => exact .some (sameStep_ofFault halike path fault)
        | ok m => exact .some ⟨rfl,halike.note _ _ _ _⟩
  | registering m stage =>
    have hgoing : Option.Rel SameStep
        ((stage.advance s.index m.path.parent m.baseName w.toWorld).map fun next =>
          (.registering m next.1,{ w with toWorld := next.2 }))
        ((stage.advance s.index m.path.parent m.baseName v.toWorld).map fun next =>
          (.registering m next.1,{ v with toWorld := next.2 })) := by
      have hrel := stage.advance_alike hindex h.index m.path.parent m.baseName
      generalize stage.advance s.index m.path.parent m.baseName w.toWorld = a at hrel ⊢
      generalize stage.advance s.index m.path.parent m.baseName v.toWorld = b at hrel ⊢
      cases hrel with
      | none => exact .none
      | some hab => exact .some ⟨congrArg (Stage.registering m) hab.1,hab.2,h.report⟩
    cases stage with
    | ended fault =>
      cases fault with
      | none => exact .some ⟨rfl,h⟩
      | some fault => exact .some ⟨rfl,h⟩
    | _ => exact hgoing
  | reporting entry =>
    exact .some ⟨rfl,h.index,congrArg entry.add h.report⟩
  | finished => exact .none
  | failed fault => exact .none

end Tasks

structure Progress.Alike (p q : Progress) : Prop where
  tasks : q.tasks = p.tasks
  fault : q.fault = p.fault
  world : p.world.Alike q.world

section All

variable {s : Setup} {p q : Progress}

theorem Progress.Alike.step (hhook : s.hook.IsSteady) (hindex : Format.IsSteady s.index.formatting)
    (h : p.Alike q) (i : Nat) : (p.step s i).Alike (q.step s i) := by
  rw [Progress.step,Progress.step,h.tasks]
  cases p.tasks[i]? with
  | none => exact h
  | some task =>
    have hrel := Stage.advance_alike hhook hindex h.world task.path task.stage
    dsimp only
    generalize task.stage.advance s task.path p.world = a at hrel ⊢
    generalize task.stage.advance s task.path q.world = b at hrel ⊢
    cases hrel with
    | none => exact h
    | @some a b hab =>
      obtain ⟨stage,world⟩ := a
      obtain ⟨stage',world'⟩ := b
      obtain ⟨hstage,hworld⟩ := hab
      obtain rfl : stage = stage' := hstage
      exact ⟨rfl,by rw [h.fault],hworld⟩

theorem Progress.Alike.follow (hhook : s.hook.IsSteady)
    (hindex : Format.IsSteady s.index.formatting)
    (h : p.Alike q) (steps : List Nat) : (p.follow s steps).Alike (q.follow s steps) := by
  induction steps generalizing p q with
  | nil => exact h
  | cons i steps ih => exact ih (h.step hhook hindex i)

theorem Progress.Alike.inOrder (hhook : s.hook.IsSteady)
    (hindex : Format.IsSteady s.index.formatting)
    (h : p.Alike q) : (p.inOrder s).Alike (q.inOrder s) := by
  rw [Progress.inOrder,Progress.inOrder,h.tasks]
  generalize List.range p.tasks.length = tasks
  induction tasks generalizing p q with
  | nil => exact h
  | cons i rest ih =>
    rw [List.foldl_cons,List.foldl_cons,h.fault]
    by_cases hf : p.fault.isSome = true
    · rw [if_pos hf,if_pos hf]
      exact ih h
    · rw [if_neg hf,if_neg hf]
      exact ih (h.follow hhook hindex _)

end All

end Run

end OperationHooks
