import OperationHooks.Definition
import OperationHooks.Hook
import OperationHooks.Run.World

set_option autoImplicit false

namespace OperationHooks.Run

structure Setup where
  policy : SelectionPolicy
  hook : Hook.Settings
  index : Index.Settings

/-- What a task adds to the report. -/
inductive Entry where
  | generated (path : Path)
  | skipped (path : Path) (reason : Hook.SkipReason)
  | error (path : Path) (reason errorType : String)
  deriving DecidableEq, Repr

def Entry.add (r : Report) : Entry → Report
  | .generated path => { r with generated := r.generated ++ [path.text] }
  | .skipped path reason => { r with skipped := r.skipped ++ [⟨path.text, reason.text, none⟩] }
  | .error path reason errorType =>
    { r with errors := r.errors ++ [⟨path.text, reason, some errorType⟩] }

inductive Stage where
  | reading
  | emitting (d : Descriptor)
  | registering (m : Hook.Module) (stage : Index.Stage)
  | reporting (entry : Entry)
  | finished
  | failed (fault : Fault)

def syntaxErrorType : String := "ParseError"
def unsupportedType : String := "UnsupportedOperationError"

def Stage.ofFault (path : Path) (fault : Fault) (w : World) : Stage × World :=
  match fault with
  | .syntaxError _ _ =>
    (.reporting (.error path fault.message syntaxErrorType), w.note .warning fault.message)
  | .unsupported _ _ _ =>
    (.reporting (.error path fault.message unsupportedType), w.note .warning fault.message)
  | _ => (.failed fault, w)

/-- What follows from reading a definition. A file without an operation is passed over in silence.
-/
def Stage.ofDescriptor (s : Setup) (path : Path) (d : Descriptor) (w : World) : Stage × World :=
  if !d.kind.isClassifiable then (.reporting (.skipped path .noOperation), w)
  else match s.hook.nameFault? d with
    | some reason =>
      (.reporting (.skipped path reason),
        w.note .info s!"Skip generate file {path} - {reason.text}")
    | none => (.emitting d, w)

/-- One step of a task; none at its end, and none while it waits for another one. -/
def Stage.advance (s : Setup) (path : Path) (w : World) : Stage → Option (Stage × World)
  | .reading =>
    match Descriptor.ofFile s.policy w.disk path with
    | .error fault => some (Stage.ofFault path fault w)
    | .ok d => some (Stage.ofDescriptor s path d w)
  | .emitting d =>
    match w.perform (s.hook.emit (Variant.select? d.kind d.hasVariables) d) with
    | (.error fault, w) => some (Stage.ofFault path fault w)
    | (.ok m, w) => some (.registering m .waiting, w.note .debug s!"Generated {m.path}")
  | .registering m (.ended none) => some (.reporting (.generated m.path), w)
  | .registering _ (.ended (some fault)) => some (.failed fault, w)
  | .registering m stage =>
    (stage.advance s.index m.path.parent m.baseName w.toWorld).map fun (stage, inner) =>
      (.registering m stage, { w with toWorld := inner })
  | .reporting entry => some (.finished, { w with report := entry.add w.report })
  | .finished => none
  | .failed _ => none

def maxSteps : Nat := Index.maxSteps + 4

structure Task where
  path : Path
  stage : Stage

def Task.start (path : Path) : Task := ⟨path, .reading⟩

def Task.fault? (t : Task) : Option Fault :=
  match t.stage with
  | .failed fault => some fault
  | _ => none

def Task.isFinished (t : Task) : Bool :=
  match t.stage with
  | .finished => true
  | _ => false

/-- All tasks of a run and what they share. The first fault of a task is kept. -/
structure Progress where
  tasks : List Task
  world : World
  fault : Option Fault

namespace Progress

def start (paths : List Path) (w : World) : Progress := ⟨paths.map Task.start, w, none⟩

def step (s : Setup) (p : Progress) (i : Nat) : Progress :=
  match p.tasks[i]? with
  | none => p
  | some task =>
    match task.stage.advance s task.path p.world with
    | none => p
    | some (stage, world) =>
      let task := { task with stage }
      { tasks := p.tasks.set i task, world, fault := p.fault <|> task.fault? }

def follow (s : Setup) (schedule : List Nat) (p : Progress) : Progress := schedule.foldl (step s) p

def inOrder (s : Setup) (p : Progress) : Progress :=
  (List.range p.tasks.length).foldl (fun p i =>
    if p.fault.isSome then p else follow s (List.replicate maxSteps i) p) p

def isFinished (p : Progress) : Bool := p.tasks.all Task.isFinished

end Progress

end OperationHooks.Run
