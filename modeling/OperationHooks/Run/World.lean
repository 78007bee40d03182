import OperationHooks.Index.Registration
import OperationHooks.Report

set_option autoImplicit false

namespace OperationHooks.Run

structure World extends Index.World where
  phase : Phase
  report : Report

/-- Work of a run that may fail. Its effects stay when it does. -/
abbrev Work (α : Type) := ExceptT Fault (StateM World) α

namespace World

def ofDisk (disk : Disk) : World where
  disk
  indexes := []
  log := []
  phase := .idle
  report := .empty

def note (w : World) (level : Log.Level) (message : String) : World :=
  { w with toWorld := w.toWorld.note level message }

def perform {α : Type} (w : World) (work : DiskWork α) : Except Fault α × World :=
  let (result, inner) := w.toWorld.perform work
  (result, { w with toWorld := inner })

end World

namespace Work

def onDisk {α : Type} (work : DiskWork α) : Work α := do
  let (result, w) := (← get).perform work
  set w
  result

def onIndexes {α : Type} (work : Index.Work α) : Work α := do
  let (result, inner) := work.run (← get).toWorld
  modify fun w => { w with toWorld := inner }
  result

def note (level : Log.Level) (message : String) : Work Unit :=
  modify fun w => w.note level message

def report (f : Report → Report) : Work Unit := modify fun w => { w with report := f w.report }

def enter (phase : Phase) : Work Unit := do
  note .debug s!"State {(← get).phase.text} -> {phase.text}"
  modify fun w => { w with phase, report := { w.report with phase } }

end Work

end OperationHooks.Run
