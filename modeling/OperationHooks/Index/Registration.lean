import OperationHooks.Index.Table
import OperationHooks.Log
import OperationHooks.Output
/-!
Index files. A registration adds one module to the index of its directory and, unless indexes are
written in a batch, writes the file again. It goes on in small steps between which other
registrations may take theirs; a lock for each directory keeps two from writing one file together.
-/
set_option autoImplicit false

namespace OperationHooks.Index

structure Settings where
  extension : String
  batch : Bool
  nested : String
  formatting : Format.Formatting

def standardNested : String := "hooks"

def nestedStatement : String := statement "hooks"

structure World where
  disk : Disk
  indexes : Table
  log : List Log.Record

namespace World

def note (w : World) (level : Log.Level) (message : String) : World :=
  { w with log := w.log ++ [⟨level, message⟩] }

def perform {α : Type} (w : World) (work : DiskWork α) : Except Fault α × World :=
  let (result, disk) := work.run w.disk
  (result, { w with disk })

def modify (w : World) (directory : Path) (f : State → State) : World :=
  { w with indexes := w.indexes.modify directory f }

end World

namespace Settings

def fileName (s : Settings) : String := s!"index.{s.extension}"

def indexPath (s : Settings) (directory : Path) : Path := directory / s.fileName

def nestedIndex (s : Settings) (directory : Path) : Path := directory / s.nested / s.fileName

def text (s : Settings) (disk : Disk) (directory : Path) (entries : List String) :
    Except Fault String := do
  let nested ← (disk.isFile (s.nestedIndex directory)).mapError Fault.ofLookUp
  let statements := (sortEntries entries).map statement
  let lines := if nested then nestedStatement :: statements else statements
  return "\n".intercalate lines ++ "\n"

def formatted (s : Settings) (disk : Disk) (directory : Path) (entries : List String) :
    Except Fault String := do
  (s.formatting disk (← s.text disk directory entries)).mapError .format

end Settings

/-- How far a registration has come. -/
inductive Stage where
  | waiting
  | adding
  | rendering
  | storing (text : String)
  | settling
  | releasing (fault : Option Fault)
  | ended (fault : Option Fault)

def writtenMessage (path : Path) (count : Nat) : String := s!"Wrote {path} ({count} entries)"

def repeatedMessage (baseName : String) (directory : Path) : String :=
  s!"Index entry {baseName} already registered in {directory}"

def settled (s : Settings) (directory : Path) (w : World) : World :=
  let count := (w.indexes.state directory).entries.length
  (w.modify directory fun state => { state with dirty := false }).note .debug
    (writtenMessage (s.indexPath directory) count)

/-- One step of a registration; none while another one holds the lock, and none at the end. -/
def Stage.advance (s : Settings) (directory : Path) (baseName : String) (w : World) :
    Stage → Option (Stage × World)
  | .waiting =>
    if (w.indexes.state directory).locked then none
    else some (.adding, w.modify directory fun state => { state with locked := true })
  | .adding =>
    match (w.indexes.state directory).add? baseName with
    | none => some (.releasing none, w.note .debug (repeatedMessage baseName directory))
    | some state =>
      some (if s.batch then .releasing none else .rendering, w.modify directory fun _ => state)
  | .rendering =>
    match s.formatted w.disk directory (w.indexes.state directory).entries with
    | .error fault => some (.releasing (some fault), w)
    | .ok text => some (.storing text, w)
  | .storing text =>
    match w.perform (save (s.indexPath directory) text) with
    | (.error fault, w) => some (.releasing (some fault), w)
    | (.ok (), w) => some (.settling, w)
  | .settling => some (.releasing none, settled s directory w)
  | .releasing fault =>
    some (.ended fault, w.modify directory fun state => { state with locked := false })
  | .ended _ => none

def maxSteps : Nat := 6

/-- Takes steps while there are any, but no more than `steps`. -/
def proceed (s : Settings) (directory : Path) (baseName : String) :
    Nat → Stage → World → Stage × World
  | 0, stage, w => (stage, w)
  | steps + 1, stage, w =>
    match stage.advance s directory baseName w with
    | none => (stage, w)
    | some (stage, w) => proceed s directory baseName steps stage w

def Stage.fault? : Stage → Option Fault
  | .ended fault => fault
  | _ => none

abbrev Work (α : Type) := ExceptT Fault (StateM World) α

def register (s : Settings) (directory : Path) (baseName : String) : Work Unit := do
  let (stage, w) := proceed s directory baseName maxSteps .waiting (← get)
  set w
  match stage.fault? with
  | some fault => throw fault
  | none => return

def writeIndex (s : Settings) (directory : Path) : Work Path := do
  let w ← get
  let text ← (s.formatted w.disk directory (w.indexes.state directory).entries :
    Except Fault String)
  let (result, w) := w.perform (save (s.indexPath directory) text)
  set w
  let () ← result
  modify (settled s directory)
  return s.indexPath directory

/-- Writes the index of a directory if some entry of it is not written. -/
def flush (s : Settings) (directory : Path) : Work (Option Path) := do
  modify fun w => { w with indexes := w.indexes.enter directory }
  if ((← get).indexes.state directory).dirty then return some (← writeIndex s directory)
  else return none

def flushAll (s : Settings) : Work (List Path) := do
  let written ← ((← get).indexes.directories).mapM (flush s)
  return written.filterMap id

/-- The index files of all directories that have entries. -/
def written (s : Settings) (t : Table) : List Path :=
  (t.directories.filter fun directory => !(t.state directory).entries.isEmpty).map s.indexPath

end OperationHooks.Index
