import OperationHooks.Disk.Walk
import OperationHooks.Text.Utf8

set_option autoImplicit false

namespace OperationHooks

namespace Disk

abbrev Action (α : Type) := ExceptT PathFault (StateM Disk) α

def refuse {α : Type} (errno : Errno) (p : Path) : Except PathFault α :=
  .error (.system (.refused errno p.text))

/-- Faults that mean no more than that nothing is there. -/
def meansAbsent : PathFault → Bool
  | .nullCharacter => true
  | .system (.refused errno _) => errno = .noEntry || errno = .notDirectory || errno = .tooManyLinks
  | .system _ => false

def entry? (d : Disk) (p : Path) : Except PathFault (Option Entry) :=
  match d.walk true p with
  | .ok (.entry _ e) => .ok (some e)
  | .ok (.missing _) => .ok none
  | .error fault => if meansAbsent fault then .ok none else .error fault

def isFileEntry : Entry → Bool
  | .file _ _ => true
  | _ => false

def isFile (d : Disk) (p : Path) : Except PathFault Bool :=
  (d.entry? p).map fun e => e.any isFileEntry

def isDirectory (d : Disk) (p : Path) : Except PathFault Bool :=
  (d.entry? p).map fun e => e == some .directory

def isPresent (d : Disk) (p : Path) : Except PathFault Bool := (d.entry? p).map (·.isSome)

def read (d : Disk) (p : Path) : Except PathFault (List UInt8) :=
  match d.walk true p with
  | .error fault => .error fault
  | .ok (.entry _ (.file bytes _)) => .ok bytes
  | .ok (.entry _ .directory) => refuse .isDirectory p
  | .ok (.entry _ (.link _)) => refuse .tooManyLinks p
  | .ok (.missing _) => refuse .noEntry p

def putAt (d : Disk) (place : Place) (e : Entry) : Disk := { d with tree := d.tree.put place e }

/-- Writes a whole file. A file that is there keeps its permission to be run. -/
def write (p : Path) (bytes : List UInt8) : Action Unit := do
  let d ← get
  match d.walk true p with
  | .error fault => throw fault
  | .ok (.entry place (.file _ executable)) => set (d.putAt place (.file bytes executable))
  | .ok (.missing place) => set (d.putAt place (.file bytes false))
  | .ok (.entry _ .directory) => refuse .isDirectory p
  | .ok (.entry _ (.link _)) => refuse .tooManyLinks p

def makeDirectory (p : Path) : Action Unit := do
  let d ← get
  match d.walk false p with
  | .error fault => throw fault
  | .ok (.missing place) => set (d.putAt place .directory)
  | .ok (.entry _ _) => refuse .exists p

def isNoEntry : PathFault → Bool
  | .system (.refused errno _) => errno = .noEntry
  | _ => false

def unlessDirectory (p : Path) (fault : PathFault) : Action Unit := do
  match fault with
  | .nullCharacter => throw fault
  | .system _ =>
    if ← (← get).isDirectory p then return else throw fault

/-- Makes a directory and the ones above it; `above` is how many of those may be made. -/
def makeDirectoriesFrom (p : Path) : Nat → Action Unit
  | 0 => tryCatch (makeDirectory p) (unlessDirectory p)
  | above + 1 => tryCatch (makeDirectory p) fun fault =>
    if isNoEntry fault then do
      makeDirectoriesFrom p.parent above
      tryCatch (makeDirectory p) (unlessDirectory p)
    else unlessDirectory p fault

def makeDirectories (p : Path) : Action Unit := makeDirectoriesFrom p p.parts.length

def removeDirectory (p : Path) : Action Unit := do
  if p.parts.isEmpty then refuse .invalid p
  let d ← get
  match d.walk false p with
  | .error fault => throw fault
  | .ok (.missing _) => refuse .noEntry p
  | .ok (.entry place .directory) =>
    if p.parts.getLast? == some ".." then refuse .notEmpty p
    set { d with tree := d.tree.remove place }
  | .ok (.entry _ _) => refuse .notDirectory p

def removeTree (p : Path) : Action Unit := do
  let d ← get
  match d.walk false p with
  | .error fault => throw fault
  | .ok (.missing _) => refuse .noEntry p
  | .ok (.entry _ (.file _ _)) => throw (.system (.clearedFile p))
  | .ok (.entry _ (.link _)) => do
    match d.walk true p with
    | .error fault => throw fault
    | .ok (.missing _) => refuse .noEntry p
    | .ok (.entry _ _) => throw (.system .clearedLink)
  | .ok (.entry place .directory) => do
    set { d with tree := d.tree.clear place }
    removeDirectory p

end Disk

end OperationHooks
