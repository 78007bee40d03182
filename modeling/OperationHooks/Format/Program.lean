import OperationHooks.Format.Basic
import OperationHooks.Shell.Run
import OperationHooks.Disk.Access
import OperationHooks.Text.Wide

set_option autoImplicit false

namespace OperationHooks.Format

abbrev Environment := List (String × String)

inductive Fault where
  | zeroTabWidth
  | undecodable (e : Text.DecodeError)
  | unencodable (e : Text.EncodeError)
  | programNotFound (program : String)
  | programNotRun (program : String) (cause : Disk.SystemFault)
  | programFailed (program errors : String)
  deriving DecidableEq, Repr

def Fault.message : Fault → String
  | .zeroTabWidth => "integer division or modulo by zero"
  | .undecodable e => e.message
  | .unencodable e => e.message
  | .programNotFound program => s!"Formatter executable not found: {program}"
  | .programNotRun program cause => s!"Cannot run {program}: {cause.message}"
  | .programFailed program errors => s!"{program} failed: {errors}"

def Fault.isOfProgram : Fault → Bool
  | .zeroTabWidth | .undecodable _ | .unencodable _ => false
  | .programNotFound _ | .programNotRun _ _ | .programFailed _ _ => true

def program : String := "prettier"

def arguments (o : Options) : List String :=
  ["--parser", o.parser, "--print-width", toString o.printWidth, "--tab-width", toString o.tabWidth,
    "--trailing-comma", o.trailingComma.text] ++
    (if o.useTabs then ["--use-tabs"] else []) ++
    (if o.semi then [] else ["--no-semi"]) ++
    (if o.singleQuote then ["--single-quote"] else [])

def command (program : String) (o : Options) : List String := program :: arguments o

open Shell (Octets octets)

def textOfOctets (cs : Octets) : List UInt8 := cs.map fun c => c.toNat.toUInt8

def octetsOfBytes (bytes : List UInt8) : Octets := bytes.map fun b => Char.ofNat b.toNat

/-- What a path leads to, links followed. A path with a slash at its end leads to no file. -/
def look (d : Disk) (path : Octets) : Option Shell.Entry :=
  match Text.decode (textOfOctets path) with
  | .error _ => none
  | .ok path =>
    match d.walk true (.ofString path) with
    | .ok (.entry _ (.file bytes executable)) =>
      if path.endsWith '/' then none else some (.file (octetsOfBytes bytes) executable)
    | .ok (.entry _ .directory) => some .directory
    | _ => none

def namesIn (d : Disk) (path : Octets) : List Octets :=
  match Text.decode (textOfOctets path) with
  | .error _ => []
  | .ok path =>
    match d.walk true (.ofString path) with
    | .ok (.entry place .directory) => (d.tree.names place).map octets
    | _ => []

def world (env : Environment) (d : Disk) : Shell.World where
  look := look d
  names := namesIn d
  environment := env.map fun (name, value) => (octets name, octets value)

/-- The paths a program may be at. An empty search path has none. -/
def placesOf (env : Environment) (program : String) : List Octets :=
  let search := (env.lookup "PATH").filter (· ≠ "")
  Shell.candidates (search.map octets) (octets program)

def isExecutable (w : Shell.World) (path : Octets) : Bool :=
  (Shell.programAt? path).isSome ||
    match w.look path with
    | some (.file _ executable) => executable
    | _ => false

def isAvailable (env : Environment) (d : Disk) (program : String) : Bool :=
  !program.isEmpty && (placesOf env program).any (isExecutable (world env d))

/-- Every place is tried; if none will do, the first reason other than absence counts. -/
def startAny (w : Shell.World) (words : List Octets) (refusal : Shell.StartFault) :
    List Octets → Except Shell.StartFault (Shell.Image × List Octets)
  | [] => .error refusal
  | path :: rest =>
    match Shell.start w path words with
    | .ok started => .ok started
    | .error fault => startAny w words (if refusal = .noEntry then fault else refusal) rest

def errnoOf : Shell.StartFault → Disk.Errno
  | .noEntry => .noEntry
  | .denied => .denied
  | .badFormat => .badFormat
  | .tooDeep => .tooManyLinks

def printedText (bytes : List UInt8) : Except Fault String :=
  match Text.decode bytes with
  | .ok s => .ok (String.ofList (Text.plainNewlines s.toList))
  | .error e => .error (.undecodable e)

def startProgram (env : Environment) (d : Disk) (program : String) (o : Options) :
    Except Fault (Shell.Image × List Octets) :=
  match startAny (world env d) ((command program o).map octets) .noEntry (placesOf env program) with
  | .error fault => .error (.programNotRun program (.refused (errnoOf fault) program))
  | .ok started => .ok started

def runProgram (env : Environment) (d : Disk) (program : String) (o : Options) (text : String) :
    Except Fault String := do
  let (image, words) ← startProgram env d program o
  let outcome := Shell.execute (world env d) image words (octets text)
  let output ← printedText (textOfOctets outcome.output)
  let errors ← printedText (textOfOctets outcome.errors)
  if outcome.ending = .exited 0 then return output
  else throw (.programFailed program (String.ofList (Text.trim errors.toList)))

end OperationHooks.Format
