import OperationHooks.Fault

set_option autoImplicit false

namespace OperationHooks.Config

abbrev Entries := List (Datum × Datum)

def entriesOf (room : Nat) (path : Path) (source : String) : Except Fault Entries :=
  match Yaml.read room (String.ofList (Text.plainNewlines source.toList)) with
  | .error .malformed => .error (.config (.malformed path))
  | .error cause => .error (.value cause)
  | .ok datum =>
    if datum.isEmpty then .ok []
    else match datum with
      | .table entries => .ok entries
      | _ => .error (.config (.noTable path))

def read (room : Nat) (d : Disk) (path : Path) : Except Fault Entries :=
  match d.read path with
  | .error .nullCharacter => .error .nullCharacter
  | .error (.system cause) => .error (.config (.unreadable path cause))
  | .ok bytes =>
    match Text.decode bytes with
    | .error cause => .error (.undecodable cause)
    | .ok source => entriesOf room path source

def entries (room : Nat) (d : Disk) : Option Path → Except Fault Entries
  | none => .ok []
  | some path => do
    if ← (d.isFile path).mapError Fault.ofLookUp then read room d path else return []

/-- The style options for an extension, where there is room for a number of calls inside each other.
-/
def styleWithin (room : Nat) (d : Disk) (path : Option Path) (extension : String) :
    Except Fault Format.Options := do
  (Format.Options.ofConfig extension (← entries room d path)).mapError fun rejections =>
    .config (.rejected rejections)

def styleOptions (d : Disk) (path : Option Path) (extension : String) :
    Except Fault Format.Options :=
  styleWithin Yaml.usualRoom d path extension

def formatter (names : List String) : Except Fault Format.Formatter :=
  (Format.Formatter.ofNames names).mapError fun cause => .config (.formatter cause)

end OperationHooks.Config
