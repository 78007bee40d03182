import OperationHooks.Shell.Condition
import OperationHooks.Shell.Edit

set_option autoImplicit false

namespace OperationHooks.Shell

/-- What a run can see of the world: files, the names in directories, and environment variables. -/
structure World where
  look : Octets → Option Entry
  names : Octets → List Octets
  environment : List (Octets × Octets)

inductive StartFault where
  | noEntry
  | denied
  | badFormat
  | tooDeep
  deriving DecidableEq

inductive Image where
  | shell
  | finder
  | utility (u : Utility)

def nothing (status : Nat) : Utility := fun c => { status, input := c.input }

def programs : List (String × Image) := [
  ("sh", .shell), ("dash", .shell), ("bash", .shell), ("env", .finder),
  ("cat", .utility cat), ("tac", .utility tac), ("rev", .utility rev), ("head", .utility head),
  ("tail", .utility tail), ("wc", .utility wc), ("tr", .utility tr), ("sort", .utility sort),
  ("uniq", .utility uniq), ("cut", .utility cut), ("grep", .utility grep), ("sed", .utility sed),
  ("basename", .utility basename), ("dirname", .utility dirname), ("seq", .utility seq),
  ("tee", .utility tee), ("ls", .utility ls), ("echo", .utility plainEcho),
    ("sleep", .utility sleep),
  ("true", .utility (nothing 0)), ("false", .utility (nothing 1))]

def steps (path : Octets) : List String :=
  ((Text.splitAt '/' path).foldl (fun taken name =>
    if name.isEmpty || name == ['.'] then taken
    else if name == ['.', '.'] then taken.drop 1
    else String.ofList name :: taken) []).reverse

def programAt? (path : Octets) : Option Image :=
  if path.head? == some '/' && path.getLast? != some '/' then
    match steps path with
    | ["bin", name] | ["usr", "bin", name] => programs.lookup name
    | _ => none
  else none

def interpreter? (content : Octets) : Option (Octets × Option Octets) :=
  match content with
  | '#' :: '!' :: rest =>
    let blank (c : Char) : Bool := c == ' ' || c == '\t'
    let line := (rest.takeWhile (· != '\n')).dropWhile blank
    let line := (line.reverse.dropWhile blank).reverse
    let path := line.takeWhile fun c => !blank c
    let arg := (line.drop path.length).dropWhile blank
    if path.isEmpty then none else some (path, if arg.isEmpty then none else some arg)
  | _ => none

def resolve (w : World) : Nat → Octets → List Octets → Except StartFault (Image × List Octets)
  | 0, _, _ => .error .tooDeep
  | fuel + 1, path, words =>
    match programAt? path with
    | some image => .ok (image, words)
    | none =>
      match w.look path with
      | none => .error .noEntry
      | some .directory | some (.file _ false) => .error .denied
      | some (.file content true) =>
        match interpreter? content with
        | none => .error .badFormat
        | some (program, arg) =>
          resolve w fuel program (program :: arg.toList ++ path :: words.drop 1)

def start (w : World) (path : Octets) (words : List Octets) :
    Except StartFault (Image × List Octets) :=
  resolve w 6 path words

/-- The paths a name stands for: itself if it has a slash, else one in each directory of the list.
-/
def candidates (search : Option Octets) (name : Octets) : List Octets :=
  if name.contains '/' then [name]
  else
    match search with
    | none => []
    | some directories => (Text.splitAt ':' directories).map fun directory =>
        if directory.isEmpty then name
        else if directory.getLast? == some '/' then directory ++ name
        else directory ++ '/' :: name

end OperationHooks.Shell
