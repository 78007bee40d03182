import OperationHooks.Command.Arguments
import OperationHooks.Disk.Access

set_option autoImplicit false

namespace OperationHooks.Command

inductive Value where
  | flag (b : Bool)
  | word (s : Option String)
  | words (list : List String)
  deriving DecidableEq, Repr

/-- Why the values of a command are not to be had. -/
inductive Stop where
  | usage (c : Declaration) (fault : UsageFault)
  | help (c : Declaration)
  | noArguments (c : Declaration)
  | version
  | fault (f : Fault)

def trueWords : List String := ["1", "on", "t", "true", "y", "yes"]
def falseWords : List String := ["", "0", "f", "false", "n", "no", "off"]

def booleanFault (word : String) : String :=
  s!"{Text.quoted word} is not a valid boolean. Recognized values: " ++
    ", ".intercalate ["", "0", "1", "f", "false", "n", "no", "off", "on", "t", "true", "y", "yes"]

/-- A word for true or false, in any case and with blanks around it. -/
def readBoolean (word : String) : Except String Bool :=
  let plain := Text.lower (String.ofList (Text.trim word.toList))
  if trueWords.contains plain then .ok true
  else if falseWords.contains plain then .ok false
  else .error (booleanFault word)

/-- Why a path does not name a directory; `none` if it does. -/
def directoryFault? (d : Disk) (path : String) : Except Disk.PathFault (Option String) :=
  let missing := some s!"Directory {Text.quoted path} does not exist."
  if path.isEmpty then .ok missing
  else match d.walk true ⟨Path.anchorOf path.toList, Disk.namesOf path⟩ with
    | .error .nullCharacter => .error .nullCharacter
    | .error (.system _) => .ok missing
    | .ok (.missing _) => .ok missing
    | .ok (.entry _ (.file _ _)) => .ok (some s!"Directory {Text.quoted path} is a file.")
    | .ok (.entry _ _) => .ok none

/-- Why a word cannot be the argument of an option; `none` if it can. -/
def argumentFault? (d : Disk) (a : Argument) (word : String) :
    Except Disk.PathFault (Option String) :=
  match a with
  | .text => .ok none
  | .choice words =>
    if words.contains word then .ok none
    else .ok (some s!"{Text.quoted word} is not one of {quotedList words}.")
  | .directory => directoryFault? d word

def variableName (c : Declaration) (s : Setting) : String :=
  let parts := [variableStem] ++ (if c.name.isEmpty then [] else [c.name]) ++ [s.key]
  Text.upper ("_".intercalate parts)

structure Surroundings where
  environment : Format.Environment
  disk : Disk
  command : Declaration
  assignments : List Assignment

namespace Surroundings

def refuse {α : Type} (u : Surroundings) (s : Setting) (reason : String) : Except Stop α :=
  .error (.usage u.command (.badValue s reason))

def fromEnvironment? (u : Surroundings) (s : Setting) : Option String :=
  (u.environment.lookup (variableName u.command s)).filter (· ≠ "")

def isAskedFor (u : Surroundings) (s : Setting) : Bool :=
  u.assignments.any fun (t, _) => t.key = s.key

def given (u : Surroundings) (s : Setting) : List Given :=
  u.assignments.filterMap fun (t, g) => if t.key = s.key then some g else none

def argumentsOf (given : List Given) : List String :=
  given.filterMap fun
    | .argument word => some word
    | _ => none

def check (u : Surroundings) (s : Setting) (a : Argument) (word : String) : Except Stop String :=
  match argumentFault? u.disk a word with
  | .error fault => .error (.fault (.ofLookUp fault))
  | .ok none => .ok word
  | .ok (some reason) => u.refuse s reason

def flagValue (u : Surroundings) (s : Setting) (standard : Bool) : Except Stop Bool :=
  match (u.given s).getLast? with
  | some given => .ok (given == .on)
  | none =>
    match u.fromEnvironment? s with
    | none => .ok standard
    | some word =>
      match readBoolean word with
      | .ok b => .ok b
      | .error reason => u.refuse s reason

def splitWords (s : String) : List String :=
  let step (c : Char) (words : List (List Char)) : List (List Char) :=
    if Text.isBlank c then [] :: words
    else match words with
      | [] => [[c]]
      | word :: rest => (c :: word) :: rest
  ((s.toList.foldr step []).filter (!·.isEmpty)).map String.ofList

def value (u : Surroundings) (s : Setting) : Except Stop Value :=
  match s.shape with
  | .showHelp => if u.isAskedFor s then .error (.help u.command) else .ok (.flag false)
  | .showVersion => if u.isAskedFor s then .error .version else .ok (.flag false)
  | .flag standard _ => (u.flagValue s standard).map .flag
  | .single a standard => do
    match (argumentsOf (u.given s)).getLast? <|> u.fromEnvironment? s <|> standard with
    | none => return .word none
    | some word => return .word (some (← u.check s a word))
  | .repeated a standard => do
    let words := argumentsOf (u.given s)
    let words := if !words.isEmpty then words else (u.fromEnvironment? s).elim standard splitWords
    return .words (← words.mapM (u.check s a))

def isEager (s : Setting) : Bool :=
  match s.shape with
  | .showHelp | .showVersion => true
  | _ => false

def inOrder (u : Surroundings) : List Setting :=
  let given := (u.assignments.map (·.1)).eraseDups
  let others := u.command.options.filter (!given.contains ·)
  (given ++ others).filter isEager ++ (given ++ others).filter (!isEager ·)

def values (u : Surroundings) : Except Stop (List (String × Value)) :=
  u.inOrder.mapM fun s => do return (s.key, ← u.value s)

end Surroundings

end OperationHooks.Command
