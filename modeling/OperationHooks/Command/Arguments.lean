import OperationHooks.Command.Declaration
import OperationHooks.Text.Similarity

set_option autoImplicit false

namespace OperationHooks.Command

/-- What is wrong with how a command was called. -/
inductive UsageFault where
  | unknownOption (name : String) (similar : List String)
  | unknownCommand (name : String) (similar : List String)
  | noCommand
  | argumentMissing (name : String)
  | argumentUnwanted (name : String)
  | leftOver (arguments : List String)
  | badValue (s : Setting) (reason : String)
  deriving DecidableEq, Repr

def quotedList (words : List String) : String := ", ".intercalate (words.map Text.quoted)

def suggestion : List String → String
  | [] => ""
  | [name] => s!" Did you mean {Text.quoted name}?"
  | names => s!" (Did you mean one of: {quotedList names}?)"

def namesOf (s : Setting) : String := " / ".intercalate (s.names.map fun name => s!"'{name}'")

def UsageFault.message : UsageFault → String
  | .unknownOption name similar => s!"No such option {Text.quoted name}.{suggestion similar}"
  | .unknownCommand name similar => s!"No such command {Text.quoted name}.{suggestion similar}"
  | .noCommand => "Missing command."
  | .argumentMissing name => s!"Option {Text.quoted name} requires an argument."
  | .argumentUnwanted name => s!"Option {Text.quoted name} does not take a value."
  | .leftOver [argument] => s!"Got unexpected extra argument ({argument})"
  | .leftOver arguments =>
    let listed := " ".intercalate arguments
    s!"Got unexpected extra arguments ({listed})"
  | .badValue s reason => s!"Invalid value for {namesOf s}: {reason}"

def UsageFault.showsUsage : UsageFault → Bool
  | .argumentMissing _ | .argumentUnwanted _ => false
  | _ => true

inductive Given where
  | on
  | off
  | argument (s : String)
  deriving DecidableEq, Repr

abbrev Assignment := Setting × Given

def negation? (s : Setting) : Option String :=
  match s.shape with
  | .flag _ negation => negation
  | _ => none

def takesArgument (s : Setting) : Bool :=
  match s.shape with
  | .single _ _ | .repeated _ _ => true
  | _ => false

/-- The option that a name stands for, and what the name alone says. -/
def find? (c : Declaration) (name : String) : Option Assignment :=
  c.options.findSome? fun s =>
    if s.names.contains name then some (s, .on)
    else if negation? s == some name then some (s, .off)
    else none

def longNames (c : Declaration) : List String :=
  (c.options.flatMap fun s => s.names ++ (negation? s).toList).filter (·.length > 2)

/-- What one argument sets, and whether it takes the next argument too. -/
structure Reading where
  assignments : List Assignment
  takesNext : Bool

def readArgument (s : Setting) (name : String) (attached next : Option String) :
    Except UsageFault Reading :=
  match attached, next with
  | some argument, _ => .ok ⟨[(s, .argument argument)], false⟩
  | none, some argument => .ok ⟨[(s, .argument argument)], true⟩
  | none, none => .error (.argumentMissing name)

def readLong (c : Declaration) (name : String) (attached next : Option String) :
    Except UsageFault Reading :=
  match find? c name with
  | none => .error (.unknownOption name (Text.closest name (longNames c)))
  | some (s, given) =>
    if takesArgument s then readArgument s name attached next
    else if attached.isSome then .error (.argumentUnwanted name)
    else .ok ⟨[(s, given)], false⟩

/-- Short names put together. The first that takes an argument ends them. -/
def readShort (c : Declaration) (next : Option String) : List Char → Except UsageFault Reading
  | [] => .ok ⟨[], false⟩
  | letter :: rest =>
    let name := String.ofList ['-', letter]
    match find? c name with
    | none => .error (.unknownOption name [])
    | some (s, given) =>
      if takesArgument s then
        readArgument s name (if rest.isEmpty then none else some (String.ofList rest)) next
      else do
        let reading ← readShort c next rest
        return { reading with assignments := (s, given) :: reading.assignments }

def isLong (argument : String) : Bool := ['-', '-'].isPrefixOf argument.toList

def isOption (argument : String) : Bool := argument.toList.head? == some '-' && argument.length > 1

def splitAttached (argument : String) : String × Option String :=
  let cs := argument.toList
  let name := cs.takeWhile (· != '=')
  (String.ofList name, if name.length < cs.length then
    some (String.ofList (cs.drop (name.length + 1))) else none)

def readOption (c : Declaration) (argument : String) (next : Option String) :
    Except UsageFault Reading :=
  if isLong argument then
    let (name, attached) := splitAttached argument
    readLong c name attached next
  else readShort c next (argument.toList.drop 1)

structure Parsed where
  assignments : List Assignment
  rest : List String

/-- Reads all arguments. `mixed` says that options may follow what is no option; `skip` counts
arguments that belong to an option before them. -/
def parse (c : Declaration) (mixed : Bool) (skip : Nat) : List String → Except UsageFault Parsed
  | [] => .ok ⟨[], []⟩
  | argument :: more =>
    match skip with
    | skip + 1 => parse c mixed skip more
    | 0 =>
      if argument = "--" then .ok ⟨[], more⟩
      else if isOption argument then do
        let reading ← readOption c argument more.head?
        let parsed ← parse c mixed (if reading.takesNext then 1 else 0) more
        return { parsed with assignments := reading.assignments ++ parsed.assignments }
      else if mixed then do
        let parsed ← parse c mixed 0 more
        return { parsed with rest := argument :: parsed.rest }
      else .ok ⟨[], argument :: more⟩

end OperationHooks.Command
