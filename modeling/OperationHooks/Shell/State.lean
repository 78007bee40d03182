import OperationHooks.Shell.Arithmetic
import OperationHooks.Shell.Grammar
import OperationHooks.Shell.System

set_option autoImplicit false

namespace OperationHooks.Shell

/-- Where a channel leads: to what is collected under a number, to a file, or nowhere. -/
inductive Sink where
  | collected (n : Nat)
  | file (name : Octets)
  | nowhere
  deriving DecidableEq

structure Channels where
  output : Sink
  errors : Sink

def ofOutput : Nat := 0
def ofErrors : Nat := 1

structure State where
  scriptName : Octets
  parameters : List Octets
  values : Table
  exported : List Octets
  fixed : List Octets
  kept : List (Octets × Option Octets)
  functions : List (Octets × Command)
  directory : Octets
  status : Nat
  line : Nat
  input : Octets
  channels : Channels
  collected : List (List Octets)
  files : Table
  stopsOnFailure : Bool
  refusesUnset : Bool
  traces : Bool
  ignoresPatterns : Bool
  loops : Nat
  inFunction : Bool
  traps : List (Nat × Octets)

/-- Why commands are not gone on with. -/
inductive Stop where
  | exit
  | killed (signal : Nat)
  | returning
  | breaking (levels : Nat)
  | continuing (levels : Nat)

abbrev Work := ExceptT Stop (StateM State)

namespace Work

def setStatus (n : Nat) : Work Unit := modify fun s => { s with status := n }

def seenFrom (directory name : Octets) : Octets :=
  if directory.isEmpty || name.head? == some '/' then name else directory ++ '/' :: name

def entry (w : World) (name : Octets) : Work (Option Entry) := do
  if name.isEmpty then return none
  let s ← get
  let name := seenFrom s.directory name
  match s.files.lookup name with
  | some content => return some (.file content false)
  | none =>
    if ["/dev/null", "/dev/stdin", "/dev/stdout", "/dev/stderr"].contains (String.ofList name) then
      return some (.file (if name == "/dev/stdin".toList then s.input else []) false)
    else return w.look name

def append (n : Nat) (text : Octets) : List (List Octets) → List (List Octets)
  | [] => []
  | chunks :: rest =>
    match n with
    | 0 => (text :: chunks) :: rest
    | n + 1 => chunks :: append n text rest

def write (sink : Sink) (text : Octets) : Work Unit :=
  if text.isEmpty then return ()
  else
    match sink with
    | .nowhere => return ()
    | .collected n => modify fun s => { s with collected := append n text s.collected }
    | .file name => modify fun s =>
        let content := (s.files.lookup name).getD []
        { s with files := s.files.put name (content ++ text) }

def print (text : Octets) : Work Unit := do write (← get).channels.output text
def report (text : Octets) : Work Unit := do write (← get).channels.errors text

/-- A message with the name of the script and the line in front. -/
def complain (text : Octets) : Work Unit := do
  let s ← get
  report (s.scriptName ++ ": ".toList ++ number s.line ++ ": ".toList ++ text ++ ['\n'])

def fatal {α : Type} (text : Octets) : Work α := do
  complain text
  setStatus 2
  throw .exit

def failed (command : Octets) (text : Octets) : Work Unit := do
  complain (command ++ ": ".toList ++ text)
  setStatus 2

def takeCollected : Work Octets := do
  let s ← get
  set { s with collected := s.collected.dropLast }
  return (s.collected.getLastD []).reverse.flatten

def collecting {α : Type} (work : Work α) : Work (Octets × α) := do
  let before ← get
  set { before with
    collected := before.collected ++ [[]]
    channels := { before.channels with output := .collected before.collected.length } }
  let result ← work
  modify fun s => { s with channels := before.channels }
  return (← takeCollected, result)

/-- Runs something so that it changes nothing but what is written, read and its status. -/
def apart (work : Work Unit) : Work Unit := do
  let before ← get
  let stop ← tryCatch (do work; return none) fun stop => return some stop
  modify fun s =>
    { before with
      status := s.status
      input := s.input
      collected := s.collected
      files := s.files }
  match stop with
  | some (.killed signal) => throw (.killed signal)
  | _ => return ()

def lookUp (name : Octets) : Work (Option Octets) := return (← get).values.lookup name

/-- Gives a variable its value for a command, unless it is fixed. -/
def assignBy (command name value : Octets) : Work Unit := do
  if (← get).fixed.contains name then
    fatal ((if command.isEmpty then [] else command ++ ": ".toList) ++ name ++
      ": is read only".toList)
  else modify fun s => { s with values := s.values.put name value }

def assign (name value : Octets) : Work Unit := assignBy [] name value

/-- Files written by the run stand beside those that were there. -/
def namesIn (w : World) (s : State) (directory : Octets) : List Octets :=
  let directory := seenFrom s.directory (if directory.isEmpty then ['.'] else directory)
  let ownDirectory := if directory == ['.'] then [] else directory ++ ['/']
  let written := s.files.filterMap fun (name, _) =>
    let rest := name.drop ownDirectory.length
    if ownDirectory.isPrefixOf name && !rest.contains '/' then some rest else none
  ((w.names directory ++ written).eraseDups).mergeSort fun a b => decide (¬ b < a)

def separators : Work Octets := return ((← lookUp "IFS".toList).getD [' ', '\t', '\n'])

def connect (channel : Nat) (sink : Sink) : Work Unit :=
  modify fun s => { s with channels :=
    if channel = 1 then { s.channels with output := sink }
    else if channel = 2 then { s.channels with errors := sink }
    else s.channels }

def sinkOf (channel : Nat) : Work Sink := do
  let channels := (← get).channels
  return if channel = 1 then channels.output else if channel = 2 then channels.errors else .nowhere

end Work

end OperationHooks.Shell
