import OperationHooks.Shell.State

set_option autoImplicit false

namespace OperationHooks.Shell

open Work

def ownNumber : Octets := "4242".toList

def parameterValue (s : State) (name : Octets) : Option Octets :=
  match name with
  | ['#'] => some (number s.parameters.length)
  | ['?'] => some (number s.status)
  | ['$'] => some ownNumber
  | ['-'] => some (([('e', s.stopsOnFailure), ('f', s.ignoresPatterns), ('x', s.traces),
      ('u', s.refusesUnset)].filter (·.2)).map (·.1))
  | ['0'] => some s.scriptName
  | name =>
    match natural? name with
    | some n => s.parameters[n - 1]?
    | none => s.values.lookup name

def joinedBy (separators : Octets) (texts : List Octets) : Octets :=
  (match separators with
    | [] => []
    | c :: _ => [c]).intercalate texts

def isAll (name : Octets) : Bool := name == ['@'] || name == ['*']

def textOf (name : Octets) : Work (Option Octets) := do
  let s ← get
  if isAll name then
    let between ← if name == ['@'] then pure [' '] else separators
    return if s.parameters.isEmpty then none else some (joinedBy between s.parameters)
  else return parameterValue s name

def piecesOf (quoted : Bool) (text : Octets) : List Piece :=
  if quoted then .present :: text.map fun c => .symbol ⟨c, true⟩
  else text.map Piece.splitting

def allPieces (name : Octets) (quoted : Bool) : Work (List Piece) := do
  let s ← get
  if quoted && name == ['*'] then return piecesOf true (joinedBy (← separators) s.parameters)
  else return [Piece.cut].intercalate (s.parameters.map (piecesOf quoted))

def notSet (name : Octets) : Octets := name ++ ": parameter not set".toList

def assignmentOf (arg : Octets) : Octets × Option Octets :=
  let name := arg.takeWhile (· != '=')
  (name, if name.length < arg.length then some (arg.drop (name.length + 1)) else none)

def lineOf (raw : Bool) : Octets → List Symbol × Bool × Octets
  | [] => ([], false, [])
  | '\n' :: rest => ([], true, rest)
  | '\\' :: c :: rest =>
    if raw then
      let (line, ended, left) := lineOf raw (c :: rest)
      (⟨'\\', false⟩ :: line, ended, left)
    else
      let (line, ended, left) := lineOf raw rest
      (if c == '\n' then line else ⟨c, true⟩ :: line, ended, left)
  | c :: rest =>
    let (line, ended, left) := lineOf raw rest
    (if c == '\\' && !raw then line else ⟨c, false⟩ :: line, ended, left)

def isBlankSeparator (separators : Octets) (s : Symbol) : Bool :=
  !s.quoted && separators.contains s.char && (s.char == ' ' || s.char == '\t' || s.char == '\n')

def isSeparator (separators : Octets) (s : Symbol) : Bool := !s.quoted && separators.contains s.char

def trimBlanks (separators : Octets) (line : List Symbol) : List Symbol :=
  ((line.reverse.dropWhile (isBlankSeparator separators)).reverse)

def shared (separators : Octets) : List Octets → List Symbol → List (Octets × Octets)
  | [], _ => []
  | [name], line =>
    let line := trimBlanks separators (line.dropWhile (isBlankSeparator separators))
    let whole := line.reverse
    let kept := match whole with
      | c :: rest =>
        if isSeparator separators c && !rest.any (isSeparator separators) then
          trimBlanks separators rest.reverse
        else line
      | [] => line
    [(name, characters kept)]
  | name :: others, line =>
    let line := line.dropWhile (isBlankSeparator separators)
    let field := line.takeWhile (!isSeparator separators ·)
    let behind := (line.drop field.length).dropWhile (isBlankSeparator separators)
    let left := match behind with
      | c :: rest => if isSeparator separators c then rest else behind
      | [] => []
    (name, characters field) :: shared separators others left

def signals : List (String × Nat) := [
  ("HUP", 1), ("INT", 2), ("QUIT", 3), ("ILL", 4), ("TRAP", 5), ("ABRT", 6), ("BUS", 7), ("FPE", 8),
  ("KILL", 9), ("USR1", 10), ("SEGV", 11), ("USR2", 12), ("PIPE", 13), ("ALRM", 14), ("TERM", 15),
  ("STKFLT", 16), ("CHLD", 17), ("CONT", 18), ("STOP", 19), ("TSTP", 20),
    ("TTIN", 21), ("TTOU", 22),
  ("URG", 23), ("XCPU", 24), ("XFSZ", 25), ("VTALRM", 26), ("PROF", 27), ("WINCH", 28), ("IO", 29),
  ("PWR", 30), ("SYS", 31), ("EXIT", 0)]

def signalOf (text : Octets) : Option Nat :=
  match natural? text with
  | some n => if n ≤ 64 then some n else none
  | none => signals.lookup (String.ofList (text.map Char.toUpper))

/-- Signals that do not end a process. -/
def isHarmless (n : Nat) : Bool := [0, 17, 18, 23, 28].contains n

def killUsage : Octets :=
  "Usage: kill [-s sigspec | -signum | -sigspec] [pid | job]... or\nkill -l [exitstatus]".toList

/-- The signal and the targets of a kill command; a fault's text otherwise. -/
def killArguments (args : List Octets) : Except Octets (Nat × List Octets) :=
  let targeted (signal : Nat) (targets : List Octets) :=
    let targets := match targets with
      | ['-', '-'] :: rest => rest
      | targets => targets
    if targets.isEmpty then .error killUsage else .ok (signal, targets)
  match args with
  | ['-', 's'] :: name :: targets =>
    match signalOf name with
    | some n => targeted n targets
    | none => .error ("invalid signal number or name: ".toList ++ name)
  | ('-' :: c :: name) :: targets =>
    if c == '-' then targeted 15 args
    else
      match signalOf (c :: name) with
      | some n => targeted n targets
      | none => .error ("Illegal option -".toList ++ [c])
  | targets => targeted 15 targets

/-- Sends a signal to processes, of which only the script itself is there. -/
def kill (args : List Octets) : Work Unit := do
  match killArguments args with
  | .error text => failed "kill".toList text
  | .ok (signal, targets) =>
    for target in targets do
      if target == ownNumber || target == ['0'] then
        if isHarmless signal then setStatus 0 else throw (.killed signal)
      else if target.all Decimal.isDigit then
        complain "kill: No such process\n".toList
        setStatus 1
      else failed "kill".toList ("Illegal number: ".toList ++ target)

def controlNumber (command : Octets) (arg : Option Octets) (otherwise : Nat) : Work Nat := do
  match arg with
  | none => return otherwise
  | some text =>
    match natural? text with
    | some n =>
      if n < Nat.pow 2 31 then return n else fatal (command ++ ": Illegal number: ".toList ++ text)
    | none => fatal (command ++ ": Illegal number: ".toList ++ text)

def setFlag (on : Bool) (c : Char) : Work Unit :=
  modify fun s =>
    match c with
    | 'e' => { s with stopsOnFailure := on }
    | 'u' => { s with refusesUnset := on }
    | 'x' => { s with traces := on }
    | 'f' => { s with ignoresPatterns := on }
    | _ => s

def flagNamed (name : Octets) : Option Char :=
  match String.ofList name with
  | "errexit" => some 'e'
  | "nounset" => some 'u'
  | "xtrace" => some 'x'
  | "noglob" => some 'f'
  | _ => none

def setOptions : List Octets → Work Unit
  | [] => return ()
  | ['-', '-'] :: rest => modify fun s => { s with parameters := rest }
  | [sign, 'o'] :: name :: rest => do
    (flagNamed name).forM (setFlag (sign == '-'))
    setOptions rest
  | (sign :: c :: more) :: rest =>
    if sign == '-' || sign == '+' then do
      (c :: more).forM (setFlag (sign == '-'))
      setOptions rest
    else modify fun s => { s with parameters := (sign :: c :: more) :: rest }
  | parameters => modify fun s => { s with parameters }

/-- Gives names their values for a command; with `exports` programs see them. -/
def define (command : String) (args : List Octets) (exports : Bool) : Work Unit := do
  for arg in args do
    let (name, value) := assignmentOf arg
    match value with
    | some value => assignBy command.toList name value
    | none => pure ()
    if exports then modify fun s => { s with exported := name :: s.exported }

def printf (args : List Octets) : Work Unit := do
  let (args, literal) := match args with
    | ['-', '-'] :: rest => (rest, true)
    | args => (args, false)
  match args, literal with
  | [], _ => failed "printf".toList "usage: printf format [arg ...]".toList
  | ('-' :: c :: _) :: _, false => failed "printf".toList ("Illegal option -".toList ++ [c])
  | format :: rest, _ =>
    let f := formatted format rest.length rest
    print f.output
    for text in f.complaints do complain ("printf: ".toList ++ text)
    setStatus (if f.broken then 2 else if f.complaints.isEmpty then 0 else 1)

def readLine (args : List Octets) : Work Unit := do
  let raw := args.head? == some ['-', 'r']
  let names := if raw then args.drop 1 else args
  if names.isEmpty then failed "read".toList "arg count".toList
  else
    let s ← get
    let (line, ended, left) := lineOf raw s.input
    set { s with input := left }
    let work : Work Unit := do
      for (name, value) in shared (← separators) names line do
        assignBy "read".toList name value
      setStatus (if ended then 0 else 1)
    tryCatch work fun stop => do
      match stop with
      | .exit => return ()
      | stop => throw stop

def condition (w : World) (name : Octets) (args : List Octets) : Work Unit := do
  let closed := args.getLast? == some [']']
  if name == ['['] && !closed then failed name "missing ]".toList
  else
    let s ← get
    let words := if name == ['['] then args.dropLast else args
    let look (path : Octets) : Option Entry := ((entry w path).run.run s).1.toOption.join
    match holds look words with
    | .ok b => setStatus (if b then 0 else 1)
    | .error fault => failed name fault.text

def shift (args : List Octets) : Work Unit := do
  let n ← controlNumber "shift".toList args.head? 1
  let s ← get
  if s.parameters.length < n then fatal "shift: can't shift that many".toList
  else set { s with parameters := s.parameters.drop n, status := 0 }

def jump (stop : Nat → Stop) (command : String) (args : List Octets) : Work Unit := do
  let n ← controlNumber command.toList args.head? 1
  if n = 0 then fatal (command.toList ++ ": Illegal number: 0".toList)
  let s ← get
  setStatus 0
  if s.loops = 0 then return () else throw (stop (min n s.loops))

def unset (args : List Octets) : Work Unit :=
  modify fun s =>
    match args with
    | ['-', 'f'] :: names => { s with functions := s.functions.filter fun f => !names.contains f.1 }
    | args =>
      let names := if args.head? == some ['-', 'v'] then args.drop 1 else args
      { s with values := s.values.filter fun v => !names.contains v.1, status := 0 }

def changeDirectory (w : World) (args : List Octets) : Work Unit := do
  match args with
  | [] => failed "cd".toList "can't cd to /nonexistent".toList
  | directory :: _ =>
    match ← entry w directory with
    | some .directory =>
      modify fun s => { s with directory := seenFrom s.directory directory, status := 0 }
    | _ => failed "cd".toList ("can't cd to ".toList ++ directory)

def localNames (args : List Octets) : Work Unit := do
  if !(← get).inFunction then fatal "local: not in a function".toList
  for arg in args do
    let (name, _) := assignmentOf arg
    modify fun s => { s with kept := (name, s.values.lookup name) :: s.kept }
  define "local" args false
  setStatus 0

def inQuotes : Octets → Octets
  | [] => ['\'', '\'']
  | cs =>
    let parts := Text.splitAt '\'' cs
    ['\''] ++ "'\"'\"'".toList.intercalate parts ++ ['\'']

/-- Sets what is done on signals or at the end, or shows it. -/
def trap (args : List Octets) : Work Unit := do
  setStatus 0
  match args with
  | [] =>
    let shown := (← get).traps.mergeSort fun a b => decide (a.1 ≤ b.1)
    for (signal, action) in shown do
      let name := (signals.find? (·.2 == signal)).map (·.1)
      print ("trap -- ".toList ++ inQuotes action ++ octets s!" {name.getD (toString signal)}\n")
  | first :: rest =>
    let resets := rest.isEmpty || (signalOf first).isSome || first == ['-']
    let names := if rest.isEmpty || (signalOf first).isSome then args else rest
    for name in names do
      match signalOf name with
      | none =>
        report ("trap: ".toList ++ name ++ ": bad trap\n".toList)
        setStatus 1
        break
      | some signal =>
        modify fun s =>
          let others := s.traps.filter (·.1 != signal)
          { s with traps := if resets then others else (signal, first) :: others }

def plainCommand? (w : World) (name : String) (args : List Octets) : Option (Work Unit) :=
  match name with
  | ":" | "true" | "wait" | "umask" | "hash" | "ulimit" => some (setStatus 0)
  | "false" => some (setStatus 1)
  | "echo" => some do
    print (echoed args)
    setStatus 0
  | "printf" => some (printf args)
  | "test" | "[" => some (condition w name.toList args)
  | "read" => some (readLine args)
  | "kill" => some (kill args)
  | "exit" => some do
    setStatus ((← controlNumber "exit".toList args.head? (← get).status) % 256)
    throw .exit
  | "return" => some do
    setStatus (← controlNumber "return".toList args.head? (← get).status)
    if (← get).inFunction then throw .returning else throw .exit
  | "break" => some (jump .breaking "break" args)
  | "continue" => some (jump .continuing "continue" args)
  | "shift" => some (shift args)
  | "set" => some do
    setOptions args
    setStatus 0
  | "unset" => some (unset args)
  | "export" => some do
    define "export" args true
    setStatus 0
  | "readonly" => some do
    define "readonly" args false
    modify fun s =>
      { s with fixed := args.map (fun a => (assignmentOf a).1) ++ s.fixed, status := 0 }
  | "local" => some (localNames args)
  | "cd" => some (changeDirectory w args)
  | "trap" => some (trap args)
  | _ => none

/-- Commands of the shell after whose assignments the variables stay. -/
def isSpecialCommand (name : String) : Bool :=
  [":", "exit", "return", "break", "continue", "shift", "set", "unset", "export",
   "readonly", "eval",
   ".", "exec", "trap", "times"].contains name

def isLeadingCommand (name : String) : Bool :=
  ["eval", ".", "exec", "command", "type"].contains name

end OperationHooks.Shell
