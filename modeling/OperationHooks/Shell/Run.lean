import OperationHooks.Shell.BuiltIn
/-!
Running scripts: the expansion of words, redirections, functions and programs. All parts of a run
share one bound on how deep and how long it goes.
-/
set_option autoImplicit false

namespace OperationHooks.Shell

open Work

def freshState (s : State) (script : Octets) (parameters : List Octets) : State :=
  { s with
    scriptName := script
    parameters
    values := s.values.filter fun v => s.exported.contains v.1
    fixed := []
    kept := []
    functions := []
    status := 0
    line := 0
    stopsOnFailure := false
    refusesUnset := false
    traces := false
    ignoresPatterns := false
    loops := 0
    inFunction := false
    traps := [] }

def readFor (w : World) (s : State) (name : Octets) : Except String Octets :=
  match ((entry w name).run.run s).1 with
  | .ok (some (.file content _)) => .ok content
  | .ok (some .directory) => .error "Is a directory"
  | _ => .error "No such file or directory"

def runUtility (w : World) (u : Utility) (name : Octets) (args : List Octets) : Work Unit := do
  let s ← get
  let result := u
    { name := String.ofList name, args, input := s.input
      read := readFor w s, names := namesIn w s }
  report result.errors
  print result.output
  for (file, appends, text) in result.written do
    match String.ofList file with
    | "/dev/null" => pure ()
    | "/dev/stdout" => print text
    | "/dev/stderr" => report text
    | _ =>
      let path := seenFrom s.directory file
      modify fun s =>
        let before := if appends then (s.files.lookup path).getD [] else []
        { s with files := s.files.put path (before ++ text) }
  modify fun s => { s with input := result.input, status := result.status }

/-- The first path among those of a name that something is found at, and what starts there. -/
def findProgram (w : World) (s : State) (name : Octets) (words : List Octets) :
    Except StartFault (Octets × Image × List Octets) :=
  let search := (s.values.lookup "PATH".toList)
  let tried := (candidates search name).map fun path =>
    let placedPath := if path.contains '/' then path else "./".toList ++ path
    (path, start { w with look := fun p => w.look (seenFrom s.directory p) } placedPath words)
  match tried.find? fun (_, result) => result matches .ok _ with
  | some (path, .ok (image, words)) => .ok (path, image, words)
  | _ =>
    let faults := tried.filterMap fun (_, result) =>
      match result with
      | .error .noEntry => none
      | .error fault => some fault
      | .ok _ => none
    .error (faults.headD .noEntry)

def deathNotice (signal : Nat) : Octets :=
  match signal with
  | 1 => "Hangup\n".toList
  | 3 => "Quit\n".toList
  | 9 => "Killed\n".toList
  | 10 => "User defined signal 1\n".toList
  | 12 => "User defined signal 2\n".toList
  | 14 => "Alarm clock\n".toList
  | 15 => "Terminated\n".toList
  | _ => []

structure ShellWords where
  flags : Octets
  command : Option Octets
  operands : List Octets

def shellWords : List Octets → Except Octets ShellWords
  | ['-', '-'] :: rest => .ok ⟨[], none, rest⟩
  | ('-' :: '-' :: _) :: _ => .error "Illegal option --".toList
  | ('-' :: c :: more) :: rest =>
    if (c :: more).contains 'c' then
      match rest with
      | command :: rest => .ok ⟨c :: more, some command, rest⟩
      | [] => .error "-c requires an argument".toList
    else if (c :: more).all fun f => "aefnuvxIimqVEbps".toList.contains f then
      (shellWords rest).map fun found => { found with flags := c :: more ++ found.flags }
    else .error ("Illegal option -".toList ++ [((c :: more).find? fun f =>
      !("aefnuvxIimqVEbps".toList.contains f)).getD c])
  | operands => .ok ⟨[], none, operands⟩

def withHome (s : State) (word : Word) : Word :=
  match word, s.values.lookup "HOME".toList with
  | .text ('~' :: rest) false :: more, some home =>
    if rest.head? == some '/' || rest.isEmpty && more.isEmpty then
      .text home true :: .text rest false :: more
    else word
  | _, _ => word

def isMagic (s : Symbol) : Bool := !s.quoted && ['*', '?', '['].contains s.char

def componentsOf (pattern : List Symbol) : List (List Symbol) :=
  pattern.foldr (fun s parts =>
    if s.char == '/' then [] :: parts
    else
      match parts with
      | part :: rest => (s :: part) :: rest
      | [] => [[s]]) [[]]

def namesFitting (names : List Octets) (component : List Symbol) : List Octets :=
  names.filter fun name =>
    (name.head? != some '.' || (component.head?.map (·.char)) == some '.') && fits component name

def pathsBelow (w : World) (s : State) (before : Octets) : List (List Symbol) → List Octets
  | [] => [before]
  | component :: rest =>
    let named (name : Octets) : Octets := before ++ name ++ (if rest.isEmpty then [] else ['/'])
    if component.any isMagic then
      (namesFitting (namesIn w s before) component).flatMap fun name =>
        pathsBelow w s (named name) rest
    else pathsBelow w s (named (characters component)) rest

def pathsOf (w : World) (s : State) (field : List Symbol) : List Octets :=
  if !field.any isMagic then [characters field]
  else
    let found := (pathsBelow w s [] (componentsOf field)).filter fun path =>
      (((entry w path).run.run s).1.toOption.join).isSome
    if found.isEmpty then [characters field] else found

mutual

def expandWord (w : World) : Nat → Word → Work (List Piece)
  | 0, _ => throw (.killed 9)
  | _, [] => return []
  | fuel + 1, part :: rest => do
    let first ← expandPart w fuel part
    return first ++ (← expandWord w fuel rest)

def expandPart (w : World) : Nat → Part → Work (List Piece)
  | 0, _ => throw (.killed 9)
  | fuel + 1, part => do
    match part with
    | .text cs quoted => return .present :: cs.map fun c => .symbol ⟨c, quoted⟩
    | .command source line quoted => return piecesOf quoted (← commandOutput w fuel source line)
    | .arithmetic parts quoted =>
      let text := characters (joinedPieces (← expandWord w fuel parts))
      match compute (← get).values text with
      | .ok (n, values) =>
        modify fun s => { s with values }
        return piecesOf quoted (toString n).toList
      | .error fault => fatal (fault.message text).toList
    | .parameter name use quoted => expandParameter w fuel name use quoted

def expandParameter (w : World) : Nat → Octets → Use → Bool → Work (List Piece)
  | 0, _, _, _ => throw (.killed 9)
  | fuel + 1, name, use, quoted => do
    let refuseUnset (text : Option Octets) : Work Unit := do
      if text.isNone && (← get).refusesUnset && !isAll name then fatal (notSet name)
    match use with
    | .malformed => fatal "Bad substitution".toList
    | .value =>
      if isAll name then allPieces name quoted
      else
        let text ← textOf name
        refuseUnset text
        return piecesOf quoted (text.getD [])
    | .length =>
      let text ← textOf name
      refuseUnset text
      return piecesOf quoted (number (text.getD []).length)
    | .trimmed atFront longest pattern =>
      let text ← textOf name
      refuseUnset text
      let pattern := joinedPieces (← expandWord w fuel pattern)
      return piecesOf quoted (trimmedBy atFront longest pattern (text.getD []))
    | .instead kind alsoEmpty word =>
      let text ← textOf name
      let there := text.isSome && !(alsoEmpty && text == some [])
      let own : Work (List Piece) :=
        if isAll name then allPieces name quoted else return piecesOf quoted (text.getD [])
      match kind with
      | .standard => if there then own else expandWord w fuel word
      | .other => if there then expandWord w fuel word else return if quoted then [.present] else []
      | .assigned =>
        if there then own
        else
          let value := characters (joinedPieces (← expandWord w fuel word))
          assign name value
          return piecesOf quoted value
      | .failure =>
        if there then own
        else
          let message := characters (joinedPieces (← expandWord w fuel word))
          fatal (if word.isEmpty then
              (if alsoEmpty then name ++ ": parameter not set or null".toList else notSet name)
            else name ++ ": ".toList ++ message)

def commandOutput (w : World) : Nat → Octets → Nat → Work Octets
  | 0, _, _ => throw (.killed 9)
  | fuel + 1, source, line => do
    let (text, _) ← collecting (inSubshell w fuel (runSource w [] fuel source line))
    return ((text.reverse.dropWhile (· == '\n')).reverse).filter (· != '\x00')

def expandFields (w : World) : Nat → Word → Work (List Octets)
  | 0, _ => throw (.killed 9)
  | fuel + 1, word => do
    let pieces ← expandWord w fuel (withHome (← get) word)
    let s ← get
    return (fields (← separators) pieces).flatMap
      (if s.ignoresPatterns then fun field => [characters field] else pathsOf w s)

def expandAll (w : World) : Nat → List Word → Work (List Octets)
  | 0, _ => throw (.killed 9)
  | _, [] => return []
  | fuel + 1, word :: rest => do
    let first ← expandFields w fuel word
    return first ++ (← expandAll w fuel rest)

def expandText (w : World) : Nat → Word → Work (List Symbol)
  | 0, _ => throw (.killed 9)
  | fuel + 1, word => do return joinedPieces (← expandWord w fuel word)

def redirect (w : World) : Nat → List Redirection → Work Bool
  | 0, _ => throw (.killed 9)
  | _, [] => return true
  | fuel + 1, r :: rest => do
    let done ← match r with
      | .here _ body => do
        let text? ← tryCatch (do return some (characters (← expandText w fuel body))) fun stop => do
          match stop with
          | .exit => return none
          | stop => throw stop
        (text?.forM fun text => modify fun s => { s with input := text })
        pure text?.isSome
      | .copy channel source => do
        match characters (← expandText w fuel source) with
        | ['-'] =>
          if channel = 0 then modify fun s => { s with input := [] } else connect channel .nowhere
          pure true
        | text =>
          match natural? text with
          | some n =>
            if channel ≠ 0 then connect channel (← sinkOf n)
            pure true
          | none => fatal "Bad fd number".toList
      | .file channel opening name => do
        let name := characters (← expandText w fuel name)
        match opening with
        | .forReading =>
          match ← entry w name with
          | some (.file content _) =>
            modify fun s => { s with input := content }
            pure true
          | some .directory =>
            modify fun s => { s with input := [] }
            pure true
          | none => do
            complain ("cannot open ".toList ++ name ++ ": No such file".toList)
            pure false
        | opening =>
          match String.ofList name with
          | "/dev/null" => do
            connect channel .nowhere
            pure true
          | "/dev/stdout" => do
            connect channel (← sinkOf 1)
            pure true
          | "/dev/stderr" => do
            connect channel (← sinkOf 2)
            pure true
          | _ =>
            let directory := (name.reverse.dropWhile (· != '/')).reverse
            let around ← if directory.isEmpty then pure (some Entry.directory)
              else entry w directory
            match ← entry w name, around with
            | some .directory, _ => do
              complain ("cannot create ".toList ++ name ++ ": Is a directory".toList)
              pure false
            | before, some .directory => do
              let path := seenFrom (← get).directory name
              let content := match opening, before with
                | .forAppending, some (.file content _) => content
                | _, _ => []
              modify fun s => { s with files := s.files.put path content }
              connect channel (.file path)
              pure true
            | _, _ => do
              complain ("cannot create ".toList ++ name ++ ": Directory nonexistent".toList)
              pure false
    if done then redirect w fuel rest
    else
      setStatus 2
      return false

def within (w : World) : Nat → List Redirection → Work Unit → Work Unit
  | 0, _, _ => throw (.killed 9)
  | fuel + 1, rs, work => do
    let before ← get
    let readsElsewhere := rs.any fun
      | .file 0 _ _ | .here 0 _ | .copy 0 _ => true
      | _ => false
    let restore : Work Unit := modify fun s =>
      { s with channels := before.channels, input := if readsElsewhere then
        before.input else s.input }
    if ← redirect w fuel rs then
      tryCatch work fun stop => do
        restore
        throw stop
    restore

/-- The commands of a text, run in the present shell; `context` stands in messages about its form.
-/
def runSource (w : World) (context : Octets) : Nat → Octets → Nat → Work Unit
  | 0, _, _ => throw (.killed 9)
  | fuel + 1, source, line => do
    let (commands, fault) := readScript source line
    runAll w fuel commands
    match fault with
    | none => return ()
    | some f =>
      modify fun s => { s with line := f.line }
      fatal (context ++ "Syntax error: ".toList ++ f.message.toList)

def runAll (w : World) : Nat → List Command → Work Unit
  | 0, _ => throw (.killed 9)
  | _, [] => return ()
  | fuel + 1, c :: rest => do
    run w fuel false c
    runAll w fuel rest

/-- Runs a command. A failure of one that is `tested` never ends the script. -/
def run (w : World) : Nat → Bool → Command → Work Unit
  | 0, _, _ => throw (.killed 9)
  | fuel + 1, tested, c => do
    let checked : Work Unit := do
      let s ← get
      if s.stopsOnFailure && s.status ≠ 0 && !tested then throw .exit
    match c with
    | .simple line assignments words redirections =>
      modify fun s => { s with line }
      runSimple w fuel assignments words redirections
      checked
    | .pipe commands =>
      runPipe w fuel commands
      checked
    | .negated c =>
      run w fuel true c
      modify fun s => { s with status := if s.status = 0 then 1 else 0 }
    | .both first second =>
      run w fuel true first
      if (← get).status = 0 then run w fuel tested second
    | .either first second =>
      run w fuel true first
      if (← get).status ≠ 0 then run w fuel tested second
    | .sequence first second =>
      run w fuel tested first
      run w fuel tested second
    | .background c =>
      let input := (← get).input
      modify fun s => { s with input := [] }
      inSubshell w fuel (run w fuel tested c)
      modify fun s => { s with input, status := 0 }
    | .redirected line c redirections =>
      modify fun s => { s with line }
      within w fuel redirections (run w fuel tested c)
    | .subshell c =>
      inSubshell w fuel (run w fuel tested c)
      checked
    | .choice condition yes no =>
      run w fuel true condition
      if (← get).status = 0 then run w fuel tested yes
      else
        match no with
        | some no => run w fuel tested no
        | none => setStatus 0
    | .loop expected condition body =>
      modify fun s => { s with loops := s.loops + 1 }
      runLoop w fuel tested expected condition body 0
      modify fun s => { s with loops := s.loops - 1 }
    | .forEach line name words body =>
      modify fun s => { s with line }
      let values ← match words with
        | some words => expandAll w fuel words
        | none => pure (← get).parameters
      modify fun s =>
        { s with loops := s.loops + 1, status := if values.isEmpty then 0 else s.status }
      runEach w fuel tested name values body
      modify fun s => { s with loops := s.loops - 1 }
    | .cases line subject items =>
      modify fun s => { s with line }
      let text := characters (← expandText w fuel subject)
      runCases w fuel tested text items
    | .function name body =>
      modify fun s => { s with functions := (name, body) :: s.functions, status := 0 }

def runBody (w : World) : Nat → Bool → Command → Work Bool
  | 0, _, _ => throw (.killed 9)
  | fuel + 1, tested, body =>
    tryCatch (do run w fuel tested body; return true) fun stop => do
      match stop with
      | .breaking n =>
        if n ≤ 1 then return false else throw (.breaking (n - 1))
      | .continuing n =>
        if n ≤ 1 then return true else throw (.continuing (n - 1))
      | stop => throw stop

def runLoop (w : World) : Nat → Bool → Bool → Command → Command → Nat → Work Unit
  | 0, _, _, _, _, _ => throw (.killed 9)
  | fuel + 1, tested, expected, condition, body, status => do
    if ← runBody w fuel true condition then
      if ((← get).status == 0) == expected then
        if ← runBody w fuel tested body then
          runLoop w fuel tested expected condition body (← get).status
      else setStatus status

def runEach (w : World) : Nat → Bool → Octets → List Octets → Command → Work Unit
  | 0, _, _, _, _ => throw (.killed 9)
  | _, _, _, [], _ => return ()
  | fuel + 1, tested, name, value :: rest, body => do
    assign name value
    if ← runBody w fuel tested body then runEach w fuel tested name rest body

def runCases (w : World) :
    Nat → Bool → Octets → List (List Word × Option Command) → Work Unit
  | 0, _, _, _ => throw (.killed 9)
  | _, _, _, [] => setStatus 0
  | fuel + 1, tested, text, (patterns, body) :: rest => do
    if ← anyFits w fuel text patterns then
      match body with
      | some body => run w fuel tested body
      | none => setStatus 0
    else runCases w fuel tested text rest

def anyFits (w : World) : Nat → Octets → List Word → Work Bool
  | 0, _, _ => throw (.killed 9)
  | _, _, [] => return false
  | fuel + 1, text, pattern :: rest => do
    if fits (← expandText w fuel pattern) text then return true else anyFits w fuel text rest

/-- Commands that pass on what they print; the status is that of the last one. -/
def runPipe (w : World) : Nat → List Command → Work Unit
  | 0, _ => throw (.killed 9)
  | _, [] => return ()
  | fuel + 1, [c] => inSubshell w fuel (run w fuel true c)
  | fuel + 1, c :: rest => do
    let { status, .. } ← get
    let (text, _) ← collecting (inSubshell w fuel (run w fuel true c))
    let input := (← get).input
    modify fun s => { s with input := text, status }
    runPipe w fuel rest
    modify fun s => { s with input }

def finishing (w : World) : Nat → Work Unit → Work Unit
  | 0, _ => throw (.killed 9)
  | fuel + 1, work => do
    tryCatch work fun stop => do
      match stop with
      | .killed signal => throw (.killed signal)
      | _ => return ()
    match (← get).traps.lookup 0 with
    | some action =>
      let status := (← get).status
      modify fun s => { s with traps := s.traps.filter (·.1 != 0) }
      runSource w [] fuel action 1
      setStatus status
    | none => return ()

/-- Runs something in a shell of its own, in which only signals that were ignored are not as at
first. -/
def inSubshell (w : World) : Nat → Work Unit → Work Unit
  | 0, _ => throw (.killed 9)
  | fuel + 1, work => apart do
    modify fun s => { s with traps := s.traps.filter (·.2.isEmpty) }
    finishing w fuel work

def withTraps (w : World) : Nat → Work Unit → Work Unit
  | 0, _ => throw (.killed 9)
  | fuel + 1, work =>
    tryCatch work fun stop => do
      match stop with
      | .killed signal =>
        let action? := (← get).traps.lookup signal
        match if signal = 9 then none else action? with
        | none => throw stop
        | some action =>
          runSource w [] fuel action 1
          setStatus 0
      | stop => throw stop

/-- Gives names their values, one after another, and shows what was done. -/
def assignAll (w : World) : Nat → List (Octets × Word) → Work (List Octets)
  | 0, _ => throw (.killed 9)
  | _, [] => return []
  | fuel + 1, (name, word) :: rest => do
    let value := characters (← expandText w fuel (withHome (← get) word))
    assign name value
    return (name ++ '=' :: value) :: (← assignAll w fuel rest)

def runSimple (w : World) :
    Nat → List (Octets × Word) → List Word → List Redirection → Work Unit
  | 0, _, _, _ => throw (.killed 9)
  | fuel + 1, assignments, words, redirections => do
    let before ← get
    let trace (words : List Octets) : Work Unit := do
      if (← get).traces && !words.isEmpty then
        write before.channels.errors ("+ ".toList ++ [' '].intercalate words ++ ['\n'])
    match ← expandAll w fuel words with
    | [] =>
      modify fun s => { s with status := if words.isEmpty then 0 else s.status }
      within w fuel redirections do trace (← assignAll w fuel assignments)
    | name :: args =>
      let command := String.ofList name
      if command == "exec" then
        if ← redirect w fuel redirections then
          match args with
          | [] => setStatus 0
          | name :: args =>
            modify fun s => { s with traps := s.traps.filter (·.1 != 0) }
            runProgram w fuel "exec: ".toList name args
            throw .exit
      else
        within w fuel redirections do
          trace ((← assignAll w fuel assignments) ++ name :: args)
          let restore : Work Unit :=
            if assignments.isEmpty || isSpecialCommand command then return ()
            else
              let names := assignments.map (·.1)
              let own := before.values.filter fun v => names.contains v.1
              modify fun s =>
                { s with values := own ++ s.values.filter fun v => !names.contains v.1 }
          if !assignments.isEmpty then
            modify fun s => { s with exported := assignments.map (·.1) ++ s.exported }
          tryCatch (runNamed w fuel name args) fun stop => do
            restore
            throw stop
          restore
          if !assignments.isEmpty then
            let exported := (← get).exported.filter fun name => !assignments.any (·.1 == name)
            modify fun s => { s with exported := (before.exported ++ exported).eraseDups }

/-- A function, a command of the shell or a program, whichever has the name. -/
def runNamed (w : World) : Nat → Octets → List Octets → Work Unit
  | 0, _, _ => throw (.killed 9)
  | fuel + 1, name, args => do
    let s ← get
    match s.functions.lookup name with
    | some body => runFunction w fuel body args
    | none =>
      match String.ofList name, plainCommand? w (String.ofList name) args with
      | _, some work => withTraps w fuel work
      | "eval", none =>
        setStatus 0
        runSource w "eval: ".toList fuel ([' '].intercalate args) 1
      | ".", none =>
        match args with
        | [] => failed ['.'] "filename argument required".toList
        | file :: _ =>
          let places := candidates ((← get).values.lookup "PATH".toList) file
          match (← places.mapM (entry w)).findSome? fun
              | some (.file content _) => some content
              | _ => none with
          | some content =>
            setStatus 0
            runSource w [] fuel content 1
          | none =>
            if file.contains '/' then
              fatal (".: cannot open ".toList ++ file ++ ": No such file".toList)
            else fatal (".: ".toList ++ file ++ ": not found".toList)
      | "command", none =>
        match args with
        | ['-', 'v'] :: names => showAll w false fuel names
        | ['-', 'V'] :: names => showAll w true fuel names
        | name :: args => runNamed w fuel name args
        | [] => setStatus 0
      | "type", none => showAll w true fuel args
      | _, none => runProgram w fuel [] name args

def showAll (w : World) (verbose : Bool) : Nat → List Octets → Work Unit
  | 0, _ => throw (.killed 9)
  | _, [] => setStatus 0
  | fuel + 1, name :: rest => do
    let s ← get
    let word := String.ofList name
    let isCommand := (plainCommand? w word []).isSome || isLeadingCommand word
    let sentence? : Option (Octets × String) :=
      if Reader.keywords.contains word then some (name, "a shell keyword")
      else if isSpecialCommand word then some (name, "a special shell builtin")
      else if (s.functions.lookup name).isSome then some (name, "a shell function")
      else if isCommand then some (name, "a shell builtin")
      else
        match findProgram w s name [name] with
        | .ok (path, _, _) => some (path, "")
        | .error _ => none
    match sentence? with
    | some (shown, kind) =>
      if !verbose then print (shown ++ ['\n'])
      else print (name ++ " is ".toList ++ (if kind.isEmpty then shown else kind.toList) ++ ['\n'])
    | none => if verbose then print (name ++ ": not found\n".toList)
    showAll w verbose fuel rest
    if sentence?.isNone then setStatus 127

def runFunction (w : World) : Nat → Command → List Octets → Work Unit
  | 0, _, _ => throw (.killed 9)
  | fuel + 1, body, args => do
    let before ← get
    set { before with parameters := args, inFunction := true, kept := [] }
    let restore : Work Unit := modify fun s =>
      { s with
        parameters := before.parameters
        inFunction := before.inFunction
        kept := before.kept
        values := s.kept.foldl (fun vars (name, value) =>
          let others := vars.filter (·.1 != name)
          (value.map (name, ·)).toList ++ others) s.values }
    tryCatch (run w fuel false body) fun stop => do
      match stop with
      | .returning => return ()
      | stop =>
        restore
        throw stop
    restore

def runProgram (w : World) : Nat → Octets → Octets → List Octets → Work Unit
  | 0, _, _, _ => throw (.killed 9)
  | fuel + 1, before, name, args => do
    let s ← get
    match findProgram w s name (name :: args) with
    | .ok (_, image, words) =>
      tryCatch (runImage w fuel image words) fun stop => do
        match stop with
        | .killed signal =>
          report (deathNotice signal)
          setStatus (128 + signal)
        | stop => throw stop
    | .error .noEntry =>
      complain (before ++ name ++ ": not found".toList)
      setStatus 127
    | .error .denied =>
      complain (before ++ name ++ ": Permission denied".toList)
      setStatus 126
    | .error .tooDeep =>
      complain (before ++ name ++ ": Too many levels of symbolic links".toList)
      setStatus 126
    | .error .badFormat =>
      match (candidates (s.values.lookup "PATH".toList) name).findSome? fun path =>
          match w.look (seenFrom s.directory path) with
          | some (.file content true) => some (path, content)
          | _ => none with
      | some (path, content) => runShell w fuel path args [] content
      | none =>
        complain (before ++ name ++ ": not found".toList)
        setStatus 127

def runImage (w : World) : Nat → Image → List Octets → Work Unit
  | 0, _, _ => throw (.killed 9)
  | fuel + 1, image, words => do
    let name := words.headD []
    let args := words.drop 1
    match image with
    | .utility u => runUtility w u name args
    | .finder =>
      let settings := args.takeWhile fun a => (assignmentOf a).2.isSome
      let report (text : Octets) : Work Unit := report (name ++ ": ".toList ++ text ++ ['\n'])
      match args.drop settings.length with
      | [] => setStatus 0
      | option@('-' :: '-' :: _ :: _) :: _ =>
        report (OptionFault.unknownLong option).text
        Work.report (tryHelp (String.ofList name))
        setStatus 125
      | name' :: args' =>
        match findProgram w (← get) name' (name' :: args') with
        | .ok (_, image, words) =>
          apart do
            define "env" settings true
            runImage w fuel image words
        | .error fault =>
          let why := match fault with
            | .noEntry => "No such file or directory"
            | .denied => "Permission denied"
            | .badFormat => "Exec format error"
            | .tooDeep => "Too many levels of symbolic links"
          report (curly name' ++ octets s!": {why}")
          if fault = .noEntry && name'.any (" \t".toList.contains ·) then
            report "use -[v]S to pass options in shebang lines".toList
          setStatus (if fault = .noEntry then 127 else 126)
    | .shell =>
      match shellWords args with
      | .error text =>
        report (name ++ ": 0: ".toList ++ text ++ ['\n'])
        setStatus 2
      | .ok found =>
        match found.command, found.operands with
        | some command, operands =>
          runShell w fuel (operands.headD name) (operands.drop 1) found.flags command
        | none, script :: parameters =>
          match ← entry w script with
          | some (.file content _) => runShell w fuel script parameters found.flags content
          | _ =>
            report (name ++ ": 0: cannot open ".toList ++ script ++ ": No such file\n".toList)
            setStatus 2
        | none, [] =>
          let source := (← get).input
          modify fun s => { s with input := [] }
          runShell w fuel name [] found.flags source

def runShell (w : World) : Nat → Octets → List Octets → Octets → Octets → Work Unit
  | 0, _, _, _, _ => throw (.killed 9)
  | fuel + 1, script, parameters, flags, source =>
    apart do
      modify fun s => freshState s script parameters
      flags.forM (setFlag true)
      finishing w fuel (runSource w [] fuel source 1)

end

/-- How a run ended. -/
inductive Ending where
  | exited (status : Nat)
  | killed
  deriving DecidableEq, Repr

structure Outcome where
  output : Octets
  errors : Octets
  ending : Ending

def initialState (w : World) (input : Octets) : State where
  scriptName := []
  parameters := []
  values := w.environment
  exported := w.environment.map (·.1)
  fixed := []
  kept := []
  functions := []
  directory := []
  status := 0
  line := 0
  input
  channels := ⟨.collected ofOutput, .collected ofErrors⟩
  collected := [[], []]
  files := []
  stopsOnFailure := false
  refusesUnset := false
  traces := false
  ignoresPatterns := false
  loops := 0
  inFunction := false
  traps := []

def fuel : Nat := 1000000

def execute (w : World) (image : Image) (words : List Octets) (input : Octets) : Outcome :=
  let (result, s) := (runImage w fuel image words).run.run (initialState w input)
  let text (n : Nat) := (s.collected.getD n []).reverse.flatten
  { output := text ofOutput
    errors := text ofErrors
    ending := match result with
      | .error (.killed _) => .killed
      | _ => .exited (s.status % 256) }

end OperationHooks.Shell
