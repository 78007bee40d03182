import OperationHooks.Shell.Lexer

set_option autoImplicit false

namespace OperationHooks.Shell

/-- Tokens left, and the line of the last one taken. -/
structure Ahead where
  tokens : List (Token × Nat)
  line : Nat

abbrev Reader := StateT Ahead (Except SyntaxFault)

namespace Reader

/-- The next token; a fault of the text shows when it is reached. -/
def peek : Reader (Option Token) := do
  match (← get).tokens.head? with
  | some (.fault f, _) => throw f
  | some (t, _) => return some t
  | none => return none

def drop : Reader Unit :=
  modify fun s =>
    match s.tokens with
    | (_, line) :: rest => ⟨rest, line⟩
    | [] => s

def keywords : List String :=
  ["!", "case", "do", "done", "elif", "else", "esac", "fi", "for", "if", "in",
   "then", "until", "while",
   "\x7b", "\x7d"]

/-- How messages name a token; `asCommand` says that it could be a keyword. -/
def described (asCommand : Bool) : Option Token → String
  | none => "end of file"
  | some .newline => "newline"
  | some (.operator op) =>
    if op.startsWith "<" || op.startsWith ">" then "redirection" else s!"\"{op}\""
  | some (.channel _) | some (.here _) => "redirection"
  | some (.word w) =>
    match literal? w with
    | some cs =>
      if asCommand && keywords.contains (String.ofList cs) then
        s!"\"{String.ofList cs}\"" else "word"
    | none => "word"
  | some (.fault _) => ""

def lineHere : Reader Nat := do return ((← get).tokens.head?.map (·.2)).getD (← get).line

/-- The next token cannot stand here; `expected` could. -/
def unexpected {α : Type} (asCommand : Bool) (expected : Option String) : Reader α := do
  let t ← peek
  let line ← lineHere
  let found := s!"{described asCommand t} unexpected"
  throw ⟨line, match expected with
    | none => found
    | some s => s!"{found} (expecting \"{s}\")"⟩

def operator? (op : String) : Reader Bool := do
  match ← peek with
  | some (.operator s) => if s == op then drop; return true else return false
  | _ => return false

def isKeyword (s : String) : Reader Bool := do
  match ← peek with
  | some (.word w) => return literal? w == some s.toList
  | _ => return false

def keyword? (s : String) : Reader Bool := do
  if ← isKeyword s then drop; return true else return false

def keyword (s : String) : Reader Unit := do
  unless ← keyword? s do unexpected true (some s)

def skipNewlines : Nat → Reader Unit
  | 0 => return ()
  | fuel + 1 => do
    match ← peek with
    | some .newline =>
      drop
      skipNewlines fuel
    | _ => return ()

def newlines : Reader Unit := do skipNewlines ((← get).tokens.length + 1)

/-- A word in front of whose equals sign stands a name gives that name a value. -/
def assignment? (w : Word) : Option (Octets × Word) :=
  match w with
  | .text cs false :: rest =>
    let name := cs.takeWhile (· != '=')
    if name.length < cs.length && isName name then
      let value := cs.drop (name.length + 1)
      some (name, if value.isEmpty then rest else .text value false :: rest)
    else none
  | _ => none

def target : Reader Word := do
  match ← peek with
  | some (.word w) =>
    drop
    return w
  | _ => unexpected false none

def redirectionOf (channel : Option Nat) : Reader (Option Redirection) := do
  match ← peek with
  | some (.here body) =>
    drop
    return some (.here (channel.getD 0) body)
  | some (.operator op) =>
    match op with
    | "<" | "<>" =>
      drop
      return some (.file (channel.getD 0) .forReading (← target))
    | ">" | ">|" =>
      drop
      return some (.file (channel.getD 1) .forWriting (← target))
    | ">>" =>
      drop
      return some (.file (channel.getD 1) .forAppending (← target))
    | "<&" =>
      drop
      return some (.copy (channel.getD 0) (← target))
    | ">&" =>
      drop
      return some (.copy (channel.getD 1) (← target))
    | _ => return none
  | _ => return none

def redirection? : Reader (Option Redirection) := do
  match ← peek with
  | some (.channel n) =>
    drop
    match ← redirectionOf (some n) with
    | some r => return some r
    | none => unexpected false none
  | _ => redirectionOf none

def redirections : Nat → Reader (List Redirection)
  | 0 => return []
  | fuel + 1 => do
    match ← redirection? with
    | some r => return r :: (← redirections fuel)
    | none => return []

def withRedirections (line : Nat) (c : Command) : Reader Command := do
  match ← redirections ((← get).tokens.length + 1) with
  | [] => return c
  | rs => return .redirected line c rs

structure Simple where
  assignments : List (Octets × Word) := []
  words : List Word := []
  redirections : List Redirection := []

def simpleFrom (s : Simple) : Nat → Reader Simple
  | 0 => return s
  | fuel + 1 => do
    match ← redirection? with
    | some r => simpleFrom { s with redirections := s.redirections ++ [r] } fuel
    | none =>
      match ← peek with
      | some (.word w) =>
        drop
        match if s.words.isEmpty then assignment? w else none with
        | some a => simpleFrom { s with assignments := s.assignments ++ [a] } fuel
        | none => simpleFrom { s with words := s.words ++ [w] } fuel
      | _ => return s

def wordsFrom : Nat → Reader (List Word)
  | 0 => return []
  | fuel + 1 => do
    match ← peek with
    | some (.word w) =>
      drop
      return w :: (← wordsFrom fuel)
    | _ => return []

def patterns : Nat → Reader (List Word)
  | 0 => return []
  | fuel + 1 => do
    let first ← target
    if ← operator? "|" then return first :: (← patterns fuel) else return [first]

/-- What can follow a list of commands inside of another command. -/
def endsList : Reader Bool := do
  match ← peek with
  | none => return true
  | some (.operator op) => return op == ")" || op == ";;"
  | some (.word w) =>
    match literal? w with
    | some cs =>
      return ["then", "do", "done", "fi", "else", "elif", "esac", "\x7d"].contains
        (String.ofList cs)
    | none => return false
  | _ => return false

def noCommand : Command := .simple 0 [] [] []

def joined : Option Command → Command → Command
  | none, c => c
  | some before, c => .sequence before c

mutual

def list (before : Option Command) : Nat → Reader Command
  | 0 => unexpected true none
  | fuel + 1 => do
    newlines
    match before, ← peek with
    | some c, _ => if ← endsList then return c
    | none, none => return noCommand
    | none, some _ => pure ()
    let c ← andOr fuel
    if ← operator? "&" then list (some (joined before (.background c))) fuel
    else if ← operator? ";" then list (some (joined before c)) fuel
    else
      match ← peek with
      | some .newline => list (some (joined before c)) fuel
      | _ => return joined before c

def andOr : Nat → Reader Command
  | 0 => unexpected true none
  | fuel + 1 => do andOrFrom (← pipeline fuel) fuel

def andOrFrom (first : Command) : Nat → Reader Command
  | 0 => unexpected true none
  | fuel + 1 => do
    if ← operator? "&&" then
      newlines
      andOrFrom (.both first (← pipeline fuel)) fuel
    else if ← operator? "||" then
      newlines
      andOrFrom (.either first (← pipeline fuel)) fuel
    else return first

def pipeline : Nat → Reader Command
  | 0 => unexpected true none
  | fuel + 1 => do
    let negated ← keyword? "!"
    let commands ← piped fuel
    let c := match commands with
      | [c] => c
      | commands => Command.pipe commands
    return if negated then .negated c else c

def piped : Nat → Reader (List Command)
  | 0 => unexpected true none
  | fuel + 1 => do
    let c ← command fuel
    if ← operator? "|" then
      newlines
      return c :: (← piped fuel)
    else return [c]

def command : Nat → Reader Command
  | 0 => unexpected true none
  | fuel + 1 => do
    let line ← lineHere
    if ← keyword? "if" then
      let c ← choice fuel
      withRedirections line c
    else if ← keyword? "while" then loop line true fuel
    else if ← keyword? "until" then loop line false fuel
    else if ← keyword? "for" then forEach line fuel
    else if ← keyword? "case" then
      let subject ← target
      newlines
      keyword "in"
      withRedirections line (.cases line subject (← branches fuel))
    else if ← keyword? "\x7b" then
      let c ← list none fuel
      keyword "\x7d"
      withRedirections line c
    else if ← operator? "(" then
      let c ← list none fuel
      unless ← operator? ")" do unexpected true (some ")")
      withRedirections line (.subshell c)
    else simple fuel

def choice : Nat → Reader Command
  | 0 => unexpected true none
  | fuel + 1 => do
    let condition ← list none fuel
    keyword "then"
    let yes ← list none fuel
    if ← keyword? "elif" then return .choice condition yes (some (← choice fuel))
    if ← keyword? "else" then
      let no ← list none fuel
      keyword "fi"
      return .choice condition yes (some no)
    keyword "fi"
    return .choice condition yes none

def loop (line : Nat) (expected : Bool) : Nat → Reader Command
  | 0 => unexpected true none
  | fuel + 1 => do
    let condition ← list none fuel
    keyword "do"
    let body ← list none fuel
    keyword "done"
    withRedirections line (.loop expected condition body)

def forEach (line : Nat) : Nat → Reader Command
  | 0 => unexpected true none
  | fuel + 1 => do
    let name ← match ← peek with
      | some (.word w) =>
        match literal? w with
        | some cs => if isName cs then pure cs else throw ⟨(← get).line, "Bad for loop variable"⟩
        | none => throw ⟨(← get).line, "Bad for loop variable"⟩
      | _ => throw ⟨(← get).line, "Bad for loop variable"⟩
    drop
    newlines
    let words ←
      if ← keyword? "in" then do
        let words ← wordsFrom ((← get).tokens.length + 1)
        match ← peek with
        | some .newline | some (.operator ";") => drop
        | _ => unexpected false none
        pure (some words)
      else do
        discard (operator? ";")
        pure none
    newlines
    keyword "do"
    let body ← list none fuel
    keyword "done"
    withRedirections line (.forEach line name words body)

def branches : Nat → Reader (List (List Word × Option Command))
  | 0 => unexpected true none
  | fuel + 1 => do
    newlines
    if ← keyword? "esac" then return []
    discard (operator? "(")
    let found ← patterns ((← get).tokens.length + 1)
    unless ← operator? ")" do unexpected false (some ")")
    newlines
    let body ← if ← endsList then pure none else some <$> list none fuel
    if ← operator? ";;" then return (found, body) :: (← branches fuel)
    unless ← keyword? "esac" do unexpected true (some ";;")
    return [(found, body)]

def simple : Nat → Reader Command
  | 0 => unexpected true none
  | fuel + 1 => do
    if (← endsList) || (← isKeyword "!") || (← isKeyword "in") then unexpected true none
    let line ← lineHere
    let s ← simpleFrom {} ((← get).tokens.length + 1)
    if s.words.isEmpty && s.assignments.isEmpty && s.redirections.isEmpty then unexpected true none
    match s.words with
    | [w] =>
      if s.assignments.isEmpty && s.redirections.isEmpty then
        if ← operator? "(" then
          unless ← operator? ")" do unexpected false (some ")")
          match literal? w with
          | some name =>
            unless isName name do throw ⟨(← get).line, "Bad function name"⟩
            newlines
            return .function name (← command fuel)
          | none => throw ⟨(← get).line, "Bad function name"⟩
    | _ => pure ()
    return .simple line s.assignments s.words s.redirections

end

def lineFrom (before : Option Command) : Nat → Reader (Option Command)
  | 0 => return before
  | fuel + 1 => do
    match ← peek with
    | none => return before
    | some .newline =>
      drop
      return before
    | _ =>
      let c ← andOr (8 * (← get).tokens.length + 16)
      if ← operator? "&" then lineFrom (some (joined before (.background c))) fuel
      else if ← operator? ";" then lineFrom (some (joined before c)) fuel
      else
        match ← peek with
        | none | some .newline => lineFrom (some (joined before c)) fuel
        | _ => unexpected true none

end Reader

/-- The commands of a script line by line, and the fault that ends it. -/
def linesFrom : Nat → Ahead → List Command × Option SyntaxFault
  | 0, _ => ([], none)
  | fuel + 1, s =>
    if s.tokens.isEmpty then ([], none)
    else
      match (Reader.lineFrom none (s.tokens.length + 1)).run s with
      | .error fault => ([], some fault)
      | .ok (found, left) =>
        let (others, fault) := linesFrom fuel left
        (found.toList ++ others, fault)

def readScript (source : Octets) (line : Nat) : List Command × Option SyntaxFault :=
  let found := tokens source line
  linesFrom (found.length + 1) ⟨found, line⟩

end OperationHooks.Shell
