import OperationHooks.Shell.Syntax
import OperationHooks.Number.Decimal

set_option autoImplicit false

namespace OperationHooks.Shell

inductive Token where
  | word (w : Word)
  | operator (s : String)
  | channel (n : Nat)
  | newline
  | here (body : Word)
  | fault (f : SyntaxFault)

structure Source where
  rest : List Char
  line : Nat

abbrev Scan := StateT Source (Except SyntaxFault)

namespace Scan

def peek : Scan (Option Char) := return (← get).rest.head?

def ahead (s : String) : Scan Bool := return s.toList.isPrefixOf (← get).rest

def skip (n : Nat) : Scan Unit :=
  modify fun s => ⟨s.rest.drop n, s.line + (s.rest.take n).count '\n'⟩

def fail {α : Type} (message : String) : Scan α := do throw ⟨(← get).line, message⟩

/-- Characters as long as they satisfy `p`. -/
def takeWhile (p : Char → Bool) : Scan (List Char) := do
  let run := (← get).rest.takeWhile p
  skip run.length
  return run

end Scan

open Scan

def isNameStart (c : Char) : Bool := c == '_' || c.isAlpha
def isNamePart (c : Char) : Bool := c == '_' || c.isAlphanum

def isName : Octets → Bool
  | [] => false
  | c :: rest => isNameStart c && rest.all isNamePart

def isSpecial (c : Char) : Bool := ['@', '*', '#', '?', '-', '$', '!'].contains c

def isMeta (c : Char) : Bool := [' ', '\t', '\n', ';', '&', '|', '<', '>', '(', ')'].contains c

/-- Where a word is read: on its own, in double quotes, in the braces of a parameter, in an
arithmetic expression with some brackets open, or in lines given as input. -/
inductive Setting where
  | bare
  | double
  | brace (quoted : Bool)
  | sum (brackets : Nat)
  | lines
  deriving DecidableEq

def Setting.quotes : Setting → Bool
  | bare => false
  | brace quoted => quoted
  | _ => true

def Setting.escapable : Setting → Char → Bool
  | bare, _ | brace false, _ => true
  | double, c => ['$', '\x60', '"', '\\', '\n'].contains c
  | brace true, c => ['$', '\x60', '"', '\\', '\n', '}'].contains c
  | sum _, c => ['$', '\x60', '\\', '\n'].contains c
  | lines, c => ['$', '\x60', '\\', '\n'].contains c

def commandFrom (depth : Nat) (quote : Option Char) : List Char → Option (List Char)
  | [] => none
  | '\\' :: c :: rest =>
    if quote == some '\'' then (commandFrom depth (if c == '\'' then none else quote) rest).map
      fun more => '\\' :: c :: more
    else (commandFrom depth quote rest).map fun more => '\\' :: c :: more
  | c :: rest =>
    match quote with
    | some q => (commandFrom depth (if c == q then none else quote) rest).map (c :: ·)
    | none =>
      if c == '\'' || c == '"' then (commandFrom depth (some c) rest).map (c :: ·)
      else if c == '(' then (commandFrom (depth + 1) none rest).map (c :: ·)
      else if c == ')' then
        if depth = 0 then some [] else (commandFrom (depth - 1) none rest).map (c :: ·)
      else (commandFrom depth none rest).map (c :: ·)

def backquoted (quoted : Bool) : List Char → Option (List Char × Nat)
  | [] => none
  | '\\' :: c :: rest =>
    (backquoted quoted rest).map fun (more, width) =>
      if ['$', '\x60', '\\'].contains c || (quoted && c == '"') then (c :: more, width + 2)
      else ('\\' :: c :: more, width + 2)
  | '\x60' :: _ => some ([], 0)
  | c :: rest => (backquoted quoted rest).map fun (more, width) => (c :: more, width + 1)

def alternative? : Char → Option Alternative
  | '-' => some .standard
  | '=' => some .assigned
  | '?' => some .failure
  | '+' => some .other
  | _ => none

def parameterName : Scan (List Char) := do
  match ← peek with
  | some c =>
    if isNameStart c then takeWhile isNamePart
    else if Decimal.isDigit c then takeWhile Decimal.isDigit
    else if isSpecial c then
      skip 1
      return [c]
    else return []
  | none => return []

def joinText : Word → Word
  | .text [] q :: rest => .text [] q :: joinText rest
  | .text cs q :: rest =>
    match joinText rest with
    | .text (d :: ds) q' :: more => if q == q' then .text (cs ++ d :: ds) q :: more
        else .text cs q :: .text (d :: ds) q' :: more
    | more => .text cs q :: more
  | part :: rest => part :: joinText rest
  | [] => []

mutual

def parts (setting : Setting) : Nat → Scan Word
  | 0 => fail "Unterminated quoted string"
  | fuel + 1 => do
    match ← peek with
    | none =>
      match setting with
      | .bare | .lines => return []
      | .double => fail "Unterminated quoted string"
      | .brace _ => fail "Missing '\x7d'"
      | .sum _ => fail "Missing '))'"
    | some c =>
      if setting = .bare && isMeta c then return []
      if setting = .double && c == '"' then
        skip 1
        return []
      if setting matches .brace _ && c == '}' then
        skip 1
        return []
      if setting = .sum 0 then
        if ← ahead "))" then
          skip 2
          return []
      let part ← onePart setting c fuel
      let next := match setting with
        | .sum n => Setting.sum (if c == '(' then n + 1 else if c == ')' then n - 1 else n)
        | setting => setting
      return part ++ (← parts next fuel)

/-- What starts with a character that does not end the word. -/
def onePart (setting : Setting) (c : Char) : Nat → Scan Word
  | 0 => fail "Unterminated quoted string"
  | fuel + 1 => do
    let quoted := setting.quotes
    skip 1
    if c == '\\' then
      match ← peek with
      | none => return [.text [c] true]
      | some d =>
        if setting.escapable d then
          skip 1
          return if d == '\n' then [] else [.text [d] true]
        else return [.text [c] quoted]
    if c == '$' then dollar quoted fuel
    else if c == '\x60' then
      let line := (← get).line
      match backquoted quoted (← get).rest with
      | some (source, width) =>
        skip (width + 1)
        return [.command source line quoted]
      | none =>
        skip (← get).rest.length
        fail "EOF in backquote substitution"
    else if c == '\'' && !quoted then
      let text ← takeWhile (· != '\'')
      if (← peek).isNone then fail "Unterminated quoted string"
      skip 1
      return [.text text true]
    else if c == '"' && setting != .lines && (!quoted || setting matches .brace _) then
      return .text [] true :: (← parts .double fuel)
    else return [.text [c] quoted]

def dollar (quoted : Bool) : Nat → Scan Word
  | 0 => fail "Bad substitution"
  | fuel + 1 => do
    if ← ahead "((" then
      skip 2
      return [.arithmetic (joinText (← parts (.sum 0) fuel)) quoted]
    if ← ahead "(" then
      skip 1
      let line := (← get).line
      match commandFrom 0 none (← get).rest with
      | some source =>
        skip (source.length + 1)
        return [.command source line quoted]
      | none =>
        skip (← get).rest.length
        fail "end of file unexpected (expecting \")\")"
    if ← ahead "\x7b" then
      skip 1
      return [← braced quoted fuel]
    match ← peek with
    | some c =>
      if isNameStart c then return [.parameter (← takeWhile isNamePart) .value quoted]
      if Decimal.isDigit c || isSpecial c then
        skip 1
        return [.parameter [c] .value quoted]
      return [.text ['$'] quoted]
    | none => return [.text ['$'] quoted]

def braced (quoted : Bool) : Nat → Scan Part
  | 0 => fail "Bad substitution"
  | fuel + 1 => do
    let counts := (← ahead "#") && !(← ahead "#\x7d") && !(← ahead "##") && !(← ahead "#%") &&
      !(← ahead "#:") && !(← ahead "#-") && !(← ahead "#?") && !(← ahead "#+") && !(← ahead "#=")
    if counts then
      skip 1
      let name ← parameterName
      if ← ahead "\x7d" then
        skip 1
        return .parameter name .length quoted
      discard (parts (.brace quoted) fuel)
      return .parameter name .malformed quoted
    let name ← parameterName
    let rest := (← get).rest
    match name, rest with
    | [], _ =>
      discard (parts (.brace quoted) fuel)
      return .parameter [] .malformed quoted
    | _, '}' :: _ =>
      skip 1
      return .parameter name .value quoted
    | _, ':' :: op :: _ =>
      skip 2
      let word := joinText (← parts (.brace quoted) fuel)
      match alternative? op with
      | some kind => return .parameter name (.instead kind true word) quoted
      | none => return .parameter name .malformed quoted
    | _, op :: _ =>
      match alternative? op with
      | some kind =>
        skip 1
        return .parameter name
          (.instead kind false (joinText (← parts (.brace quoted) fuel))) quoted
      | none =>
        if op == '#' || op == '%' then
          let longest ← ahead (String.ofList [op, op])
          skip (if longest then 2 else 1)
          let pattern := joinText (← parts (.brace false) fuel)
          return .parameter name (.trimmed (op == '#') longest pattern) quoted
        else
          discard (parts (.brace quoted) fuel)
          return .parameter name .malformed quoted
    | _, [] => fail "Missing '\x7d'"

end

def operators : List String :=
  ["<<-", "<<", ">>", "<&", ">&", "<>", ">|", "&&", "||", ";;", ";", "&", "|", "<", ">", "(", ")"]

/-- Lines given as input that still have to be read: the line that ends them, whether it was quoted,
and whether tabs at the front of lines are dropped. -/
structure Pending where
  stop : Octets
  quoted : Bool
  trims : Bool

def plainText (w : Word) : Octets × Bool :=
  (w.flatMap fun
    | .text cs _ => cs
    | .parameter name _ _ => '$' :: name
    | _ => [],
   w.any fun
    | .text _ quoted => quoted
    | _ => false)

/-- Lines up to one that is exactly `stop`. -/
def linesUpTo (p : Pending) : Nat → Scan Octets
  | 0 => return []
  | fuel + 1 => do
    if (← peek).isNone then return []
    if p.trims then discard (takeWhile (· == '\t'))
    let line ← takeWhile (· != '\n')
    let ended := (← peek).isNone
    skip 1
    if line == p.stop then return []
    else return line ++ (if ended then [] else ['\n']) ++ (← linesUpTo p fuel)

def bodyOf (p : Pending) : Scan Word := do
  let line := (← get).line
  let text ← linesUpTo p ((← get).rest.length + 1)
  if p.quoted then return [.text text true]
  else
    match (parts .lines (2 * text.length + 4)).run ⟨text, line⟩ with
    | .ok (w, _) => return joinText w
    | .error fault => throw fault

def bodiesOf : List Pending → Scan (List Word)
  | [] => return []
  | p :: rest => do return (← bodyOf p) :: (← bodiesOf rest)

def channel? (w : Word) (next : Option Char) : Option Nat :=
  match literal? w, next with
  | some [d], some c => if (c == '<' || c == '>') && Decimal.isDigit d then
    some (d.toNat - 48) else none
  | _, _ => none

def token : Scan (Option Token) := do
  match ← peek with
  | none => return none
  | some c =>
    if c == ' ' || c == '\t' then
      skip 1
      return none
    if c == '#' then
      discard (takeWhile (· != '\n'))
      return none
    if ← ahead "\\\n" then
      skip 2
      return none
    if c == '\n' then
      skip 1
      return some .newline
    let rest := (← get).rest
    match operators.find? fun op => op.toList.isPrefixOf rest with
    | some op =>
      skip op.length
      return some (.operator op)
    | none =>
      let w := joinText (← parts .bare (2 * rest.length + 4))
      match channel? w (← peek) with
      | some n => return some (.channel n)
      | none => return some (.word w)

/-- The tokens of a script, each with the line it ends in, and the lines given as input in their
order. `opened` is the kind of such input that waits for its last line to be named. -/
def tokensFrom : Nat → Option Bool → List Pending → Source → List (Token × Nat) × List Word
  | 0, _, _, _ => ([], [])
  | fuel + 1, opened, pending, source =>
    if source.rest.isEmpty then ([], [])
    else
      match token.run source with
      | .error fault => ([(.fault fault, fault.line)], [])
      | .ok (none, left) => tokensFrom fuel opened pending left
      | .ok (some .newline, left) =>
        match (bodiesOf pending).run left with
        | .error fault => ([(.fault fault, fault.line)], [])
        | .ok (bodies, behind) =>
          let (tokens, others) := tokensFrom fuel none [] behind
          ((.newline, left.line) :: tokens, bodies ++ others)
      | .ok (some t, left) =>
        let opened' := match t with
          | .operator "<<" => some false
          | .operator "<<-" => some true
          | _ => none
        let pending' := match t, opened with
          | .word w, some trims =>
            let (stop, quoted) := plainText w
            pending ++ [⟨stop, quoted, trims⟩]
          | _, _ => pending
        let (tokens, bodies) := tokensFrom fuel opened' pending' left
        ((t, left.line) :: tokens, bodies)

/-- Input lines put where they are asked for. -/
def placed : List Word → List (Token × Nat) → List (Token × Nat)
  | bodies, (.operator op, line) :: (.word w, line') :: rest =>
    if op == "<<" || op == "<<-" then
      (.here (bodies.headD []), line') :: placed (bodies.drop 1) rest
    else (.operator op, line) :: (.word w, line') :: placed bodies rest
  | bodies, t :: rest => t :: placed bodies rest
  | _, [] => []

def tokens (source : Octets) (line : Nat) : List (Token × Nat) :=
  let (found, bodies) := tokensFrom (source.length + 1) none [] ⟨source, line⟩
  placed bodies found

end OperationHooks.Shell
