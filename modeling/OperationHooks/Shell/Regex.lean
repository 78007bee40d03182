import OperationHooks.Shell.Pattern
import OperationHooks.Number.Decimal

set_option autoImplicit false

namespace OperationHooks.Shell

inductive Regex where
  | empty
  | char (accepts : Char → Bool)
  | lineStart
  | lineEnd
  | group (index : Nat) (r : Regex)
  | back (index : Nat)
  | seq (first second : Regex)
  | either (first second : Regex)
  | repeated (least : Nat) (most : Option Nat) (r : Regex)

namespace Regex

abbrev Groups := List (Nat × Octets)

structure Place where
  before : Octets
  rest : Octets
  groups : Groups

def lowered (folds : Bool) (c : Char) : Char := if folds then c.toLower else c

def run (folds : Bool) : Nat → Regex → Place → (Place → Option Place) → Option Place
  | 0, _, _, _ => none
  | fuel + 1, r, p, next =>
    match r with
    | .empty => next p
    | .char accepts =>
      match p.rest with
      | c :: rest =>
        if accepts c || folds && (accepts c.toLower || accepts c.toUpper) then
          next ⟨c :: p.before, rest, p.groups⟩
        else none
      | [] => none
    | .lineStart => if p.before.isEmpty then next p else none
    | .lineEnd => if p.rest.isEmpty then next p else none
    | .group index r =>
      run folds fuel r p fun q =>
        let width := q.before.length - p.before.length
        next { q with groups := (index, p.rest.take width) :: q.groups.filter (·.1 != index) }
    | .back index =>
      let text := (p.groups.lookup index).getD []
      if text.isPrefixOf p.rest then
        next ⟨text.reverse ++ p.before, p.rest.drop text.length, p.groups⟩
      else none
    | .seq first second => run folds fuel first p fun q => run folds fuel second q next
    | .either first second =>
      match run folds fuel first p next with
      | some found => some found
      | none => run folds fuel second p next
    | .repeated least most r =>
      if most == some 0 then next p
      else
        let more := run folds fuel r p fun q =>
          if q.before.length = p.before.length && least = 0 then none
          else run folds fuel (.repeated (least - 1) (most.map (· - 1)) r) q next
        match more with
        | some found => some found
        | none => if least = 0 then next p else none

inductive Token where
  | char (c : Char)
  | any
  | set (accepts : Char → Bool)
  | groupStart
  | groupEnd
  | star
  | plus
  | option
  | braces (least : Nat) (most : Option Nat)
  | bar
  | back (n : Nat)
  | caret
  | dollar

def bounds (extended : Bool) (cs : Octets) : Option (Nat × Option Nat × Octets) :=
  let low := cs.takeWhile Decimal.isDigit
  let (high, rest) : Option (Option Nat) × Octets := match cs.drop low.length with
    | ',' :: more =>
      let high := more.takeWhile Decimal.isDigit
      (some (if high.isEmpty then none else some (Decimal.naturalD high)), more.drop high.length)
    | rest => (none, rest)
  let closed := match extended, rest with
    | false, '\\' :: '}' :: more => some more
    | true, '}' :: more => some more
    | _, _ => none
  let least := Decimal.naturalD low
  closed.map fun more => (least, high.getD (some least), more)

def sign? (extended : Bool) (c : Char) (rest : Octets) : Option (Token × Octets) :=
  match c with
  | '(' => some (.groupStart, rest)
  | ')' => some (.groupEnd, rest)
  | '|' => some (.bar, rest)
  | '+' => some (.plus, rest)
  | '?' => some (.option, rest)
  | '{' => (bounds extended rest).map fun (least, most, more) => (.braces least most, more)
  | _ => none

def classEscape? : Char → Option (Char → Bool)
  | 'w' => some fun c => c == '_' || c.isAlphanum
  | 'W' => some fun c => !(c == '_' || c.isAlphanum)
  | 's' => some fun c => c == ' ' || ('\t' ≤ c && c ≤ '\r')
  | 'S' => some fun c => !(c == ' ' || ('\t' ≤ c && c ≤ '\r'))
  | _ => none

def escaped (extended : Bool) (c : Char) (rest : Octets) : Token × Octets :=
  match if extended then none else sign? false c rest with
  | some found => found
  | none =>
    match classEscape? c with
    | some accepts => (.set accepts, rest)
    | none =>
      if '1' ≤ c && c ≤ '9' then (.back (c.toNat - 48), rest)
      else if c == 'n' then (.char '\n', rest)
      else if c == 't' then (.char '\t', rest)
      else (.char c, rest)

def tokens (extended : Bool) : Nat → Octets → Option (List Token)
  | 0, _ => none
  | fuel + 1, cs =>
    let also (t : Token) (rest : Octets) := (tokens extended fuel rest).map (t :: ·)
    match cs with
    | [] => some []
    | '\\' :: c :: rest =>
      let (t, left) := escaped extended c rest
      also t left
    | ['\\'] => none
    | '.' :: rest => also .any rest
    | '*' :: rest => also .star rest
    | '^' :: rest => also .caret rest
    | '$' :: rest => also .dollar rest
    | '[' :: rest =>
      match readSet ['^'] rest with
      | some (accepts, left) => also (.set accepts) left
      | none => none
    | c :: rest =>
      match if extended then sign? true c rest else none with
      | some (t, left) => also t left
      | none => also (.char c) rest

/-- Tokens left and the number of groups opened. -/
structure Ahead where
  tokens : List Token
  groups : Nat

abbrev Reader := StateT Ahead Option

def quoted (c : Char) : Regex := .char (· == c)

def atEnd : List Token → Bool
  | [] => true
  | .groupEnd :: _ => true
  | .bar :: _ => true
  | _ => false

mutual

def alternatives (extended : Bool) : Nat → Reader Regex
  | 0 => failure
  | fuel + 1 => do
    let first ← sequence extended true fuel
    match (← get).tokens with
    | .bar :: rest =>
      modify ({ · with tokens := rest })
      return .either first (← alternatives extended fuel)
    | _ => return first

/-- Items up to the end of an alternative. At the start of a basic one a star stands for itself, and
anchors count only at the ends. -/
def sequence (extended first : Bool) : Nat → Reader Regex
  | 0 => failure
  | fuel + 1 => do
    if atEnd (← get).tokens then return .empty
    let item ← atom extended first fuel
    let item ← repetitions extended item fuel
    return .seq item (← sequence extended (item matches .lineStart && !extended) fuel)

def atom (extended first : Bool) : Nat → Reader Regex
  | 0 => failure
  | fuel + 1 => do
    match (← get).tokens with
    | [] => failure
    | t :: rest =>
      modify ({ · with tokens := rest })
      match t with
      | .char c => return quoted c
      | .any => return .char (fun _ => true)
      | .set accepts => return .char accepts
      | .back n => return .back n
      | .caret => return if extended || first then .lineStart else quoted '^'
      | .dollar => return if extended || atEnd rest then .lineEnd else quoted '$'
      | .groupStart =>
        let index := (← get).groups + 1
        modify ({ · with groups := index })
        let r ← alternatives extended fuel
        match (← get).tokens with
        | .groupEnd :: rest =>
          modify ({ · with tokens := rest })
          return .group index r
        | _ => failure
      | .star => if first then return quoted '*' else failure
      | .plus => if first && !extended then return quoted '+' else failure
      | .option => if first && !extended then return quoted '?' else failure
      | .groupEnd | .bar | .braces _ _ => failure

def repetitions (extended : Bool) (r : Regex) : Nat → Reader Regex
  | 0 => failure
  | fuel + 1 => do
    let again (least : Nat) (most : Option Nat) (rest : List Token) : Reader Regex := do
      modify ({ · with tokens := rest })
      repetitions extended (.repeated least most r) fuel
    match r, (← get).tokens with
    | .lineStart, .star :: _ => return r
    | _, .star :: rest => again 0 none rest
    | _, .plus :: rest => again 1 none rest
    | _, .option :: rest => again 0 (some 1) rest
    | _, .braces least most :: rest => again least most rest
    | _, _ => return r

end

/-- Reads an expression; `none` if the text is not one. -/
def parse? (extended : Bool) (cs : Octets) : Option Regex := do
  let found ← tokens extended (cs.length + 1) cs
  let (r, left) ← (alternatives extended (4 * found.length + 4)).run ⟨found, 0⟩
  if left.tokens.isEmpty then some r else none

/-- A match: what stands before it, last character first, the match, its groups and what follows. -/
structure Match where
  before : Octets
  text : Octets
  groups : Groups
  rest : Octets

def fuelFor (line : Octets) : Nat := 64 * line.length + 1024

def here? (folds : Bool) (r : Regex) (before rest : Octets) : Option Match :=
  (run folds (fuelFor rest) r ⟨before, rest, []⟩ some).map fun q =>
    ⟨before, rest.take (q.before.length - before.length), q.groups, q.rest⟩

/-- The first match at a place or behind it; `before` holds what was passed, last character first.
-/
def find? (folds : Bool) (r : Regex) (before : Octets) : Octets → Option Match
  | [] => here? folds r before []
  | c :: rest => here? folds r before (c :: rest) <|> find? folds r (c :: before) rest

def isMatch (folds : Bool) (r : Regex) (line : Octets) : Bool := (find? folds r [] line).isSome

end Regex

end OperationHooks.Shell
