import OperationHooks.Shell.Syntax

set_option autoImplicit false

namespace OperationHooks.Shell

/-- A character of an expanded word, and whether it was quoted. -/
structure Symbol where
  char : Char
  quoted : Bool
  deriving DecidableEq

def symbols (quoted : Bool) (cs : Octets) : List Symbol := cs.map (⟨·, quoted⟩)

def characters (s : List Symbol) : Octets := s.map (·.char)

def isInClass (name : String) (c : Char) : Bool :=
  match name with
  | "alpha" => c.isAlpha
  | "digit" => c.isDigit
  | "alnum" => c.isAlphanum
  | "upper" => c.isUpper
  | "lower" => c.isLower
  | "space" => c == ' ' || ('\t' ≤ c && c ≤ '\r')
  | "blank" => c == ' ' || c == '\t'
  | "punct" => '!' ≤ c && c ≤ '~' && !c.isAlphanum
  | "print" => ' ' ≤ c && c ≤ '~'
  | "graph" => '!' ≤ c && c ≤ '~'
  | "cntrl" => c < ' ' || c == '\x7f'
  | "xdigit" => c.isDigit || ('a' ≤ c && c ≤ 'f') || ('A' ≤ c && c ≤ 'F')
  | _ => false

def className? (cs : Octets) : Option (String × Octets) :=
  let name := cs.takeWhile Char.isLower
  match cs.drop name.length with
  | ':' :: ']' :: rest => if name.isEmpty then none else some (String.ofList name, rest)
  | _ => none

inductive SetItem where
  | one (c : Char)
  | range (low high : Char)
  | named (name : String)

def SetItem.has (c : Char) : SetItem → Bool
  | one d => c == d
  | range low high => low ≤ c && c ≤ high
  | named name => isInClass name c

def setItems (first : Bool) : Nat → Octets → Option (List SetItem × Octets)
  | 0, _ => none
  | fuel + 1, cs =>
    let also (item : SetItem) (rest : Octets) : Option (List SetItem × Octets) :=
      (setItems false fuel rest).map fun (items, left) => (item :: items, left)
    match cs with
    | [] => none
    | ']' :: rest => if first then also (.one ']') rest else some ([], rest)
    | '[' :: ':' :: rest =>
      match className? rest with
      | some (name, left) => also (.named name) left
      | none => also (.one '[') (':' :: rest)
    | low :: '-' :: high :: rest =>
      if high == ']' then also (.one low) ('-' :: high :: rest) else also (.range low high) rest
    | c :: rest => also (.one c) rest

/-- A set behind its opening bracket: whether a character is in it, and what follows. `marks` are
the signs that turn it around. -/
def readSet (marks : List Char) (cs : Octets) : Option ((Char → Bool) × Octets) :=
  let negated := (cs.head?.map marks.contains).getD false
  (setItems true (cs.length + 1) (if negated then cs.drop 1 else cs)).map fun (items, rest) =>
    (fun c => items.any (·.has c) != negated, rest)

def isMatch : Nat → List Symbol → Octets → Bool
  | 0, _, _ => false
  | fuel + 1, pattern, text =>
    match pattern with
    | [] => text.isEmpty
    | p :: rest =>
      if p.quoted then
        match text with
        | c :: more => c == p.char && isMatch fuel rest more
        | [] => false
      else if p.char == '*' then
        isMatch fuel rest text ||
          match text with
          | _ :: more => isMatch fuel pattern more
          | [] => false
      else if p.char == '\\' then
        match rest, text with
        | q :: others, c :: more => c == q.char && isMatch fuel others more
        | _, _ => false
      else
        match text with
        | [] => false
        | c :: more =>
          if p.char == '?' then isMatch fuel rest more
          else
            match if p.char == '[' then readSet ['!', '^'] (characters rest) else none with
            | some (accepts, left) =>
              accepts c && isMatch fuel (rest.drop (rest.length - left.length)) more
            | none => c == p.char && isMatch fuel rest more

def fits (pattern : List Symbol) (text : Octets) : Bool :=
  isMatch (pattern.length + text.length + 1) pattern text

/-- The text without what matches at one end; of several such parts the shortest or the longest. -/
def trimmedBy (atFront longest : Bool) (pattern : List Symbol) (text : Octets) : Octets :=
  let lengths := List.range (text.length + 1)
  let candidates := if longest then lengths.reverse else lengths
  let found? := candidates.find? fun n =>
    isMatch (pattern.length + n + 1) pattern
      (if atFront then text.take n else text.drop (text.length - n))
  match found? with
  | some n => if atFront then text.drop n else text.take (text.length - n)
  | none => text

/-- A piece of an expanded word: a character, one that may end a field, a sign that there is a field
even if it is empty, or the end of a field. -/
inductive Piece where
  | symbol (s : Symbol)
  | splitting (c : Char)
  | present
  | cut

structure FieldState where
  done : List (List Symbol)
  field : Option (List Symbol)
  afterBlank : Bool

def FieldState.close (s : FieldState) (afterBlank : Bool) : FieldState :=
  match s.field with
  | some field => ⟨field.reverse :: s.done, none, afterBlank⟩
  | none => s

def FieldState.step (separators : Octets) (s : FieldState) : Piece → FieldState
  | .symbol c => { s with field := some (c :: s.field.getD []), afterBlank := false }
  | .present => { s with field := some (s.field.getD []), afterBlank := false }
  | .cut => s.close false
  | .splitting c =>
    if !(separators.contains c) then
      { s with field := some (⟨c, false⟩ :: s.field.getD []), afterBlank := false }
    else if c == ' ' || c == '\t' || c == '\n' then s.close true
    else if s.field.isSome then s.close false
    else if s.afterBlank then { s with afterBlank := false }
    else { s with done := [] :: s.done }

def fields (separators : Octets) (pieces : List Piece) : List (List Symbol) :=
  ((pieces.foldl (FieldState.step separators) ⟨[], none, false⟩).close false).done.reverse

def joinedPieces (pieces : List Piece) : List Symbol :=
  pieces.filterMap fun
    | .symbol s => some s
    | .splitting c => some ⟨c, false⟩
    | .present => none
    | .cut => some ⟨' ', true⟩

end OperationHooks.Shell
