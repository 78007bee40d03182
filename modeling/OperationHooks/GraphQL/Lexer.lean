import OperationHooks.GraphQL.Token
/-!
From a source to its tokens. Each reader looks at the text from the first character of a token and
says what the token is and how many characters it takes; faults are placed by their distance from
that character.
-/
set_option autoImplicit false

namespace OperationHooks.GraphQL

abbrev Reading := Except (Nat × SyntaxCause) (Lexeme × Nat)

def readDigits (offset : Nat) (cs : List Char) : Except (Nat × SyntaxCause) (List Char) :=
  match cs.takeWhile isDigit with
  | [] => .error (offset, .digitExpected cs.head?)
  | digits => .ok digits

def readSign (signs : List Char) : List Char → List Char
  | [] => []
  | c :: _ => if signs.contains c then [c] else []

def readWhole (offset : Nat) (cs : List Char) : Except (Nat × SyntaxCause) (List Char) :=
  match cs with
  | '0' :: c :: _ => if isDigit c then .error (offset + 1, .digitAfterZero c) else .ok ['0']
  | '0' :: [] => .ok ['0']
  | _ => readDigits offset cs

def readFraction (offset : Nat) : List Char → Except (Nat × SyntaxCause) (List Char)
  | '.' :: rest => (readDigits (offset + 1) rest).map ('.' :: ·)
  | _ => .ok []

def readExponent (offset : Nat) : List Char → Except (Nat × SyntaxCause) (List Char)
  | [] => .ok []
  | e :: rest =>
    if e = 'e' || e = 'E' then
      let sign := readSign ['+', '-'] rest
      (readDigits (offset + 1 + sign.length) (rest.drop sign.length)).map (e :: sign ++ ·)
    else .ok []

def readNumber (cs : List Char) : Reading := do
  let sign := readSign ['-'] cs
  let whole ← readWhole sign.length (cs.drop sign.length)
  let upToWhole := sign ++ whole
  let fraction ← readFraction upToWhole.length (cs.drop upToWhole.length)
  let upToFraction := upToWhole ++ fraction
  let exponent ← readExponent upToFraction.length (cs.drop upToFraction.length)
  let all := upToFraction ++ exponent
  match cs.drop all.length with
  | c :: _ =>
    if c = '.' || isNameStart c then throw (all.length, .digitExpected (some c))
  | [] => pure ()
  if fraction.isEmpty && exponent.isEmpty then return (.int all, all.length)
  else return (.float all, all.length)

def readDots : List Char → Reading
  | '.' :: '.' :: _ => .ok (.punctuator .spread, 3)
  | '.' :: _ => .error (0, .twoDots)
  | rest =>
    match rest.takeWhile isDigit with
    | [] => .error (0, .unexpectedCharacter '.')
    | digits => .error (0, .missingWholePart digits)

def hexValue? (c : Char) : Option Nat :=
  if isDigit c then some (c.toNat - 48)
  else if 'a' ≤ c && c ≤ 'f' then some (c.toNat - 87)
  else if 'A' ≤ c && c ≤ 'F' then some (c.toNat - 55)
  else none

def fourDigits? : List Char → Option Nat
  | a :: b :: c :: d :: _ => do
    return (((← hexValue? a) * 16 + (← hexValue? b)) * 16 + (← hexValue? c)) * 16 + (← hexValue? d)
  | _ => none

def isScalar (n : Nat) : Bool := n < 0xD800 || (0xE000 ≤ n && n ≤ 0x10FFFF)

/-- After a backslash and `u`: four digits, or two such escapes that form a surrogate pair. -/
def readFixedEscape (cs : List Char) : Option (Char × Nat) := do
  let high ← fourDigits? (cs.drop 2)
  if isScalar high then return (Char.ofNat high, 6)
  if high < 0xDC00 && (cs.drop 6).take 2 == ['\\', 'u'] then
    let low ← fourDigits? (cs.drop 8)
    if 0xDC00 ≤ low && low < 0xE000 then
      return (Char.ofNat (0x10000 + (high - 0xD800) * 0x400 + (low - 0xDC00)), 12)
  none

def readBracedEscape (size point : Nat) : List Char → Except Nat (Char × Nat)
  | [] => .error size
  | c :: rest =>
    if size ≥ 12 then .error size
    else if c = '}' then
      if size + 1 < 5 || !isScalar point then .error (size + 1)
      else .ok (Char.ofNat point, size + 1)
    else match hexValue? c with
      | none => .error (size + 1)
      | some digit => readBracedEscape (size + 1) (point * 16 + digit) rest

def simpleEscape? : Char → Option Char
  | '"' => some '"' | '\\' => some '\\' | '/' => some '/' | 'b' => some '\x08'
  | 'f' => some '\x0c' | 'n' => some '\n' | 'r' => some '\r' | 't' => some '\t'
  | _ => none

def readEscape (cs : List Char) : Except SyntaxCause (Char × Nat) :=
  match cs with
  | _ :: 'u' :: '{' :: rest =>
    match readBracedEscape 3 0 rest with
    | .ok escape => .ok escape
    | .error size => .error (.badUnicodeEscape (cs.take size))
  | _ :: 'u' :: _ =>
    match readFixedEscape cs with
    | some escape => .ok escape
    | none => .error (.badUnicodeEscape (cs.take 6))
  | _ :: c :: _ =>
    match simpleEscape? c with
    | some value => .ok (value, 2)
    | none => .error (.badEscape [cs.headD '\\', c])
  | _ => .error (.badEscape cs)

/-- The rest of a string from `offset` on; `skip` characters belong to an escape read before. -/
def readStringFrom (offset skip : Nat) : List Char → Except (Nat × SyntaxCause) (List Char × Nat)
  | [] => .error (offset, .unterminatedString)
  | c :: rest =>
    match skip with
    | skip + 1 => readStringFrom (offset + 1) skip rest
    | 0 =>
      if c = '"' then .ok ([], offset + 1)
      else if c = '\n' || c = '\r' then .error (offset, .unterminatedString)
      else if c = '\\' then
        match readEscape (c :: rest) with
        | .error cause => .error (offset, cause)
        | .ok (value, width) =>
          (readStringFrom (offset + 1) (width - 1) rest).map fun (more, total) =>
            (value :: more, total)
      else (readStringFrom (offset + 1) 0 rest).map fun (more, total) => (c :: more, total)

def isIndent (c : Char) : Bool := c == ' ' || c == '\t'

def isBlankLine (line : List Char) : Bool := line.all isIndent

def commonIndent (lines : List (List Char)) : Nat :=
  match (lines.filter (!isBlankLine ·)).map fun line => (line.takeWhile isIndent).length with
  | [] => 0
  | first :: more => more.foldl min first

def dropBlankEnds (lines : List (List Char)) : List (List Char) :=
  ((lines.dropWhile isBlankLine).reverse.dropWhile isBlankLine).reverse

/-- Removes the common indentation of all lines but the first, and blank lines at both ends. -/
def dedent : List (List Char) → List (List Char)
  | [] => []
  | first :: more =>
    let indent := commonIndent more
    dropBlankEnds (first :: more.map (·.drop indent))

def readBlockFrom (offset skip : Nat) : List Char → Except (Nat × SyntaxCause) (List Char × Nat)
  | [] => .error (offset, .unterminatedString)
  | c :: rest =>
    match skip with
    | skip + 1 => readBlockFrom (offset + 1) skip rest
    | 0 =>
      match c, rest with
      | '"', '"' :: '"' :: _ => .ok ([], offset + 3)
      | '\\', '"' :: '"' :: '"' :: _ =>
        (readBlockFrom (offset + 1) 3 rest).map fun (more, total) =>
          ('"' :: '"' :: '"' :: more, total)
      | '\r', '\n' :: _ => (readBlockFrom (offset + 1) 1 rest).map fun (more, total) =>
        ('\n' :: more, total)
      | '\r', _ => (readBlockFrom (offset + 1) 0 rest).map fun (more, total) =>
        ('\n' :: more, total)
      | c, _ => (readBlockFrom (offset + 1) 0 rest).map fun (more, total) => (c :: more, total)

def joinLines : List (List Char) → List Char
  | [] => []
  | [line] => line
  | line :: more => line ++ '\n' :: joinLines more

def readString : List Char → Reading
  | '"' :: '"' :: '"' :: rest =>
    (readBlockFrom 3 0 rest).map fun (raw, width) =>
      (.block (joinLines (dedent (sourceLines raw))), width)
  | cs => (readStringFrom 1 0 (cs.drop 1)).map fun (value, width) => (.string value, width)

/-- The token that starts with `c` and goes on in `rest`. -/
def readLexeme (c : Char) (rest : List Char) : Reading :=
  if h : isNameStart c = true then
    let name := leadingName c h rest
    .ok (.name name, name.chars.length)
  else if isDigit c || c = '-' then readNumber (c :: rest)
  else if c = '"' then readString (c :: rest)
  else if c = '.' then readDots rest
  else match Punctuator.ofChar? c with
    | some p => .ok (.punctuator p, 1)
    | none => .error (0, if c = '\'' then .singleQuote else .unexpectedCharacter c)

def isIgnored (c : Char) : Bool :=
  c == ' ' || c == '\t' || c == ',' || c == '\n' || c == '\r' || c == '\uFEFF'

def isCommentPart (c : Char) : Bool := c != '\n' && c != '\r'

/-- Tokens from `position` on; `skip` characters belong to the token or comment before. -/
def tokensFrom (position skip : Nat) : List Char → Tokens
  | [] => .ends position
  | c :: rest =>
    match skip with
    | skip + 1 => tokensFrom (position + 1) skip rest
    | 0 =>
      if isIgnored c then tokensFrom (position + 1) 0 rest
      else if c = '#' then tokensFrom (position + 1) (rest.takeWhile isCommentPart).length rest
      else match readLexeme c rest with
        | .ok (lexeme, width) => .next position lexeme (tokensFrom (position + 1) (width - 1) rest)
        | .error (offset, cause) => .fails ⟨position + offset, cause⟩

def tokens (source : List Char) : Tokens := tokensFrom 0 0 source

end OperationHooks.GraphQL
