import OperationHooks.Template.Syntax
import OperationHooks.Number.Decimal
import OperationHooks.Text.Blank
import OperationHooks.Text.CharName
import OperationHooks.Text.IdentifierTable
import OperationHooks.Text.Quoted
/-!
From the text of a template to its pieces: plain text, and the tokens of each print or statement
tag, each with its line. A dash inside a tag's brackets removes the white space on that side.
-/
set_option autoImplicit false

namespace OperationHooks.Template

inductive Token where
  | name (s : String)
  | integer (n : Nat)
  | real (x : Binary64)
  | text (s : Text.Wide)
  | operator (s : String)
  deriving DecidableEq

abbrev Tokens := List (Token × Nat)

inductive Piece where
  | text (cs : List Char)
  | print (tokens : Tokens)
  | statement (tokens : Tokens)

def longOperators : List String := ["//", "**", "==", "!=", ">=", "<="]

def shortOperators : List Char := "+-/*%~[]()\x7b\x7d><=.:|,;".toList

def digitRunOf (isDigit : Char → Bool) : List Char → List Char
  | [] => []
  | c :: '_' :: d :: rest =>
    if isDigit c then
      if isDigit d then c :: '_' :: digitRunOf isDigit (d :: rest) else [c]
    else []
  | c :: rest => if isDigit c then c :: digitRunOf isDigit rest else []

def digitRun (cs : List Char) : List Char := digitRunOf Decimal.isDigit cs

/-- Digits in a base behind its mark; an underscore may stand before any of them. -/
def basedRun (base : Nat) : List Char → List Char
  | '_' :: rest =>
    match digitRunOf (fun c => (Decimal.digitValue? base c).isSome) rest with
    | [] => []
    | run => '_' :: run
  | cs => digitRunOf (fun c => (Decimal.digitValue? base c).isSome) cs

def baseOfMark? : Char → Option Nat
  | 'b' | 'B' => some 2
  | 'o' | 'O' => some 8
  | 'x' | 'X' => some 16
  | _ => none

def natOfRun (base : Nat) (cs : List Char) : Nat :=
  (Decimal.natural? base (cs.filter (· != '_'))).getD 0

def fractionRun : List Char → List Char
  | '.' :: rest =>
    match digitRun rest with
    | [] => []
    | digits => '.' :: digits
  | _ => []

def exponentRun : List Char → List Char
  | e :: rest =>
    if e == 'e' || e == 'E' then
      let sign := rest.take 1 |>.filter fun c => c == '+' || c == '-'
      match digitRun (rest.drop sign.length) with
      | [] => []
      | digits => e :: sign ++ digits
    else []
  | [] => []

/-- A number with a fraction or an exponent at the front of a text, and how many characters it
takes. -/
def real? (cs : List Char) : Option (Token × Nat) :=
  let whole := digitRun cs
  let fraction := fractionRun (cs.drop whole.length)
  let exponent := exponentRun (cs.drop (whole.length + fraction.length))
  if whole.isEmpty || (fraction.isEmpty && exponent.isEmpty) then none
  else
    let digits := (fraction.drop 1).filter (· != '_')
    let (negative, power) := Decimal.splitSign (exponent.drop 1)
    let p := Decimal.signed negative (natOfRun 10 power) - digits.length
    let value := Binary64.ofDecimal false (Decimal.naturalD (whole.filter (· != '_') ++ digits)) p
    some (.real value, whole.length + fraction.length + exponent.length)

def decimal? (cs : List Char) : Option (Token × Nat) :=
  match cs with
  | '0' :: rest =>
    let zeros := digitRunOf (· == '0') ('0' :: rest)
    some (.integer 0, zeros.length)
  | _ =>
    match digitRun cs with
    | [] => none
    | run => some (.integer (natOfRun 10 run), run.length)

def integer? (cs : List Char) : Option (Token × Nat) :=
  match cs with
  | '0' :: mark :: rest =>
    match (baseOfMark? mark).map fun base => (base, basedRun base rest) with
    | some (base, c :: run) => some (.integer (natOfRun base (c :: run)), run.length + 3)
    | _ => decimal? cs
  | _ => decimal? cs

def number? (behindPoint : Bool) (cs : List Char) : Option (Token × Nat) :=
  (if behindPoint then none else real? cs) <|> integer? cs

def stringRun (quote : Char) : List Char → Option (List Char)
  | [] => none
  | '\\' :: c :: rest => (stringRun quote rest).map fun more => '\\' :: c :: more
  | c :: rest =>
    if c == quote then some []
    else if c == '\\' then none
    else (stringRun quote rest).map (c :: ·)

def asEscape (c : Char) : List Char :=
  let n := c.toNat
  if n < 128 then [c]
  else if n < 0x100 then '\\' :: 'x' :: Text.hexDigits 2 n
  else if n < 0x10000 then '\\' :: 'u' :: Text.hexDigits 4 n
  else '\\' :: 'U' :: Text.hexDigits 8 n

def simpleEscape? : Char → Option (List Char)
  | '\n' => some []
  | 'n' => some ['\n'] | 't' => some ['\t'] | 'r' => some ['\r'] | 'a' => some ['\x07']
  | 'b' => some ['\x08'] | 'f' => some ['\x0c'] | 'v' => some ['\x0b']
  | '\\' => some ['\\'] | '\'' => some ['\''] | '"' => some ['"']
  | _ => none

def hexWidth? : Char → Option Nat
  | 'x' => some 2 | 'u' => some 4 | 'U' => some 8
  | _ => none

def bracedName? : List Char → Option (List Char)
  | '{' :: rest =>
    let name := rest.takeWhile (· != '}')
    if name.length < rest.length then some name else none
  | _ => none

def escape? (cs : List Char) : Option (Text.Wide × Nat) :=
  match cs with
  | [] => none
  | c :: rest =>
    match simpleEscape? c, hexWidth? c with
    | some value, _ => some (.ofChars value, 1)
    | none, some width =>
      if (rest.take width).length < width then none
      else (Decimal.natural? 16 (rest.take width)).bind fun n =>
        (Text.Point.ofCode? n).map fun value => ([value], width + 1)
    | none, none =>
      if c == 'N' then
        (bracedName? rest).bind fun name =>
          (Text.charOfName? (String.ofList name)).map fun value => ([.char value], name.length + 3)
      else
        let digits := (cs.take 3).takeWhile fun d => (Decimal.digitValue? 8 d).isSome
        if digits.isEmpty then some ([.char '\\'], 0)
        else some ([.char (Char.ofNat (natOfRun 8 digits))], digits.length)

/-- A text with its escapes resolved; `skip` characters belong to one before. -/
def unescape (skip : Nat) : List Char → Option Text.Wide
  | [] => some []
  | c :: rest =>
    match skip with
    | skip + 1 => unescape skip rest
    | 0 =>
      if c == '\\' then do
        let (value, width) ← escape? rest
        return value ++ (← unescape width rest)
      else (unescape 0 rest).map (.char c :: ·)

def string? (quote : Char) (cs : List Char) : Option (Token × Nat) := do
  let raw ← stringRun quote cs
  let value ← unescape 0 (raw.flatMap asEscape)
  return (.text value, raw.length + 2)

def operator? (cs : List Char) : Option (String × Nat) :=
  match longOperators.find? fun op => op.toList.isPrefixOf cs with
  | some op => some (op, 2)
  | none =>
    match cs with
    | c :: _ => if shortOperators.contains c then some (String.ofList [c], 1) else none
    | [] => none

def token? (behindPoint : Bool) (cs : List Char) : Option (Token × Nat) :=
  match number? behindPoint cs with
  | some found => some found
  | none =>
    match cs with
    | [] => none
    | c :: rest =>
      if Text.isIdentifierStart c then
        let word := cs.takeWhile Text.isIdentifierPart
        some (.name (String.ofList word), word.length)
      else if c == '\'' || c == '"' then string? c rest
      else (operator? cs).map fun (op, width) => (.operator op, width)

/-- The brackets that are open after one more operator, if it closes the right one. -/
def nest (stack : List Char) (op : String) : Option (List Char) :=
  match op.toList with
  | ['('] => some (')' :: stack)
  | ['['] => some (']' :: stack)
  | ['{'] => some ('}' :: stack)
  | [c] =>
    if c == ')' || c == ']' || c == '}' then
      match stack with
      | closing :: rest => if closing == c then some rest else none
      | [] => none
    else some stack
  | _ => some stack

def tagEnd? (mark : Char) (cs : List Char) : Option (Nat × Bool) :=
  match cs with
  | '-' :: a :: '}' :: _ => if a == mark then some (3, true) else none
  | '+' :: '%' :: '}' :: _ => if mark == '%' then some (3, false) else none
  | a :: '}' :: _ => if a == mark then some (2, false) else none
  | _ => none

structure Tag where
  tokens : Tokens
  rest : List Char

def behindTag (trims : Bool) (cs : List Char) : List Char := if trims then Text.trimStart cs else cs

def newlines (cs : List Char) : Nat := cs.count '\n'

def newlinesBetween (first second : List Char) : Nat :=
  newlines (first.take (first.length - second.length))

def tagFrom (mark : Char) : Nat → List Char → Nat → Bool → List Char → Option Tag
  | 0, _, _, _, _ => none
  | fuel + 1, stack, line, behindPoint, cs =>
    match if stack.isEmpty then tagEnd? mark cs else none with
    | some (width, trims) => some ⟨[], behindTag trims (cs.drop width)⟩
    | none =>
      match cs with
      | [] => none
      | c :: rest =>
        if Text.isBlank c then tagFrom mark fuel stack (line + newlines [c]) false rest
        else do
          let (token, width) ← token? behindPoint cs
          let stack ← match token with
            | .operator op => nest stack op
            | _ => some stack
          let tag ← tagFrom mark fuel stack (line + newlines (cs.take width))
            (token == .operator ".") (cs.drop width)
          return { tag with tokens := (token, line) :: tag.tokens }

def behindComment : List Char → Option (List Char)
  | [] => none
  | '-' :: '#' :: '}' :: rest => some (Text.trimStart rest)
  | '#' :: '}' :: rest => some rest
  | _ :: rest => behindComment rest

def skipControl : List Char → List Char
  | '-' :: rest => rest
  | '+' :: rest => rest
  | cs => cs

/-- A tag that holds one word and nothing else: the text behind it. `plusEnd` allows a plus sign at
the end of the tag. -/
def wordTag? (word : String) (plusEnd : Bool) (cs : List Char) : Option (List Char) :=
  let body := Text.trimStart (skipControl cs)
  if word.toList.isPrefixOf body then
    match Text.trimStart (body.drop word.length) with
    | '-' :: '%' :: '}' :: rest => some (Text.trimStart rest)
    | '+' :: '%' :: '}' :: rest => if plusEnd then some rest else none
    | '%' :: '}' :: rest => some rest
    | _ => none
  else none

def rawText : List Char → Option (List Char × Bool × List Char)
  | [] => none
  | c :: rest =>
    match c, rest with
    | '{', '%' :: body =>
      match wordTag? "endraw" true body with
      | some behind => some ([], body.head? == some '-', behind)
      | none => (rawText rest).map fun (text, trims, behind) => (c :: text, trims, behind)
    | _, _ => (rawText rest).map fun (text, trims, behind) => (c :: text, trims, behind)

def textPiece (trims : Bool) (cs : List Char) : List Piece :=
  let text := if trims then Text.trimEnd cs else cs
  if text.isEmpty then [] else [.text text]

/-- The pieces of a template; `before` holds the plain text just passed, last character first. -/
def piecesFrom : Nat → Nat → List Char → List Char → Option (List Piece)
  | 0, _, _, _ => none
  | fuel + 1, line, before, cs =>
    let goOn (behind : List Char) := piecesFrom fuel (line + newlinesBetween cs behind) [] behind
    match cs with
    | [] => some (textPiece false before.reverse)
    | '{' :: '#' :: rest => do
      let behind ← behindComment (skipControl rest)
      return textPiece (rest.head? == some '-') before.reverse ++ (← goOn behind)
    | '{' :: '%' :: rest =>
      let front := textPiece (rest.head? == some '-') before.reverse
      match wordTag? "raw" false rest with
      | some body => do
        let (text, trims, behind) ← rawText body
        return front ++ textPiece trims text ++ (← goOn behind)
      | none => do
        let tag ← tagFrom '%' (rest.length + 1) [] line false (skipControl rest)
        return front ++ .statement tag.tokens :: (← goOn tag.rest)
    | '{' :: '{' :: rest => do
      let tag ← tagFrom '}' (rest.length + 1) [] line false (skipControl rest)
      return textPiece (rest.head? == some '-') before.reverse ++
        .print tag.tokens :: (← goOn tag.rest)
    | c :: rest => piecesFrom fuel (line + newlines [c]) (c :: before) rest

def pieces (source : String) : Option (List Piece) :=
  let cs := Text.plainNewlines source.toList
  piecesFrom (cs.length + 1) 1 [] cs

end OperationHooks.Template
