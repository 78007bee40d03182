import OperationHooks.Datum
import OperationHooks.Number.Decimal
import OperationHooks.Text.Quoted

set_option autoImplicit false

namespace OperationHooks.Json

def isSpace (c : Char) : Bool := c == ' ' || c == '\n' || c == '\r' || c == '\t'

def skipSpace (cs : List Char) : List Char := cs.dropWhile isSpace

def fourHex? : List Char → Option Nat
  | a :: b :: c :: d :: _ => Decimal.natural? 16 [a, b, c, d]
  | _ => none

/-- Two escapes that form a surrogate pair are one character; a lone one is replaced. -/
def readUnicode (cs : List Char) : Option (Char × Nat) := do
  let high ← fourHex? cs
  if 0xD800 ≤ high && high < 0xDC00 && (cs.drop 4).take 2 == ['\\', 'u'] then
    let low ← fourHex? (cs.drop 6)
    if 0xDC00 ≤ low && low < 0xE000 then
      return (Char.ofNat (0x10000 + (high - 0xD800) * 0x400 + (low - 0xDC00)), 10)
  if 0xD800 ≤ high && high < 0xE000 then return ('\uFFFD', 4)
  return (Char.ofNat high, 4)

/-- The value of the character behind a backslash and how many characters follow it. -/
def readEscape (c : Char) (rest : List Char) : Option (Char × Nat) :=
  match c with
  | '"' => some ('"', 0) | '\\' => some ('\\', 0) | '/' => some ('/', 0)
  | 'b' => some ('\x08', 0) | 'f' => some ('\x0c', 0) | 'n' => some ('\n', 0)
  | 'r' => some ('\r', 0) | 't' => some ('\t', 0)
  | 'u' => readUnicode rest
  | _ => none

/-- The rest of a string up to its closing quote; `skip` characters belong to an escape. -/
def readStringFrom (skip : Nat) : List Char → Option (List Char × List Char)
  | [] => none
  | c :: rest =>
    match skip with
    | skip + 1 => readStringFrom skip rest
    | 0 =>
      if c = '"' then some ([], rest)
      else if c = '\\' then
        match rest with
        | [] => none
        | e :: tail => do
          let (value, width) ← readEscape e tail
          let (more, left) ← readStringFrom (width + 1) rest
          return (value :: more, left)
      else if c.toNat < 32 then none
      else do
        let (more, left) ← readStringFrom 0 rest
        return (c :: more, left)

def readString : List Char → Option (String × List Char)
  | '"' :: rest => (readStringFrom 0 rest).map fun (cs, left) => (String.ofList cs, left)
  | _ => none

def takeDigits (cs : List Char) : List Char × List Char :=
  (cs.takeWhile Decimal.isDigit, cs.dropWhile Decimal.isDigit)

def readFraction : List Char → List Char × List Char
  | '.' :: rest =>
    match takeDigits rest with
    | ([], _) => ([], '.' :: rest)
    | (digits, left) => (digits, left)
  | cs => ([], cs)

def readExponent : List Char → Option Int × List Char
  | [] => (none, [])
  | e :: rest =>
    if e = 'e' || e = 'E' then
      let (negative, unsigned) := Decimal.splitSign rest
      match takeDigits unsigned with
      | ([], _) => (none, e :: rest)
      | (digits, left) => (some (Decimal.signed negative (Decimal.naturalD digits)), left)
    else (none, e :: rest)

def readNumber (cs : List Char) : Option (Datum × List Char) :=
  let (negative, unsigned) := match cs with
    | '-' :: rest => (true, rest)
    | _ => (false, cs)
  let whole? := match unsigned with
    | '0' :: rest => some (['0'], rest)
    | _ =>
      match takeDigits unsigned with
      | ([], _) => none
      | found => some found
  whole?.map fun (whole, afterWhole) =>
    let (fraction, afterFraction) := readFraction afterWhole
    let (exponent?, left) := readExponent afterFraction
    if fraction.isEmpty && exponent?.isNone then
      (.integer (Decimal.signed negative (Decimal.naturalD whole)), left)
    else
      let exponent := exponent?.getD 0 - fraction.length
      (.real (Binary64.ofDecimal negative (Decimal.naturalD (whole ++ fraction)) exponent), left)

def expectWord (word : String) (value : Datum) (cs : List Char) : Option (Datum × List Char) :=
  if word.toList.isPrefixOf cs then some (value, cs.drop word.length) else none

mutual

/-- Reads one value. Each step takes a character, so the length of the text is enough `fuel`. -/
def readValue : Nat → List Char → Option (Datum × List Char)
  | 0, _ => none
  | fuel + 1, cs =>
    match skipSpace cs with
    | '{' :: rest =>
      match skipSpace rest with
      | '}' :: left => some (.table [], left)
      | inner => (readEntries fuel inner).map fun (entries, left) => (.table entries, left)
    | '[' :: rest =>
      match skipSpace rest with
      | ']' :: left => some (.list [], left)
      | inner => (readItems fuel inner).map fun (items, left) => (.list items, left)
    | '"' :: rest => (readString ('"' :: rest)).map fun (s, left) => (.text s, left)
    | 't' :: rest => expectWord "true" (.boolean true) ('t' :: rest)
    | 'f' :: rest => expectWord "false" (.boolean false) ('f' :: rest)
    | 'n' :: rest => expectWord "null" .null ('n' :: rest)
    | other => readNumber other

def readItems : Nat → List Char → Option (List Datum × List Char)
  | 0, _ => none
  | fuel + 1, cs =>
    match readValue fuel cs with
    | none => none
    | some (item, afterItem) =>
      match skipSpace afterItem with
      | ']' :: left => some ([item], left)
      | ',' :: rest => (readItems fuel rest).map fun (items, left) => (item :: items, left)
      | _ => none

def readEntries : Nat → List Char → Option (List (Datum × Datum) × List Char)
  | 0, _ => none
  | fuel + 1, cs =>
    match readString (skipSpace cs) with
    | none => none
    | some (key, afterKey) =>
      match skipSpace afterKey with
      | ':' :: rest =>
        match readValue fuel rest with
        | none => none
        | some (value, afterValue) =>
          match skipSpace afterValue with
          | '}' :: left => some ([(.text key, value)], left)
          | ',' :: rest =>
            (readEntries fuel rest).map fun (entries, left) => ((.text key, value) :: entries, left)
          | _ => none
      | _ => none

end

def read? (s : String) : Option Datum :=
  match readValue (2 * s.length + 2) s.toList with
  | some (value, left) => if (skipSpace left).isEmpty then some value else none
  | none => none

def escapeChar (c : Char) : List Char :=
  match c with
  | '"' => ['\\', '"'] | '\\' => ['\\', '\\'] | '\x08' => ['\\', 'b'] | '\t' => ['\\', 't']
  | '\n' => ['\\', 'n'] | '\x0c' => ['\\', 'f'] | '\r' => ['\\', 'r']
  | _ => if c.toNat < 32 then ['\\', 'u'] ++ Text.hexDigits 4 c.toNat else [c]

def quote (s : String) : String :=
  String.ofList ('"' :: s.toList.flatMap escapeChar ++ ['"'])

def spaces (n : Nat) : String := String.ofList (List.replicate n ' ')

def bracketed (opening closing : String) (indent : Nat) (items : List String) : String :=
  if items.isEmpty then opening ++ closing
  else opening ++ "\n" ++
    ",\n".intercalate (items.map (spaces (indent + 2) ++ ·)) ++ "\n" ++ spaces indent ++ closing

def array (indent : Nat) (items : List String) : String := bracketed "[" "]" indent items

def object (indent : Nat) (fields : List (String × String)) : String :=
  bracketed "\x7b" "\x7d" indent (fields.map fun (key, value) => quote key ++ ": " ++ value)

end OperationHooks.Json
