import OperationHooks.Number.Decimal

set_option autoImplicit false

namespace OperationHooks.Yaml

inductive Tag where
  | null | bool | int | float | str | binary | timestamp | merge | default
  | seq | map | set | omap | pairs
  | unknown
  deriving DecidableEq, Repr

def Tag.ofName (name : String) : Tag :=
  match name with
  | "null" => .null | "bool" => .bool | "int" => .int | "float" => .float | "str" => .str
  | "binary" => .binary | "timestamp" => .timestamp | "merge" => .merge | "value" => .default
  | "seq" => .seq | "map" => .map | "set" => .set | "omap" => .omap | "pairs" => .pairs
  | _ => .unknown

def tagSpace : String := "tag:yaml.org,2002:"

def Tag.ofString (tag : String) : Tag :=
  if tagSpace.toList.isPrefixOf tag.toList then
    .ofName (String.ofList (tag.toList.drop tagSpace.length))
  else .unknown

def trueWords : List String := ["yes", "Yes", "YES", "true", "True", "TRUE", "on", "On", "ON"]
def falseWords : List String := ["no", "No", "NO", "false", "False", "FALSE", "off", "Off", "OFF"]
def nullWords : List String := ["", "~", "null", "Null", "NULL"]

def isDigitOrUnderscore (c : Char) : Bool := Decimal.isDigit c || c == '_'

def unsigned (cs : List Char) : List Char := (Decimal.splitSign cs).2

/-- A colon, then one or two digits of which two are below sixty; any number of such groups. -/
def sexagesimalTail : Nat → List Char → List Char
  | 0, cs => cs
  | fuel + 1, cs =>
    match cs with
    | ':' :: a :: b :: rest =>
      if '0' ≤ a && a ≤ '5' && Decimal.isDigit b then sexagesimalTail fuel rest
      else if Decimal.isDigit a then sexagesimalTail fuel (b :: rest)
      else cs
    | [':', a] => if Decimal.isDigit a then [] else cs
    | _ => cs

/-- Digits and underscores after a digit, then colon groups; what is left behind the last group. -/
def afterSexagesimal? (cs : List Char) : Option (List Char) :=
  match cs with
  | c :: rest =>
    if Decimal.isDigit c then
      let tail := rest.dropWhile isDigitOrUnderscore
      let left := sexagesimalTail tail.length tail
      if left.length < tail.length then some left else none
    else none
  | [] => none

def isBinaryInt : List Char → Bool
  | '0' :: 'b' :: rest => !rest.isEmpty && rest.all fun c => c == '0' || c == '1' || c == '_'
  | _ => false

def isOctalInt : List Char → Bool
  | '0' :: rest => !rest.isEmpty && rest.all fun c => ('0' ≤ c && c ≤ '7') || c == '_'
  | _ => false

def isDecimalInt : List Char → Bool
  | ['0'] => true
  | c :: rest => '1' ≤ c && c ≤ '9' && rest.all isDigitOrUnderscore
  | [] => false

def isHexInt : List Char → Bool
  | '0' :: 'x' :: rest =>
    !rest.isEmpty && rest.all fun c => (Decimal.digitValue? 16 c).isSome || c == '_'
  | _ => false

def isSexagesimalInt (cs : List Char) : Bool :=
  cs.head? != some '0' && afterSexagesimal? cs == some []

def isInt (cs : List Char) : Bool :=
  let body := unsigned cs
  isBinaryInt body || isOctalInt body || isDecimalInt body || isHexInt body || isSexagesimalInt body

def isExponentOrEnd : List Char → Bool
  | [] => true
  | e :: sign :: digits =>
    (e == 'e' || e == 'E') && (sign == '+' || sign == '-') && !digits.isEmpty &&
      digits.all Decimal.isDigit
  | _ => false

def isPointFloat : List Char → Bool
  | c :: rest =>
    Decimal.isDigit c &&
      match rest.dropWhile isDigitOrUnderscore with
      | '.' :: fraction => isExponentOrEnd (fraction.dropWhile isDigitOrUnderscore)
      | _ => false
  | [] => false

def isBarePointFloat : List Char → Bool
  | '.' :: c :: rest =>
    Decimal.isDigit c && isExponentOrEnd (rest.dropWhile isDigitOrUnderscore)
  | _ => false

def isSexagesimalFloat (cs : List Char) : Bool :=
  match afterSexagesimal? cs with
  | some ('.' :: rest) => rest.all isDigitOrUnderscore
  | _ => false

def isInfinity (cs : List Char) : Bool :=
  [".inf", ".Inf", ".INF"].contains (String.ofList cs)

def isNaN (cs : List Char) : Bool := [".nan", ".NaN", ".NAN"].contains (String.ofList cs)

def isFloat (cs : List Char) : Bool :=
  isPointFloat (unsigned cs) || isBarePointFloat cs || isSexagesimalFloat (unsigned cs) ||
    isInfinity (unsigned cs) || isNaN cs

/-- Digits at the front, between `least` and `most` of them, and the text behind. -/
def takeDigits (least most : Nat) (cs : List Char) : Option (Nat × List Char) :=
  let digits := (cs.take most).takeWhile Decimal.isDigit
  if digits.length < least then none else some (Decimal.naturalD digits, cs.drop digits.length)

def expectChar (c : Char) : List Char → Option (List Char)
  | d :: rest => if d = c then some rest else none
  | [] => none

/-- How far a time zone is ahead of the common one, or behind it. -/
structure Offset where
  behind : Bool
  minutes : Nat
  deriving DecidableEq, Repr

structure Moment.Time where
  hour : Nat
  minute : Nat
  second : Nat
  offset : Option Offset
  deriving DecidableEq, Repr

/-- The numbers of a date, and of a time if there is one. -/
structure Moment where
  year : Nat
  month : Nat
  day : Nat
  time : Option Moment.Time
  deriving DecidableEq, Repr

def isBlankOrTab (c : Char) : Bool := c == ' ' || c == '\t'

/-- What may follow a time: nothing, a `Z`, or a signed offset in hours and perhaps minutes. -/
def zone? (cs : List Char) : Option (Option Offset) :=
  match cs.dropWhile isBlankOrTab with
  | [] => if cs.isEmpty then some none else none
  | ['Z'] => some none
  | sign :: rest =>
    if sign == '+' || sign == '-' then
      match takeDigits 1 2 rest with
      | none => none
      | some (hours, []) => some (some ⟨sign == '-', hours * 60⟩)
      | some (hours, minutes) =>
        match (expectChar ':' minutes).bind (takeDigits 2 2) with
        | some (minutes, []) => some (some ⟨sign == '-', hours * 60 + minutes⟩)
        | _ => none
    else none

def time? (cs : List Char) : Option Moment.Time := do
  let (hour, cs) ← takeDigits 1 2 cs
  let (minute, cs) ← takeDigits 2 2 (← expectChar ':' cs)
  let (second, cs) ← takeDigits 2 2 (← expectChar ':' cs)
  let cs := match cs with
    | '.' :: rest => rest.dropWhile Decimal.isDigit
    | other => other
  return ⟨hour, minute, second, ← zone? cs⟩

/-- A date, then nothing or a time behind a `T` or blanks. A month or day may have one digit. -/
def moment? (cs : List Char) : Option Moment := do
  let (year, cs) ← takeDigits 4 4 cs
  let (month, cs) ← takeDigits 1 2 (← expectChar '-' cs)
  let (day, cs) ← takeDigits 1 2 (← expectChar '-' cs)
  match cs with
  | [] => return ⟨year, month, day, none⟩
  | c :: rest =>
    if c == 'T' || c == 't' then return ⟨year, month, day, some (← time? rest)⟩
    else if isBlankOrTab c then
      return ⟨year, month, day, some (← time? (rest.dropWhile isBlankOrTab))⟩
    else none

def isMoment (cs : List Char) : Bool :=
  match moment? cs with
  | none => false
  | some m => m.time.isSome || cs.length == 10

def formOf (cs : List Char) : List Char :=
  match cs.getLast? with
  | some '\n' => if cs.length = 1 then cs else cs.dropLast
  | _ => cs

def resolve (text : String) : Tag :=
  let cs := formOf text.toList
  let word := String.ofList cs
  if trueWords.contains word || falseWords.contains word then .bool
  else if isFloat cs then .float
  else if isInt cs then .int
  else if word == "<<" then .merge
  else if nullWords.contains word then .null
  else if isMoment cs then .timestamp
  else if word == "=" then .default
  else if word == "!" || word == "&" || word == "*" then .unknown
  else .str

end OperationHooks.Yaml
