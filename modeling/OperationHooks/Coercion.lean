import OperationHooks.Datum
import OperationHooks.Number.Decimal
import OperationHooks.Text.Blank
import OperationHooks.Text.Utf8

set_option autoImplicit false

namespace OperationHooks

inductive Mismatch where
  | noInteger
  | unreadableInteger
  | integerTooLong
  | fractional
  | notFinite
  | noBoolean
  | unreadableBoolean
  | noText
  | noCharacters
  | notAmongTexts
  | notAmongChoices
  | noList
  | noTable
  | missing
  deriving DecidableEq, Repr

inductive Datum.Step where
  | field (name : String)
  | item (index : Nat)
  deriving DecidableEq, Repr

/-- A value that could not be read, and where it stands. -/
structure Rejection where
  location : List Datum.Step
  mismatch : Mismatch
  deriving DecidableEq, Repr

namespace Datum

def isTextSpace (c : Char) : Bool := Text.isBlank c && !(28 ≤ c.toNat && c.toNat ≤ 31)

def trimText (cs : List Char) : List Char :=
  ((cs.dropWhile isTextSpace).reverse.dropWhile isTextSpace).reverse

/-- Digits from the first that is no zero; where a point or nothing follows the zeros, the last
character before it stays. -/
def behindZeros (last : Char) : List Char → Option (List Char)
  | [] => some [last]
  | c :: rest =>
    if c == '0' || c == '_' then behindZeros c rest
    else if c == '-' || Decimal.isDigit c then some (c :: rest)
    else if c == '.' then some (last :: c :: rest)
    else none

def withoutLeadingZeros : List Char → Option (List Char)
  | [] => none
  | c :: rest =>
    if c == '0' then behindZeros c rest
    else if Decimal.isDigit c then some (c :: rest)
    else none

def withoutZeroFraction (cs : List Char) : List Char :=
  let whole := cs.takeWhile (· != '.')
  let fraction := cs.drop (whole.length + 1)
  if !fraction.isEmpty && fraction.all (· == '0') then whole else cs

def hasDoubleMark : List Char → Bool
  | '_' :: '_' :: _ => true
  | _ :: rest => hasDoubleMark rest
  | [] => false

/-- Underscores may part groups of characters, one at a time. -/
def withoutMarks (cs : List Char) : List Char :=
  if cs.head? == some '_' || cs.getLast? == some '_' || hasDoubleMark cs then cs
  else cs.filter (· != '_')

def maxNumeralLength : Nat := 4300

/-- An optional minus and digits, none of them a zero in front of others. -/
def numeral (cs : List Char) : Except Mismatch Int :=
  let negative := cs.head? == some '-'
  let digits := if negative then cs.drop 1 else cs
  let run := digits.takeWhile Decimal.isDigit
  if run.head? == some '0' && digits != ['0'] then .error .unreadableInteger
  else if (if negative then 1 else 0) + run.length > maxNumeralLength then .error .integerTooLong
  else if run.length < digits.length then .error .unreadableInteger
  else match Decimal.natural? 10 digits with
    | some n => .ok (Decimal.signed negative n)
    | none => .error .unreadableInteger

def textToInteger (s : String) : Except Mismatch Int :=
  let (negative, unsigned) := Decimal.splitSign (trimText s.toList)
  match withoutLeadingZeros unsigned with
  | none => .error .unreadableInteger
  | some cs =>
    let digits := withoutMarks (withoutZeroFraction cs)
    numeral (if negative then '-' :: digits else digits)

def realToInteger (x : Binary64) : Except Mismatch Int :=
  if !x.isFinite then .error .notFinite
  else match x.toInt? with
    | none => .error .fractional
    | some n => if n.natAbs < Nat.pow 2 63 then .ok n else .error .integerTooLong

def toInteger : Datum → Except Mismatch Int
  | .integer n => .ok n
  | .boolean b => .ok (if b then 1 else 0)
  | .real x => realToInteger x
  | .text s => textToInteger s
  | .bytes bs =>
    match Text.decode bs with
    | .ok s => textToInteger s
    | .error _ => .error .unreadableInteger
  | .brokenText => .error .noCharacters
  | _ => .error .noInteger

def asciiLower (s : String) : String := String.ofList (s.toList.map Char.toLower)

def textToBoolean (s : String) : Except Mismatch Bool :=
  let word := asciiLower s
  if ["1", "on", "t", "true", "y", "yes"].contains word then .ok true
  else if ["0", "off", "f", "false", "n", "no"].contains word then .ok false
  else .error .unreadableBoolean

/-- Whole numbers other than zero and one say nothing; those of more than 64 bits are no words. -/
def integerToBoolean (n : Int) : Except Mismatch Bool :=
  if n = 1 then .ok true
  else if n = 0 then .ok false
  else if -Int.pow 2 63 ≤ n && n < Int.pow 2 63 then .error .unreadableBoolean
  else .error .noBoolean

def toBoolean : Datum → Except Mismatch Bool
  | .boolean b => .ok b
  | .integer n => integerToBoolean n
  | .real x =>
    match realToInteger x with
    | .ok n => integerToBoolean n
    | .error _ => .error .noBoolean
  | .text s => textToBoolean s
  | .bytes bs =>
    match Text.decode bs with
    | .ok s => textToBoolean s
    | .error _ => .error .unreadableBoolean
  | .brokenText => .error .noCharacters
  | _ => .error .noBoolean

def toText : Datum → Except Mismatch String
  | .text s => .ok s
  | _ => .error .noText

def toOptionalText : Datum → Except Mismatch (Option String)
  | .null => .ok none
  | d => d.toText.map some

def toChoice {α : Type} (choices : List (String × α)) (otherwise : Mismatch) :
  Datum → Except Mismatch α
  | .text s =>
    match choices.lookup s with
    | some choice => .ok choice
    | none => .error otherwise
  | .brokenText => .error .noCharacters
  | _ => .error otherwise

end Datum

abbrev Reading (α : Type) := Except (List Rejection) α

namespace Reading

def under {α : Type} (step : Datum.Step) (r : Reading α) : Reading α :=
  r.mapError (·.map fun rejection => { rejection with location := step :: rejection.location })

def ofCoercion {α : Type} (r : Except Mismatch α) : Reading α :=
  r.mapError fun mismatch => [⟨[], mismatch⟩]

def both {α β : Type} (r : Reading α) (s : Reading β) : Reading (α × β) :=
  match r, s with
  | .ok x, .ok y => .ok (x, y)
  | .ok _, .error es => .error es
  | .error es, .ok _ => .error es
  | .error es, .error fs => .error (es ++ fs)

def field {α : Type} (entries : List (Datum × Datum)) (names : List String) (otherwise : Reading α)
    (read : Datum → Reading α) : Reading α :=
  match names.findSome? fun name => (Datum.find? name entries).map fun d => (name, d) with
  | some (name, d) => under (.field name) (read d)
  | none => otherwise

def required {α : Type} (entries : List (Datum × Datum)) (name : String)
    (read : Datum → Reading α) : Reading α :=
  field entries [name] (.error [⟨[.field name], .missing⟩]) read

def itemsFrom {α : Type} (read : Datum → Reading α) (index : Nat) : List Datum → Reading (List α)
  | [] => .ok []
  | d :: rest =>
    (both (under (.item index) (read d)) (itemsFrom read (index + 1) rest)).map
      fun (x, xs) => x :: xs

def list {α : Type} (read : Datum → Reading α) : Datum → Reading (List α)
  | .list items => itemsFrom read 0 items
  | _ => .error [⟨[], .noList⟩]

end Reading

end OperationHooks
