import OperationHooks.Number.Binary64
import OperationHooks.Number.Decimal
import OperationHooks.Text.Digit

set_option autoImplicit false

namespace OperationHooks

namespace Literal

inductive IntegerFault where
  | unreadable
  | tooLong (digits : Nat)
  deriving DecidableEq, Repr

def isSpace (c : Char) : Bool := c == ' ' || (9 ≤ c.toNat && c.toNat ≤ 13)

def trimStart (cs : List Char) : List Char := cs.dropWhile isSpace

def trim (cs : List Char) : List Char := (trimStart (trimStart cs).reverse).reverse

def baseMark? (base : Nat) : Option Char :=
  if base = 2 then some 'b' else if base = 8 then some 'o' else if base = 16 then some 'x' else none

def withoutBaseMark (base : Nat) : List Char → List Char
  | '0' :: mark :: rest => if some mark.toLower = baseMark? base then rest else '0' :: mark :: rest
  | cs => cs

def maxDecimalDigits : Nat := 4300

/-- A whole number in a base. Only decimal ones can be too long. -/
def integer (base : Nat) (text : List Char) : Except IntegerFault Int :=
  let (negative, unsigned) := Decimal.splitSign (trimStart (text.map Text.plainNumberChar))
  let body := withoutBaseMark base unsigned
  let digits := body.takeWhile fun c => (Decimal.digitValue? base c).isSome
  if base = 10 && digits.length > maxDecimalDigits then .error (.tooLong digits.length)
  else if !(trimStart (body.drop digits.length)).isEmpty then .error .unreadable
  else match Decimal.natural? base digits with
    | some n => .ok (Decimal.signed negative n)
    | none => .error .unreadable

def decimal? (cs : List Char) : Option (Nat × Int) :=
  let whole := cs.takeWhile Decimal.isDigit
  let afterWhole := cs.drop whole.length
  let fraction := match afterWhole with
    | '.' :: rest => rest.takeWhile Decimal.isDigit
    | _ => []
  let afterFraction := match afterWhole with
    | '.' :: rest => rest.drop fraction.length
    | other => other
  let exponent? : Option Int := match afterFraction with
    | [] => some 0
    | mark :: rest =>
      if mark.toLower = 'e' then
        let (negative, digits) := Decimal.splitSign rest
        (Decimal.natural? 10 digits).map (Decimal.signed negative)
      else none
  if (whole ++ fraction).isEmpty then none
  else exponent?.map fun e => (Decimal.naturalD (whole ++ fraction), e - fraction.length)

def real? (text : List Char) : Option Binary64 :=
  let (negative, body) := Decimal.splitSign (trim (text.map Text.plainNumberChar))
  let word := String.ofList (body.map Char.toLower)
  if word == "inf" || word == "infinity" then some (.infinite negative)
  else if word == "nan" then some .nan
  else (decimal? body).map fun (digits, exponent) => .ofDecimal negative digits exponent

end Literal

end OperationHooks
