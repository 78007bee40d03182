import OperationHooks.Number.Binary64

set_option autoImplicit false

namespace OperationHooks.Binary64

def ratio (m : Nat) (e : Int) : Nat × Nat :=
  if 0 ≤ e then (m * Nat.pow 2 e.toNat, 1) else (m, Nat.pow 2 (-e).toNat)

def inTens (n d : Nat) (p : Int) : Nat × Nat × Nat :=
  let (n, d) := if 0 ≤ p then (n, d * Nat.pow 10 p.toNat) else (n * Nat.pow 10 (-p).toNat, d)
  (n / d, n % d, d)

/-- The power of ten of the first digit: `10 ^ p ≤ n / d < 10 ^ (p + 1)`. -/
def firstDigit (n d : Nat) : Int :=
  let guess : Int := ((n.log2 : Int) - d.log2) * 30103 / 100000
  let candidates := [guess + 2, guess + 1, guess, guess - 1, guess - 2]
  (candidates.find? fun p => (inTens n d p).1 > 0).getD (guess - 3)

def readsBack (m : Nat) (e : Int) (digits : Nat) (p : Int) : Bool :=
  match ofDecimal false digits p with
  | .finite _ mantissa exponent =>
    (ratio mantissa exponent).1 * (ratio m e).2 == (ratio m e).1 * (ratio mantissa exponent).2
  | _ => false

def shortestFrom (m : Nat) (e : Int) (first : Int) : Nat → Nat → Nat × Int
  | 0, _ => (0, 0)
  | fuel + 1, count =>
    let (n, d) := ratio m e
    let p := first - (count : Int) + 1
    let (below, rest, unit) := inTens n d p
    let low := readsBack m e below p
    let high := readsBack m e (below + 1) p
    if low && (!high || 2 * rest ≤ unit) then (below, p)
    else if high then (below + 1, p)
    else shortestFrom m e first fuel (count + 1)

def withoutZeros : Nat → Nat × Int → Nat × Int
  | 0, found => found
  | fuel + 1, (digits, p) =>
    if digits % 10 = 0 && digits ≠ 0 then withoutZeros fuel (digits / 10, p + 1) else (digits, p)

def shortest (m : Nat) (e : Int) : Nat × Int :=
  let (n, d) := ratio m e
  withoutZeros 20 (shortestFrom m e (firstDigit n d) 20 1)

def zeros (n : Nat) : String := String.ofList (List.replicate n '0')

/-- Digits with a point, or with an exponent where the point would stand far outside of them. -/
def decimalText (digits : String) (p : Int) : String :=
  let count := digits.length
  let point : Int := count + p
  if -4 < point && point ≤ 16 then
    if point ≤ 0 then "0." ++ zeros (-point).toNat ++ digits
    else if point ≥ count then digits ++ zeros (point - count).toNat ++ ".0"
    else String.ofList (digits.toList.take point.toNat) ++ "." ++
      String.ofList (digits.toList.drop point.toNat)
  else
    let exponent := point - 1
    let fraction := String.ofList (digits.toList.drop 1)
    let size := toString exponent.natAbs
    String.ofList (digits.toList.take 1) ++ (if fraction.isEmpty then "" else "." ++ fraction) ++
      (if exponent < 0 then "e-" else "e+") ++ (if size.length < 2 then "0" ++ size else size)

def text : Binary64 → String
  | .nan => "nan"
  | .infinite negative => if negative then "-inf" else "inf"
  | .finite negative m e =>
    let sign := if negative then "-" else ""
    if m = 0 then sign ++ "0.0"
    else
      let (digits, p) := shortest m e
      sign ++ decimalText (toString digits) p

end OperationHooks.Binary64
