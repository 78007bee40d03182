import OperationHooks.Number.Decimal

set_option autoImplicit false

namespace OperationHooks

inductive Binary64 where
  | finite (negative : Bool) (mantissa : Nat) (exponent : Int)
  | infinite (negative : Bool)
  | nan
  deriving DecidableEq, Repr

namespace Binary64

def zero : Binary64 := .finite false 0 0

def roundDiv (n d : Nat) : Nat :=
  let q := n / d
  let twice := 2 * (n % d)
  if twice < d then q else if twice > d then q + 1 else q + q % 2

def inUnits (n d : Nat) (e : Int) : Nat :=
  if 0 ≤ e then roundDiv n (d * Nat.pow 2 e.toNat) else roundDiv (n * Nat.pow 2 (-e).toNat) d

/-- The nearest number to `n / d`, for a positive `d`. -/
def ofRatio (negative : Bool) (n d : Nat) : Binary64 :=
  if n = 0 then .finite negative 0 0
  else
    let guess : Int := (n.log2 : Int) - (d.log2 : Int) - 52
    let small := if 0 ≤ guess then n < d * Nat.pow 2 (52 + guess).toNat
      else n * Nat.pow 2 (-guess).toNat < d * Nat.pow 2 52
    let e := max (if small then guess - 1 else guess) (-1074)
    let m := inUnits n d e
    if m * Nat.pow 2 e.toNat ≥ Nat.pow 2 1024 then .infinite negative else .finite negative m e

/-- `digits * 10 ^ exponent`. Exponents out of all range are cut off first. -/
def ofDecimal (negative : Bool) (digits : Nat) (exponent : Int) : Binary64 :=
  if digits = 0 then .finite negative 0 0
  else if exponent > 400 then .infinite negative
  else if exponent + digits.log2 < -1200 then .finite negative 0 0
  else if 0 ≤ exponent then ofRatio negative (digits * Nat.pow 10 exponent.toNat) 1
  else ofRatio negative digits (Nat.pow 10 (-exponent).toNat)

def ofDyadic (negative : Bool) (m : Nat) (e : Int) : Binary64 :=
  if 0 ≤ e then ofRatio negative (m * Nat.pow 2 e.toNat) 1 else
    ofRatio negative m (Nat.pow 2 (-e).toNat)

def mul : Binary64 → Binary64 → Binary64
  | .finite s m e, .finite t n f => ofDyadic (s != t) (m * n) (e + f)
  | .finite s m _, .infinite t => if m = 0 then .nan else .infinite (s != t)
  | .infinite s, .finite t n _ => if n = 0 then .nan else .infinite (s != t)
  | .infinite s, .infinite t => .infinite (s != t)
  | _, _ => .nan

def add : Binary64 → Binary64 → Binary64
  | .finite s m e, .finite t n f =>
    let least := min e f
    let total := Decimal.signed s (m * Nat.pow 2 (e - least).toNat) +
      Decimal.signed t (n * Nat.pow 2 (f - least).toNat)
    ofDyadic (if total = 0 then s && t && m = 0 else total < 0) total.natAbs least
  | .finite .., .infinite t => .infinite t
  | .infinite s, .finite .. => .infinite s
  | .infinite s, .infinite t => if s = t then .infinite s else .nan
  | _, _ => .nan

def div : Binary64 → Binary64 → Binary64
  | .finite s m e, .finite t n f =>
    if n = 0 then (if m = 0 then .nan else .infinite (s != t))
    else ofRatio (s != t) (m * Nat.pow 2 (e - f).toNat) (n * Nat.pow 2 (f - e).toNat)
  | .finite s _ _, .infinite t => .finite (s != t) 0 0
  | .infinite s, .finite t _ _ => .infinite (s != t)
  | _, _ => .nan

def neg : Binary64 → Binary64
  | .finite s m e => .finite (!s) m e
  | .infinite s => .infinite (!s)
  | .nan => .nan

def isZero : Binary64 → Bool
  | .finite _ m _ => m == 0
  | _ => false

def isFinite : Binary64 → Bool
  | .finite .. => true
  | _ => false

def toInt? : Binary64 → Option Int
  | .finite negative m e =>
    let magnitude? : Option Nat :=
      if 0 ≤ e then some (m * Nat.pow 2 e.toNat)
      else if m % Nat.pow 2 (-e).toNat = 0 then some (m / Nat.pow 2 (-e).toNat) else none
    magnitude?.map fun n => if negative then -(n : Int) else n
  | _ => none

end Binary64

end OperationHooks
