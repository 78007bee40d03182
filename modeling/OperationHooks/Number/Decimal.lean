set_option autoImplicit false

namespace OperationHooks

namespace Decimal

def isDigit (c : Char) : Bool := '0' ≤ c && c ≤ '9'

def digitValue? (base : Nat) (c : Char) : Option Nat :=
  let n :=
    if isDigit c then some (c.toNat - 48)
    else if 'a' ≤ c && c ≤ 'z' then some (c.toNat - 87)
    else if 'A' ≤ c && c ≤ 'Z' then some (c.toNat - 55)
    else none
  n.filter (· < base)

def digitsFrom (base acc : Nat) : List Char → Option Nat
  | [] => some acc
  | c :: rest => do digitsFrom base (acc * base + (← digitValue? base c)) rest

/-- The number written by one or more digits of a base. -/
def natural? (base : Nat) : List Char → Option Nat
  | [] => none
  | cs => digitsFrom base 0 cs

def naturalD (cs : List Char) : Nat := (natural? 10 cs).getD 0

def splitSign : List Char → Bool × List Char
  | '-' :: rest => (true, rest)
  | '+' :: rest => (false, rest)
  | cs => (false, cs)

def signed (negative : Bool) (n : Nat) : Int := if negative then -(n : Int) else n

end Decimal

end OperationHooks
