set_option autoImplicit false

namespace OperationHooks.Text

def sixBits? (c : Char) : Option Nat :=
  if 'A' ≤ c && c ≤ 'Z' then some (c.toNat - 65)
  else if 'a' ≤ c && c ≤ 'z' then some (c.toNat - 71)
  else if '0' ≤ c && c ≤ '9' then some (c.toNat + 4)
  else if c == '+' then some 62
  else if c == '/' then some 63
  else none

def sixBitValues (count padding : Nat) : List Char → Option (List Nat)
  | [] => if count % 4 = 0 then some [] else none
  | c :: rest =>
    if c == '=' then
      if count % 4 < 2 then sixBitValues count padding rest
      else if count % 4 + padding + 1 ≥ 4 then some []
      else sixBitValues count (padding + 1) rest
    else match sixBits? c with
      | some n => (sixBitValues (count + 1) 0 rest).map (n :: ·)
      | none => sixBitValues count padding rest

/-- The bytes of groups of four values; a last group of two or three gives one or two. -/
def bytesOfSixBits : List Nat → List UInt8
  | a :: b :: c :: d :: rest =>
    .ofNat (a * 4 + b / 16) :: .ofNat (b * 16 + c / 4) :: .ofNat (c * 64 + d) :: bytesOfSixBits rest
  | [a, b, c] => [.ofNat (a * 4 + b / 16), .ofNat (b * 16 + c / 4)]
  | [a, b] => [.ofNat (a * 4 + b / 16)]
  | _ => []

def fromBase64? (cs : List Char) : Option (List UInt8) :=
  (sixBitValues 0 0 cs).map bytesOfSixBits

end OperationHooks.Text
