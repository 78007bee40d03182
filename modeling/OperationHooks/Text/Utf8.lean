import OperationHooks.Text.Quoted

set_option autoImplicit false

namespace OperationHooks.Text

inductive DecodeFault where
  | badStart
  | badContinuation
  | endsEarly
  deriving DecidableEq, Repr

/-- Bytes `start` to `start + width - 1` are at fault; `byte` is the first of them. -/
structure DecodeError where
  start : Nat
  width : Nat
  byte : UInt8
  fault : DecodeFault
  deriving DecidableEq, Repr

def DecodeFault.text : DecodeFault → String
  | .badStart => "invalid start byte"
  | .badContinuation => "invalid continuation byte"
  | .endsEarly => "unexpected end of data"

def DecodeError.subject (e : DecodeError) : String :=
  if e.width = 1 then
    s!"byte 0x{String.ofList (hexDigits 2 e.byte.toNat)} in position {e.start}"
  else s!"bytes in position {e.start}-{e.start + e.width - 1}"

def DecodeError.message (e : DecodeError) : String :=
  s!"'utf-8' codec can't decode {e.subject}: {e.fault.text}"

def encodeChars (cs : List Char) : List UInt8 := cs.flatMap String.utf8EncodeChar
def encode (s : String) : List UInt8 := encodeChars s.toList

def leadByte (b : UInt8) : Option (Nat × List (Nat × Nat)) :=
  let n := b.toNat
  let tail := (0x80, 0xBF)
  if n < 0x80 then some (n, [])
  else if n < 0xC2 then none
  else if n < 0xE0 then some (n - 0xC0, [tail])
  else if n = 0xE0 then some (0, [(0xA0, 0xBF), tail])
  else if n = 0xED then some (13, [(0x80, 0x9F), tail])
  else if n < 0xF0 then some (n - 0xE0, [tail, tail])
  else if n = 0xF0 then some (0, [(0x90, 0xBF), tail, tail])
  else if n < 0xF4 then some (n - 0xF0, [tail, tail, tail])
  else if n = 0xF4 then some (4, [(0x80, 0x8F), tail, tail])
  else none

def readTail (bits : Nat) (used : Nat) :
    List (Nat × Nat) → List UInt8 → Except (Nat × DecodeFault) Nat
  | [], _ => .ok bits
  | _ :: _, [] => .error (used, .endsEarly)
  | (low, high) :: more, b :: rest =>
    if low ≤ b.toNat && b.toNat ≤ high then readTail (bits * 64 + b.toNat % 64) (used + 1) more rest
    else .error (used, .badContinuation)

/-- `skip` counts bytes that belong to the character read before. -/
def decodeFrom (position skip : Nat) : List UInt8 → Except DecodeError (List Char)
  | [] => .ok []
  | b :: rest =>
    match skip with
    | skip + 1 => decodeFrom (position + 1) skip rest
    | 0 =>
      match leadByte b with
      | none => .error ⟨position, 1, b, .badStart⟩
      | some (bits, tail) =>
        match readTail bits 1 tail rest with
        | .error (used, fault) => .error ⟨position, used, b, fault⟩
        | .ok code => do
          let more ← decodeFrom (position + 1) tail.length rest
          .ok (Char.ofNat code :: more)

def decode (bytes : List UInt8) : Except DecodeError String :=
  (decodeFrom 0 0 bytes).map String.ofList

end OperationHooks.Text
