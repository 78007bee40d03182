import OperationHooks.Text.Blank
import OperationHooks.Text.Quoted

set_option autoImplicit false

namespace OperationHooks.Text

inductive Point where
  | char (c : Char)
  | half (n : Fin 0x800)
  deriving DecidableEq, Repr

namespace Point

def code : Point → Nat
  | .char c => c.toNat
  | .half n => 0xD800 + n.val

def ofCode? (n : Nat) : Option Point :=
  if n.isValidChar then some (.char (Char.ofNat n))
  else if h : 0xD800 ≤ n ∧ n < 0xE000 then some (.half ⟨n - 0xD800, by omega⟩)
  else none

def isHalf : Point → Bool
  | .char _ => false
  | .half _ => true

def isBlank : Point → Bool
  | .char c => Text.isBlank c
  | .half _ => false

def escape (n : Fin 0x800) : List Char := '\\' :: 'u' :: hexDigits 4 (0xD800 + n.val)

def shown : Point → List Char
  | .char c => [c]
  | .half n => escape n

end Point

abbrev Wide := List Point

/-- What cannot be encoded: `width` halves in a row from a place on, the first of which is given. -/
structure EncodeError where
  start : Nat
  width : Nat
  first : Fin 0x800
  deriving DecidableEq, Repr

def EncodeError.subject (e : EncodeError) : String :=
  if e.width = 1 then
    s!"character '{String.ofList (Point.escape e.first)}' in position {e.start}"
  else s!"characters in position {e.start}-{e.start + e.width - 1}"

def EncodeError.message (e : EncodeError) : String :=
  s!"'utf-8' codec can't encode {e.subject}: surrogates not allowed"

structure Broken where
  outline : String
  error : EncodeError
  deriving DecidableEq, Repr

namespace Wide

def ofChars (cs : List Char) : Wide := cs.map .char

/-- The characters of a text. Where each of them is one byte, they are read off the bytes in one
pass. -/
def charsOf (s : String) : List Char :=
  let bytes := s.toByteArray.data.toList
  if bytes.all (· < 0x80) then bytes.map fun b => Char.ofNat b.toNat else s.toList

def ofString (s : String) : Wide := ofChars (charsOf s)

/-- The characters of a text up to its first half, if it has one. -/
def charsFrom (position : Nat) : Wide → Except EncodeError (List Char)
  | [] => .ok []
  | .char c :: rest => (charsFrom (position + 1) rest).map (c :: ·)
  | .half n :: rest => .error ⟨position, (rest.takeWhile Point.isHalf).length + 1, n⟩

def outline (w : Wide) : String :=
  String.ofList (w.map fun
    | .char c => c
    | .half _ => 'x')

def toText (w : Wide) : Except Broken String :=
  match charsFrom 0 w with
  | .ok cs => .ok (String.ofList cs)
  | .error e => .error ⟨w.outline, e⟩

def toText? (w : Wide) : Option String := w.toText.toOption

def shown (w : Wide) : String := String.ofList (w.flatMap Point.shown)

/-- A text in quotes, as `quoted` has it. -/
def quoted (w : Wide) : String :=
  let quote := quoteFor (w.filterMap fun
    | .char c => some c
    | .half _ => none)
  String.ofList (quote :: w.flatMap (fun
    | .char c => escapeChar quote c
    | .half n => Point.escape n) ++ [quote])

/-- Applies a function to each run of characters; `before` holds those just passed, last one first.
-/
def mapRunsFrom (f : String → String) (before : List Char) : Wide → Wide
  | [] => ofString (f (String.ofList before.reverse))
  | .char c :: rest => mapRunsFrom f (c :: before) rest
  | .half n :: rest =>
    ofString (f (String.ofList before.reverse)) ++ .half n :: mapRunsFrom f [] rest

def mapRuns (f : String → String) (w : Wide) : Wide := mapRunsFrom f [] w

def trimStart (w : Wide) : Wide := w.dropWhile Point.isBlank

def trimEnd (w : Wide) : Wide := (w.reverse.dropWhile Point.isBlank).reverse

end Wide

end OperationHooks.Text
