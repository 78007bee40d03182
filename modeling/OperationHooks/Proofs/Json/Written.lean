import OperationHooks.Json

set_option autoImplicit false

namespace OperationHooks.Json

/-- White space between the pieces of a document. -/
structure Gap where
  chars : List Char
  blank : chars.all isSpace = true

inductive Word where
  | null
  | yes
  | no

def Word.text : Word → List Char
  | .null => ['n','u','l','l']
  | .yes => ['t','r','u','e']
  | .no => ['f','a','l','s','e']

def Word.datum : Word → Datum
  | .null => .null
  | .yes => .boolean true
  | .no => .boolean false

structure Exponent where
  capital : Bool
  sign : Option Bool
  digits : List Char
  some_digits : digits ≠ []
  all_digits : digits.all Decimal.isDigit = true

def signText : Option Bool → List Char
  | none => []
  | some true => ['-']
  | some false => ['+']

def Exponent.mark (e : Exponent) : Char := if e.capital then 'E' else 'e'

def Exponent.text (e : Exponent) : List Char := e.mark :: (signText e.sign ++ e.digits)

def Exponent.value (e : Exponent) : Int :=
  Decimal.signed (e.sign == some true) (Decimal.naturalD e.digits)

/-- A number without needless zeros in front. No digits behind the point mean that there is no
point. -/
structure Numeral where
  negative : Bool
  whole : List Char
  fraction : List Char
  exponent : Option Exponent
  some_whole : whole ≠ []
  all_whole : whole.all Decimal.isDigit = true
  whole_zero : whole.head? = some '0' → whole = ['0']
  all_fraction : fraction.all Decimal.isDigit = true

namespace Numeral

def fractionText (fraction : List Char) : List Char :=
  if fraction.isEmpty then [] else '.' :: fraction

def exponentText (e : Option Exponent) : List Char := e.elim [] Exponent.text

/-- A number without its minus. -/
def body (n : Numeral) : List Char := n.whole ++ fractionText n.fraction ++ exponentText n.exponent

def text (n : Numeral) : List Char := if n.negative then '-' :: n.body else n.body

def isInteger (n : Numeral) : Bool := n.fraction.isEmpty && n.exponent.isNone

/-- The digits of a number, as if it had no point. -/
def mantissa (n : Numeral) : Nat := Decimal.naturalD (n.whole ++ n.fraction)

def scale (n : Numeral) : Int := (n.exponent.map Exponent.value).getD 0 - n.fraction.length

def datum (n : Numeral) : Datum :=
  if n.isInteger then .integer (Decimal.signed n.negative (Decimal.naturalD n.whole))
  else .real (Binary64.ofDecimal n.negative n.mantissa n.scale)

end Numeral

def shortEscapes : List (Char × Char) :=
  [('"','"'),('\\','\\'),('/','/'),('b','\x08'),('f','\x0c'),('n','\n'),('r','\r'),('t','\t')]

def isRaw (c : Char) : Bool := c != '"' && c != '\\' && decide (32 ≤ c.toNat)

/-- A piece of a string: a character that stands for itself, or an escape. -/
inductive Part where
  | raw (c : Char) (h : isRaw c = true)
  | short (mark value : Char) (h : (mark,value) ∈ shortEscapes)
  | unicode (digits : List Char) (code : Nat) (hlen : digits.length = 4)
      (h : Decimal.natural? 16 digits = some code)

namespace Part

def text : Part → List Char
  | .raw c _ => [c]
  | .short mark _ _ => ['\\',mark]
  | .unicode digits _ _ _ => '\\' :: 'u' :: digits

def isHigh (n : Nat) : Bool := 0xD800 ≤ n && n < 0xDC00
def isLow (n : Nat) : Bool := 0xDC00 ≤ n && n < 0xE000
def isSurrogate (n : Nat) : Bool := 0xD800 ≤ n && n < 0xE000

def pair (high low : Nat) : Char := Char.ofNat (0x10000 + (high - 0xD800) * 0x400 + (low - 0xDC00))

/-- A part taken for itself: half of a pair is replaced. -/
def char : Part → Char
  | .raw c _ => c
  | .short _ value _ => value
  | .unicode _ code _ _ => if isSurrogate code then '\uFFFD' else Char.ofNat code

def code? : Part → Option Nat
  | .unicode _ code _ _ => some code
  | _ => none

end Part

/-- Two parts in a row that are one character. -/
def joined? (p q : Part) : Option Char := do
  let high ← p.code?
  let low ← q.code?
  if Part.isHigh high && Part.isLow low then some (Part.pair high low) else none

abbrev Quotation := List Part

namespace Quotation

/-- The characters of a string; the two halves of a pair are one. -/
def chars : Quotation → List Char
  | [] => []
  | [p] => [p.char]
  | p :: q :: rest =>
    match joined? p q with
    | some c => c :: chars rest
    | none => p.char :: chars (q :: rest)

def inner (q : Quotation) : List Char := q.flatMap Part.text

def text (q : Quotation) : List Char := '"' :: (inner q ++ ['"'])

def value (q : Quotation) : String := String.ofList (chars q)

end Quotation

/-- The key of an entry with the gaps around it, the last of them behind the colon. -/
structure Label where
  before : Gap
  key : Quotation
  behindKey : Gap
  behindColon : Gap

mutual

inductive Written where
  | word (w : Word)
  | number (n : Numeral)
  | quoted (q : Quotation)
  | emptyList (gap : Gap)
  | list (items : Items)
  | emptyTable (gap : Gap)
  | table (entries : Entries)

inductive Items where
  | last (before : Gap) (item : Written) (after : Gap)
  | more (before : Gap) (item : Written) (after : Gap) (rest : Items)

inductive Entries where
  | last (label : Label) (value : Written) (after : Gap)
  | more (label : Label) (value : Written) (after : Gap) (rest : Entries)

end

/-- A label with its gaps spelled in some way. -/
def Label.spell (f : Gap → List Char) (l : Label) : List Char :=
  f l.before ++ Quotation.text l.key ++ f l.behindKey ++ ':' :: f l.behindColon

mutual

/-- What is written, with its gaps spelled in some way. -/
def Written.spell (f : Gap → List Char) : Written → List Char
  | .word w => w.text
  | .number n => n.text
  | .quoted q => Quotation.text q
  | .emptyList gap => '[' :: (f gap ++ [']'])
  | .list items => '[' :: items.spell f
  | .emptyTable gap => '{' :: (f gap ++ ['}'])
  | .table entries => '{' :: entries.spell f

def Items.spell (f : Gap → List Char) : Items → List Char
  | .last before item after => f before ++ item.spell f ++ f after ++ [']']
  | .more before item after rest => f before ++ item.spell f ++ f after ++ ',' :: rest.spell f

def Entries.spell (f : Gap → List Char) : Entries → List Char
  | .last label value after => label.spell f ++ value.spell f ++ f after ++ ['}']
  | .more label value after rest => label.spell f ++ value.spell f ++ f after ++ ',' :: rest.spell f

end

mutual

def Written.datum : Written → Datum
  | .word w => w.datum
  | .number n => n.datum
  | .quoted q => .text (Quotation.value q)
  | .emptyList _ => .list []
  | .list items => .list items.data
  | .emptyTable _ => .table []
  | .table entries => .table entries.data

def Items.data : Items → List Datum
  | .last _ item _ => [item.datum]
  | .more _ item _ rest => item.datum :: rest.data

def Entries.data : Entries → List (Datum × Datum)
  | .last label value _ => [(.text (Quotation.value label.key),value.datum)]
  | .more label value _ rest => (.text (Quotation.value label.key),value.datum) :: rest.data

end

/-- A value with the white space around it. -/
structure Document where
  before : Gap
  value : Written
  after : Gap

def Document.spell (f : Gap → List Char) (w : Document) : List Char :=
  f w.before ++ w.value.spell f ++ f w.after

def Document.text (w : Document) : List Char := w.spell Gap.chars

end OperationHooks.Json
