import OperationHooks.Shell.Syntax
import OperationHooks.Number.Decimal

set_option autoImplicit false

namespace OperationHooks.Shell

def octet (n : Nat) : Char := Char.ofNat (n % 256)

def formatEscape (cs : Octets) : Option (Char × Nat) :=
  match cs with
  | 'a' :: _ => some ('\x07', 1)
  | 'b' :: _ => some ('\x08', 1)
  | 'e' :: _ => some ('\x1b', 1)
  | 'f' :: _ => some ('\x0c', 1)
  | 'n' :: _ => some ('\n', 1)
  | 'r' :: _ => some ('\r', 1)
  | 't' :: _ => some ('\t', 1)
  | 'v' :: _ => some ('\x0b', 1)
  | '\\' :: _ => some ('\\', 1)
  | cs =>
    let digits := (cs.take 3).takeWhile fun c => '0' ≤ c && c ≤ '7'
    match Decimal.natural? 8 digits with
    | some n => if digits.isEmpty then none else some (octet n, digits.length)
    | none => none

def wordEscape (cs : Octets) : Option (Char × Nat) :=
  match cs with
  | '0' :: rest =>
    let digits := (rest.take 3).takeWhile fun c => '0' ≤ c && c ≤ '7'
    some (octet ((Decimal.natural? 8 digits).getD 0), digits.length + 1)
  | cs => formatEscape cs

/-- A word with its escapes resolved, and whether it asks for an end of all printing. -/
def unescaped (skip : Nat) : Octets → Octets × Bool
  | [] => ([], false)
  | c :: rest =>
    match skip with
    | skip + 1 => unescaped skip rest
    | 0 =>
      if c == '\\' then
        if rest.head? == some 'c' then ([], true)
        else
          match wordEscape rest with
          | some (value, width) =>
            let (more, stops) := unescaped width rest
            (value :: more, stops)
          | none =>
            let (more, stops) := unescaped 0 rest
            (c :: more, stops)
      else
        let (more, stops) := unescaped 0 rest
        (c :: more, stops)

/-- The words with blanks between them and a line end, which can be left out. Each word is printed
up to where it asks for an end. -/
def echoed (words : List Octets) : Octets :=
  let (words, endsLine) := match words with
    | ['-', 'n'] :: rest => (rest, false)
    | words => (words, true)
  let rec go : List Octets → Octets
    | [] => if endsLine then ['\n'] else []
    | w :: rest =>
      match unescaped 0 w with
      | (text, true) => text
      | (text, false) => text ++ (if rest.isEmpty then [] else [' ']) ++ go rest
  go words

def wrapped (n : Int) : Int := Int.bmod n (Nat.pow 2 64)

def baseOf : Octets → Nat × Octets
  | '0' :: 'x' :: rest => (16, rest)
  | '0' :: 'X' :: rest => (16, rest)
  | '0' :: rest => (8, '0' :: rest)
  | cs => (10, cs)

def leadingNumber (cs : Octets) : Option (Int × Octets) :=
  let cs := cs.dropWhile fun c => c == ' ' || ('\t' ≤ c && c ≤ '\r')
  let (negative, unsigned) := Decimal.splitSign cs
  let (base, digits) := baseOf unsigned
  let run := digits.takeWhile fun c => (Decimal.digitValue? base c).isSome
  if run.isEmpty then none
  else
    let n : Int := (Decimal.natural? base run).getD 0
    let n := if negative then -n else n
    some (max (-(Int.pow 2 63)) (min (Int.pow 2 63 - 1) n), digits.drop run.length)

inductive NumberFault where
  | noNumber
  | notAll

/-- A number as an argument: nothing counts as zero, a quote stands before the code of a character,
and of anything else the part that is a number counts. -/
def argumentNumber (cs : Octets) : Int × Option NumberFault :=
  match cs with
  | [] => (0, none)
  | '\'' :: rest | '"' :: rest => ((rest.head?.map fun c => (c.toNat : Int)).getD 0, none)
  | cs =>
    match leadingNumber cs with
    | none => (0, some .noNumber)
    | some (n, []) => (n, none)
    | some (n, _) => (n, some .notAll)

def digitsIn (base : Nat) (capitals : Bool) (n : Nat) : Octets :=
  (Nat.toDigits base n).map fun c => if capitals then c.toUpper else c

structure Directive where
  left : Bool
  plus : Bool
  space : Bool
  zero : Bool
  alternate : Bool
  width : Nat
  precision : Option Nat

def Directive.pad (d : Directive) (text : Octets) : Octets :=
  let blanks := List.replicate (d.width - text.length) ' '
  if d.left then text ++ blanks else blanks ++ text

def Directive.padNumber (d : Directive) (sign digits : Octets) : Octets :=
  let digits := List.replicate (d.precision.getD 1 - digits.length) '0' ++ digits
  if d.zero && !d.left && d.precision.isNone then
    sign ++ List.replicate (d.width - sign.length - digits.length) '0' ++ digits
  else d.pad (sign ++ digits)

def Directive.signed (d : Directive) (n : Int) : Octets :=
  let sign := if n < 0 then ['-'] else if d.plus then ['+'] else if d.space then [' '] else []
  d.padNumber sign (if n = 0 && d.precision == some 0 then [] else digitsIn 10 false n.natAbs)

def Directive.unsigned (d : Directive) (base : Nat) (capitals : Bool) (n : Int) : Octets :=
  let n := (n % (Int.pow 2 64)).toNat
  let mark := if d.alternate && n != 0 then
      (if base = 16 then (if capitals then ['0', 'X'] else ['0', 'x']) else if base = 8
        then ['0'] else [])
    else []
  d.padNumber mark (if n = 0 && d.precision == some 0 then [] else digitsIn base capitals n)

/-- What a format prints, its complaints, whether one of them ends it, and the arguments left. -/
structure Formatted where
  output : Octets
  complaints : List Octets
  broken : Bool
  stops : Bool
  args : List Octets

def Formatted.also (text : Octets) (f : Formatted) : Formatted :=
  { f with output := text ++ f.output }

def Formatted.complain (text : Octets) (f : Formatted) : Formatted :=
  { f with complaints := text :: f.complaints }

def flagsOf (cs : Octets) : Octets := cs.takeWhile fun c => ['-', '+', ' ', '0', '#'].contains c

/-- A width or precision at the front of a text: its digits, or the next argument for a star. -/
def measure (cs : Octets) (args : List Octets) : Option Int × Octets × List Octets :=
  match cs with
  | '*' :: rest => (some (args.head?.elim 0 fun a => (argumentNumber a).1), rest, args.drop 1)
  | cs =>
    let digits := cs.takeWhile Decimal.isDigit
    (if digits.isEmpty then none else some (Decimal.naturalD digits), cs.drop digits.length, args)

def directive (cs : Octets) (args : List Octets) : Directive × Octets × List Octets :=
  let flags := flagsOf cs
  let (width, rest, args) := measure (cs.drop flags.length) args
  let (precision, rest, args) := match rest with
    | '.' :: more =>
      let (p, rest, args) := measure more args
      (some (p.getD 0), rest, args)
    | rest => (none, rest, args)
  let width := width.getD 0
  (⟨flags.contains '-' || width < 0, flags.contains '+', flags.contains ' ', flags.contains '0',
    flags.contains '#', width.natAbs, precision.bind fun p => if p < 0 then none else some p.toNat⟩,
   rest, args)

def numberComplaint (arg : Octets) : NumberFault → Octets
  | .noNumber => arg ++ ": expected numeric value".toList
  | .notAll => arg ++ ": not completely converted".toList

def formatOnce : Nat → Octets → List Octets → Formatted
  | 0, _, args => ⟨[], [], false, false, args⟩
  | fuel + 1, cs, args =>
    match cs with
    | [] => ⟨[], [], false, false, args⟩
    | '\\' :: rest =>
      match formatEscape rest with
      | some (value, width) => (formatOnce fuel (rest.drop width) args).also [value]
      | none => (formatOnce fuel rest args).also ['\\']
    | '%' :: '%' :: rest => (formatOnce fuel rest args).also ['%']
    | '%' :: rest =>
      let (d, rest, args) := directive rest args
      let arg := args.headD []
      let number (print : Int → Octets) (rest : Octets) : Formatted :=
        let (n, fault) := argumentNumber arg
        let more := (formatOnce fuel rest (args.drop 1)).also (print n)
        match fault with
        | none => more
        | some fault => more.complain (numberComplaint arg fault)
      let cut (text : Octets) := d.pad (d.precision.elim text text.take)
      match rest with
      | 's' :: rest => (formatOnce fuel rest (args.drop 1)).also (cut arg)
      | 'c' :: rest => (formatOnce fuel rest (args.drop 1)).also
        (d.pad (if arg.isEmpty then ['\x00'] else arg.take 1))
      | 'b' :: rest =>
        match unescaped 0 arg with
        | (text, true) => ⟨cut text, [], false, true, []⟩
        | (text, false) => (formatOnce fuel rest (args.drop 1)).also (cut text)
      | 'd' :: rest => number d.signed rest
      | 'i' :: rest => number d.signed rest
      | 'u' :: rest => number (d.unsigned 10 false) rest
      | 'o' :: rest => number (d.unsigned 8 false) rest
      | 'x' :: rest => number (d.unsigned 16 false) rest
      | 'X' :: rest => number (d.unsigned 16 true) rest
      | c :: _ => ⟨[], ["%".toList ++ [c] ++ ": invalid directive".toList], true, true, []⟩
      | [] => ⟨[], ["missing format character".toList], true, true, []⟩
    | c :: rest => (formatOnce fuel rest args).also [c]

def formatted (format : Octets) : Nat → List Octets → Formatted
  | 0, args => formatOnce (format.length + 1) format args
  | fuel + 1, args =>
    let once := formatOnce (format.length + 1) format args
    if once.stops || once.args.isEmpty || once.args.length = args.length then once
    else
      let more := formatted format fuel once.args
      { more with
        output := once.output ++ more.output
        complaints := once.complaints ++ more.complaints }

end OperationHooks.Shell
