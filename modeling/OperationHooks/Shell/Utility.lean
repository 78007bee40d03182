import OperationHooks.Shell.Pattern
import OperationHooks.Shell.Printing
import OperationHooks.Text.Split
import OperationHooks.Text.Utf8
/-!
Programs that come with the system: each takes options, operands and an input, and gives what it
prints on either channel, its status, and what it leaves of the input.
-/
set_option autoImplicit false

namespace OperationHooks.Shell

structure Result where
  output : Octets := []
  errors : Octets := []
  status : Nat := 0
  input : Octets := []
  written : List (Octets × Bool × Octets) := []

/-- What a program can see: the name it was called by, its operands, its input, the files, and the
names in directories. -/
structure Call where
  name : String
  args : List Octets
  input : Octets
  read : Octets → Except String Octets
  names : Octets → List Octets

abbrev Utility := Call → Result

def octets (s : String) : Octets := (Text.encode s).map fun b => Char.ofNat b.toNat

def shown (cs : Octets) : String := String.ofList cs

/-- Quotation marks of messages. -/
def curly (cs : Octets) : Octets := octets "‘" ++ cs ++ octets "’"

def quotes (s : String) : Octets := '\'' :: s.toList ++ ['\'']

structure Options where
  flags : List (Char × Octets) := []
  operands : List Octets := []

def Options.has (o : Options) (c : Char) : Bool := o.flags.any (·.1 == c)

def Options.values (o : Options) (c : Char) : List Octets :=
  (o.flags.filter (·.1 == c)).map (·.2)

def Options.value? (o : Options) (c : Char) : Option Octets := (o.values c).getLast?

inductive OptionFault where
  | unknown (c : Char)
  | unknownLong (text : Octets)
  | valueMissing (c : Char)

def shortOptions (plain valued : List Char) (next : List Octets) :
    Octets → Except OptionFault (List (Char × Octets) × List Octets)
  | [] => .ok ([], next)
  | c :: rest =>
    if valued.contains c then
      match rest, next with
      | [], value :: left => .ok ([(c, value)], left)
      | [], [] => .error (.valueMissing c)
      | rest, next => .ok ([(c, rest)], next)
    else if plain.contains c then
      (shortOptions plain valued next rest).map fun (flags, left) => ((c, []) :: flags, left)
    else .error (.unknown c)

def readOptions (plain valued : List Char) : Nat → List Octets → Except OptionFault Options
  | 0, operands => .ok { operands }
  | _, [] => .ok {}
  | fuel + 1, arg :: rest => do
    match arg with
    | ['-', '-'] => return { operands := rest }
    | '-' :: '-' :: _ => throw (.unknownLong arg)
    | '-' :: c :: more =>
      let (flags, left) ← shortOptions plain valued rest (c :: more)
      let o ← readOptions plain valued fuel left
      return { o with flags := flags ++ o.flags }
    | operand =>
      let o ← readOptions plain valued fuel rest
      return { o with operands := operand :: o.operands }

def tryHelp (name : String) : Octets := octets s!"Try '{name} --help' for more information.\n"

def complaint (name : String) (text : Octets) : Octets := octets (name ++ ": ") ++ text ++ ['\n']

def OptionFault.text : OptionFault → Octets
  | .unknown c => "invalid option -- ".toList ++ ['\'', c, '\'']
  | .unknownLong text => "unrecognized option ".toList ++ '\'' :: text ++ ['\'']
  | .valueMissing c => "option requires an argument -- ".toList ++ ['\'', c, '\'']

def refused (c : Call) (status : Nat) (text : Octets) : Result :=
  { errors := complaint c.name text ++ tryHelp c.name, status, input := c.input }

def withOptions (plain valued : String) (status : Nat) (run : Options → Utility) :
    Utility := fun c =>
  match readOptions plain.toList valued.toList (c.args.length + 1) c.args with
  | .ok o => run o c
  | .error fault => refused c status fault.text

def optionsFirst (u : Utility) : Utility := fun c =>
  let isOption (arg : Octets) : Bool := arg.head? == some '-' && arg.length > 1
  let front := c.args.takeWhile fun arg => isOption arg && arg != ['-', '-']
  match c.args.drop front.length with
  | ['-', '-'] :: _ => u c
  | operands => u { c with args := front ++ ['-', '-'] :: operands }

def linesOf : Octets → List Octets
  | [] => []
  | c :: rest =>
    match c, linesOf rest with
    | '\n', lines => ['\n'] :: lines
    | c, [] => [[c]]
    | c, line :: lines => (c :: line) :: lines

def withoutEnd (line : Octets) : Octets :=
  if line.getLast? == some '\n' then line.dropLast else line

/-- The texts of some files, a dash standing for the input, and complaints about those not read. -/
def readAll (c : Call) (names : List Octets) : List (Octets × Octets) × Octets × Octets :=
  (if names.isEmpty then [['-']] else names).foldl (fun (texts, errors, input) name =>
    if name == ['-'] then (texts ++ [(name, input)], errors, [])
    else
      match c.read name with
      | .ok text => (texts ++ [(name, text)], errors, input)
      | .error why => (texts, errors ++ complaint c.name (name ++ octets s!": {why}"), input))
    ([], [], c.input)

def onText (status : Nat) (f : Octets → Octets) (names : List Octets) : Utility := fun c =>
  let (texts, errors, input) := readAll c names
  { output := f (texts.flatMap (·.2)), errors, status := if errors.isEmpty then
    0 else status, input }

def natural? (cs : Octets) : Option Nat :=
  if cs.isEmpty || !cs.all Decimal.isDigit then none else some (Decimal.naturalD cs)

def rightAligned (width : Nat) (text : Octets) : Octets :=
  List.replicate (width - text.length) ' ' ++ text

def number (n : Nat) : Octets := (toString n).toList

/-- Lines with blank repetitions left out, ends marked and numbers in front, as asked for. -/
def numberedFrom (o : Options) (n : Nat) (afterBlank : Bool) : List Octets → Octets
  | [] => []
  | line :: rest =>
    let blank := line == ['\n']
    if blank && afterBlank && o.has 's' then numberedFrom o n true rest
    else
      let counts := if o.has 'b' then !blank else o.has 'n'
      let text := if (o.has 'E' || o.has 'A' || o.has 'e') && line.getLast? == some '\n'
        then withoutEnd line ++ ['$', '\n'] else line
      let front := if counts then rightAligned 6 (number n) ++ ['\t'] else []
      front ++ text ++ numberedFrom o (if counts then n + 1 else n) blank rest

def cat : Utility := withOptions "nbsEAeuvtT" "" 1 fun o =>
  onText 1 (fun text => numberedFrom o 1 false (linesOf text)) o.operands

def tac : Utility := withOptions "" "" 1 fun o =>
  onText 1 (fun text => (linesOf text).reverse.flatten) o.operands

/-- A line from its end to its start, character by character. -/
def mirrored (line : Octets) : Octets :=
  match Text.decode (line.map fun c => c.toNat.toUInt8) with
  | .ok s => octets (String.ofList s.toList.reverse)
  | .error _ => line.reverse

def rev : Utility := withOptions "" "" 1 fun o =>
  onText 1 (fun text => (linesOf text).flatMap fun line =>
    mirrored (withoutEnd line) ++ (if line.getLast? == some '\n' then ['\n'] else [])) o.operands

/-- A count as an argument of a program that takes the start or the end of a text. -/
structure Extent where
  fromOther : Bool
  count : Nat

def extent? (sign : Char) (cs : Octets) : Option Extent :=
  match cs with
  | c :: rest =>
    if c == sign then (natural? rest).map (⟨true, ·⟩)
    else if c == '-' || c == '+' then (natural? rest).map (⟨false, ·⟩)
    else (natural? cs).map (⟨false, ·⟩)
  | [] => none

def oldCount (args : List Octets) : List Octets :=
  match args with
  | ('-' :: d :: rest) :: more =>
    if Decimal.isDigit d && rest.all Decimal.isDigit then
      ['-', 'n'] :: (d :: rest) :: more else args
  | _ => args

def headOf {α : Type} (e : Extent) (xs : List α) : List α :=
  if e.fromOther then xs.take (xs.length - e.count) else xs.take e.count

def tailOf {α : Type} (e : Extent) (xs : List α) : List α :=
  if e.fromOther then xs.drop (e.count - 1) else xs.drop (xs.length - e.count)

def partsOf (f : Octets → Octets) (texts : List (Octets × Octets)) (headings : Bool) : Octets :=
  let shownName (name : Octets) := if name == ['-'] then "standard input".toList else name
  ['\n'].intercalate (texts.map fun (name, text) =>
    (if headings then "==> ".toList ++ shownName name ++ " <==\n".toList else []) ++ f text)

/-- What a program that takes some of a text leaves of its input; `bytes` says what it counts. -/
def headLeaves (bytes : Bool) (e : Extent) (input : Octets) : Octets :=
  if e.fromOther then [] else if bytes then input.drop e.count else if e.count = 0
    then input else []

def part (sign : Char) (take : {α : Type} → Extent → List α → List α)
    (leaves : Bool → Extent → Octets → Octets) : Utility := fun c =>
  withOptions "qvz" "nc" 1 (fun o c =>
    let (texts, errors, input) := readAll c o.operands
    let headings := (o.operands.length > 1 && !o.has 'q') || o.has 'v'
    let found (bytes : Bool) (e : Extent) (f : Octets → Octets) : Result :=
      { output := partsOf f texts headings
        errors
        status := if errors.isEmpty then 0 else 1
        input := if input.isEmpty then leaves bytes e c.input else input }
    let invalid (unit : String) (text : Octets) : Result :=
      { errors := complaint c.name (octets s!"invalid number of {unit}: " ++ curly text)
        status := 1
        input := c.input }
    match o.value? 'c', o.value? 'n' with
    | some size, _ =>
      match extent? sign size with
      | some e => found true e (take e)
      | none => invalid "bytes" size
    | none, some count =>
      match extent? sign count with
      | some e => found false e fun text => (take e (linesOf text)).flatten
      | none => invalid "lines" count
    | none, none => found false ⟨false, 10⟩ fun text => (take ⟨false, 10⟩ (linesOf text)).flatten)
    { c with args := oldCount c.args }

def head : Utility := part '-' headOf headLeaves
def tail : Utility :=
  part '+' tailOf fun _ e input => if !e.fromOther && e.count = 0 then input else []

/-- Words: runs of characters between blanks. -/
def wordCount (inWord : Bool) : Octets → Nat
  | [] => 0
  | c :: rest =>
    let blank := c == ' ' || ('\t' ≤ c && c ≤ '\r')
    (if !blank && !inWord then 1 else 0) + wordCount (!blank) rest

def characterCount (text : Octets) : Nat :=
  text.countP fun c => !(0x80 ≤ c.toNat && c.toNat < 0xc0)

def longestLine (text : Octets) : Nat :=
  (linesOf text).foldl (fun n line => max n (characterCount (withoutEnd line))) 0

def countsOf (o : Options) (text : Octets) : List Nat :=
  let all := o.flags.isEmpty
  (if all || o.has 'l' then [text.count '\n'] else []) ++
    (if all || o.has 'w' then [wordCount false text] else []) ++
    (if o.has 'm' then [characterCount text] else []) ++
    (if all || o.has 'c' then [text.length] else []) ++
    (if o.has 'L' then [longestLine text] else [])

def countLine (width : Nat) (counts : List Nat) (name : Octets) : Octets :=
  [' '].intercalate (counts.map fun n => rightAligned width (number n)) ++
    (if name.isEmpty then [] else ' ' :: name) ++ ['\n']

def wc : Utility := withOptions "lwcmL" "" 1 fun o c =>
  let (texts, errors, input) := readAll c o.operands
  let counted := texts.map fun (name, text) => (name, countsOf o text)
  let several := o.operands.length > 1
  let single := !several && (counted.head?.elim 0 (·.2.length)) == 1
  let fromInput := texts.any fun (name, _) => name == ['-']
  let size := (texts.map (·.2.length)).foldl (· + ·) 0
  let width := if single then 1 else if fromInput then 7 else (number size).length
  let line (name : Octets) (counts : List Nat) := countLine width counts name
  let totals := (counted.map (·.2)).foldl (fun sums counts =>
    if sums.isEmpty then counts else List.zipWith (· + ·) sums counts) []
  { output :=
    counted.flatMap (fun (name, counts) => line (if o.operands.isEmpty then [] else name) counts)
      ++ (if several then line "total".toList totals else [])
    errors
    status := if errors.isEmpty then 0 else 1
    input }

def simpleEscape? : Char → Option Char
  | 'a' => some '\x07' | 'b' => some '\x08' | 'f' => some '\x0c' | 'n' => some '\n'
  | 'r' => some '\r' | 't' => some '\t' | 'v' => some '\x0b' | '\\' => some '\\'
  | _ => none

def setCharacter : Octets → Option (Char × Bool × Octets)
  | [] => none
  | '\\' :: rest =>
    let digits := (rest.take 3).takeWhile fun c => '0' ≤ c && c ≤ '7'
    match rest.head?.bind simpleEscape?, digits, rest with
    | some c, _, _ => some (c, true, rest.drop 1)
    | none, _ :: _, _ =>
      some (octet ((Decimal.natural? 8 digits).getD 0), true, rest.drop digits.length)
    | none, [], c :: more => some (c, true, more)
    | none, [], [] => some ('\\', false, [])
  | c :: rest => some (c, false, rest)

inductive SetFault where
  | reversed (low high : Char)

def allOctets : Octets := (List.range 256).map Char.ofNat

def setOf : Nat → Octets → Except SetFault Octets
  | 0, _ => .ok []
  | fuel + 1, cs => do
    match cs with
    | '[' :: ':' :: rest =>
      match className? rest with
      | some (name, left) => return allOctets.filter (isInClass name) ++ (← setOf fuel left)
      | none => return '[' :: (← setOf fuel (':' :: rest))
    | cs =>
      match setCharacter cs with
      | none => return []
      | some (low, _, '-' :: rest) =>
        match setCharacter rest with
        | none => return [low, '-']
        | some (high, _, left) =>
          if high < low then throw (.reversed low high)
          else
            let range := (List.range (high.toNat - low.toNat + 1)).map fun k =>
              octet (low.toNat + k)
            return range ++ (← setOf fuel left)
      | some (c, _, rest) => return c :: (← setOf fuel rest)

/-- Characters of the first set become those of the second, whose last one is used again. -/
def translated (first second : Octets) (c : Char) : Char :=
  match first.reverse.idxOf? c with
  | some k => (second[first.length - 1 - k]?).getD (second.getLastD c)
  | none => c

/-- Repetitions of a character of a set count once. -/
def squeezed (set : Octets) (last : Option Char) : Octets → Octets
  | [] => []
  | c :: rest =>
    if some c == last && set.contains c then squeezed set last rest
    else c :: squeezed set (some c) rest

def tr : Utility := optionsFirst <| withOptions "cCdst" "" 1 fun o c =>
  let said (text : Octets) : Result :=
    { errors := complaint c.name text, status := 1, input := c.input }
  let refuse (texts : List Octets) : Result :=
    { errors := (texts.flatMap fun t => t ++ ['\n']) ++ tryHelp c.name
      status := 1
      input := c.input }
  let named (text : Octets) : Octets := octets (c.name ++ ": ") ++ text
  let least := if o.has 'd' == o.has 's' then 2 else 1
  let most := if o.has 'd' && !o.has 's' then 1 else 2
  match o.operands with
  | [] => refuse [named "missing operand".toList]
  | operands =>
    if operands.length < least then
      refuse [named ("missing operand after ".toList ++ curly (operands.getLastD [])),
        if o.has 'd' then
          "Two strings must be given when both deleting and squeezing repeats.".toList
        else "Two strings must be given when translating.".toList]
    else if most < operands.length then
      let extra := named ("extra operand ".toList ++ curly (operands.getD most []))
      if operands.length == 2 then
        refuse [extra,
          "Only one string may be given when deleting without squeezing repeats.".toList]
      else refuse [extra]
    else
      match setOf 1000 (operands.getD 0 []), setOf 1000 (operands.getD 1 []) with
      | .error (.reversed low high), _ | _, .error (.reversed low high) =>
        said ("range-endpoints of '".toList ++ [low, '-', high] ++
          "' are in reverse collating sequence order".toList)
      | .ok first, .ok second =>
        let first := if o.has 'c' || o.has 'C' then allOctets.filter (!first.contains ·) else first
        let translates := operands.length == 2 && !o.has 'd'
        if translates && second.isEmpty && !o.has 't' then
          said "when not truncating set1, string2 must be non-empty".toList
        else
          let first := if o.has 't' && translates then first.take second.length else first
          let text := if o.has 'd' then c.input.filter (!first.contains ·)
            else if translates then c.input.map (translated first second) else c.input
          let set := if operands.length == 2 then second else first
          { output := if o.has 's' then squeezed set none text else text }

def lineNumber (line : Octets) : Int :=
  let cs := line.dropWhile fun c => c == ' ' || c == '\t'
  let (negative, unsigned) := match cs with
    | '-' :: rest => (true, rest)
    | cs => (false, cs)
  let whole := unsigned.takeWhile Decimal.isDigit
  let fraction := match unsigned.drop whole.length with
    | '.' :: rest => (rest.takeWhile Decimal.isDigit).take 6
    | _ => []
  let n : Int := Decimal.naturalD whole * 1000000 +
    Decimal.naturalD (fraction ++ List.replicate (6 - fraction.length) '0')
  if negative then -n else n

def lineLess (a b : Octets) : Bool := decide (a < b)

def keyLess (o : Options) (a b : Octets) : Bool :=
  if o.has 'n' then decide (lineNumber a < lineNumber b)
  else if o.has 'f' then lineLess (a.map Char.toUpper) (b.map Char.toUpper)
  else lineLess a b

def notAfter (o : Options) (a b : Octets) : Bool :=
  let (a, b) := if o.has 'r' then (b, a) else (a, b)
  if keyLess o a b then true
  else if keyLess o b a then false
  else o.has 's' || o.has 'u' || !lineLess b a

def firstOfEach (o : Options) : List Octets → List Octets
  | a :: b :: rest =>
    if !keyLess o a b && !keyLess o b a then firstOfEach o (a :: rest) else
      a :: firstOfEach o (b :: rest)
  | lines => lines
termination_by lines => lines.length

def sort : Utility := withOptions "rnufs" "" 2 fun o =>
  onText 2 (fun text =>
    let lines := ((linesOf text).map withoutEnd).mergeSort (notAfter o)
    (if o.has 'u' then firstOfEach o lines else lines).flatMap (· ++ ['\n'])) o.operands

def runsOf (folds : Bool) : List Octets → List (Octets × Nat)
  | [] => []
  | line :: rest =>
    let key (l : Octets) := if folds then l.map Char.toLower else l
    match runsOf folds rest with
    | (other, n) :: more =>
      if key line == key other then (line, n + 1) :: more else (line, 1) :: (other, n) :: more
    | [] => [(line, 1)]

def uniq : Utility := withOptions "cdui" "" 1 fun o =>
  onText 1 (fun text =>
    let runs := runsOf (o.has 'i') ((linesOf text).map withoutEnd)
    let kept := runs.filter fun (_, n) => (!o.has 'd' || n > 1) && (!o.has 'u' || n == 1)
    kept.flatMap fun (line, n) =>
      (if o.has 'c' then rightAligned 7 (number n) ++ [' '] else []) ++ line ++ ['\n']) o.operands

def ranges? (cs : Octets) : Option (List (Nat × Option Nat)) :=
  (Text.splitAt ',' cs).mapM fun r =>
    match Text.splitAt '-' r with
    | [one] => (natural? one).map fun n => (n, some n)
    | [low, high] =>
      let low? := if low.isEmpty then some 1 else natural? low
      let high? := if high.isEmpty then some none else (natural? high).map some
      low?.bind fun l => high?.map fun h => (l, h)
    | _ => none

def inRanges (rs : List (Nat × Option Nat)) (k : Nat) : Bool :=
  rs.any fun (low, high) => low ≤ k && high.all (k ≤ ·)

def selected {α : Type} (rs : List (Nat × Option Nat)) (xs : List α) : List α :=
  ((xs.zip (List.range xs.length)).filter fun (_, k) => inRanges rs (k + 1)).map (·.1)

def cut : Utility := withOptions "s" "bcfd" 1 fun o c =>
  let delimiter := ((o.value? 'd').bind (·.head?)).getD '\t'
  let list? := (o.value? 'b' <|> o.value? 'c' <|> o.value? 'f')
  match list?, list?.bind ranges? with
  | none, _ =>
    refused c 1 "you must specify a list of bytes, characters, or fields".toList
  | some list, none => refused c 1 ("invalid field value ".toList ++ curly list)
  | some _, some rs =>
    onText 1 (fun text => (linesOf text).flatMap fun line =>
      let line := withoutEnd line
      if (o.value? 'f').isSome then
        match Text.splitAt delimiter line with
        | [_] => if o.has 's' then [] else line ++ ['\n']
        | parts => [delimiter].intercalate (selected rs parts) ++ ['\n']
      else selected rs line ++ ['\n']) o.operands c

/-- A text without what it ends with, as long as something is left. -/
def withoutSuffix (text suffix : Octets) : Octets :=
  if suffix.isSuffixOf text && suffix.length < text.length then
    text.take (text.length - suffix.length)
  else text

def withoutSlashes (path : Octets) : Octets :=
  (path.reverse.dropWhile (· == '/')).reverse

def lastPart (path : Octets) : Octets :=
  let path' := withoutSlashes path
  if path'.isEmpty then path.take 1 else (path'.reverse.takeWhile (· != '/')).reverse

def parentPart (path : Octets) : Octets :=
  let path' := withoutSlashes path
  if path'.isEmpty then (if path.isEmpty then ['.'] else ['/'])
  else
    let front := path'.take (path'.length - (lastPart path').length)
    if front.isEmpty then ['.'] else
      let trimmed := withoutSlashes front
      if trimmed.isEmpty then ['/'] else trimmed

def missingOperand (c : Call) : Result := refused c 1 "missing operand".toList

def basename : Utility := withOptions "" "" 1 fun o c =>
  match o.operands with
  | [path] => { output := lastPart path ++ ['\n'], input := c.input }
  | [path, suffix] => { output := withoutSuffix (lastPart path) suffix ++ ['\n'], input := c.input }
  | [] => missingOperand c
  | _ :: _ :: extra :: _ => refused c 1 ("extra operand ".toList ++ curly extra)

def dirname : Utility := withOptions "" "" 1 fun o c =>
  match o.operands with
  | [] => missingOperand c
  | paths => { output := paths.flatMap fun p => parentPart p ++ ['\n'], input := c.input }

def integerText? (cs : Octets) : Option Int :=
  let (negative, digits) := Decimal.splitSign cs
  (natural? digits).map fun n => if negative then -(n : Int) else n

def countTo (first step last : Int) : Octets :=
  if step = 0 then []
  else
    let count := ((last - first).tdiv step + 1).toNat
    if (0 < step && last < first) || (step < 0 && first < last) then []
    else (List.range count).flatMap fun (k : Nat) => (toString (first + step * k)).toList ++ ['\n']

/-- Options are words behind two dashes; a number may have one in front. -/
def unknownWord? (args : List Octets) : Option OptionFault :=
  match args with
  | arg@('-' :: '-' :: _ :: _) :: _ => some (.unknownLong arg)
  | _ => none

def seq : Utility := fun c =>
  match c.args.mapM integerText? with
  | none =>
    match unknownWord? c.args with
    | some fault => refused c 1 fault.text
    | none => refused c 1 ("invalid floating point argument: ".toList ++ curly (c.args.headD []))
  | some [last] => { output := countTo 1 1 last, input := c.input }
  | some [first, last] => { output := countTo first 1 last, input := c.input }
  | some [first, step, last] => { output := countTo first step last, input := c.input }
  | some [] => missingOperand c
  | some (_ :: _ :: _ :: extra :: _) =>
    refused c 1 ("extra operand ".toList ++ curly (number extra.toNat))

def sleep : Utility := withOptions "" "" 1 fun o c =>
  if o.operands.isEmpty then missingOperand c
  else
    match o.operands.filter fun text =>
        !(text.any Decimal.isDigit && text.all fun d => Decimal.isDigit d ||
          ".smhd".toList.contains d) with
    | [] => { input := c.input }
    | wrong =>
      { errors := (wrong.flatMap fun text =>
          complaint c.name ("invalid time interval ".toList ++ curly text)) ++ tryHelp c.name
        status := 1
        input := c.input }

def listed (o : Options) (c : Call) (path : Octets) : Except Octets (List Octets) :=
  match c.read path with
  | .ok _ => .ok [path]
  | .error "Is a directory" =>
    .ok ((c.names path).filter fun name => o.has 'a' || o.has 'A' || name.head? != some '.')
  | .error why =>
    .error (complaint c.name ("cannot access '".toList ++ path ++ octets s!"': {why}"))

/-- Lists the present directory or the paths given, a name on each line. -/
def ls : Utility := withOptions "1aA" "" 2 fun o c =>
  (if o.operands.isEmpty then [['.']] else o.operands).foldl (fun (r : Result) path =>
    match listed o c path with
    | .ok names => { r with output := r.output ++ names.flatMap (· ++ ['\n']) }
    | .error text => { r with errors := r.errors ++ text, status := 2 })
    { input := c.input }

def tee : Utility := withOptions "ai" "" 1 fun o c =>
  { output := c.input, written := o.operands.map fun name => (name, o.has 'a', c.input) }

/-- Words as they are, unless escapes are asked for. -/
def plainEcho : Utility := fun c =>
  let isFlag (a : Octets) : Bool :=
    match a with
    | '-' :: d :: rest => (d :: rest).all fun f => f == 'n' || f == 'e' || f == 'E'
    | _ => false
  let flags := (c.args.takeWhile isFlag).flatMap (·.drop 1)
  let words := c.args.dropWhile isFlag
  let escapes := (flags.filter fun f => f == 'e' || f == 'E').getLast? == some 'e'
  let text := [' '].intercalate words
  let (text, stops) := if escapes then unescaped 0 text else (text, false)
  { output := text ++ (if flags.contains 'n' || stops then [] else ['\n']), input := c.input }

end OperationHooks.Shell
