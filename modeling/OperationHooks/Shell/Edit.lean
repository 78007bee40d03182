import OperationHooks.Shell.Regex
import OperationHooks.Shell.Utility

set_option autoImplicit false

namespace OperationHooks.Shell

def isWordChar (c : Char) : Bool := c == '_' || c.isAlphanum

def acceptsMatch (o : Options) (m : Regex.Match) : Bool :=
  (!o.has 'x' || m.before.isEmpty && m.rest.isEmpty) &&
    (!o.has 'w' || !(m.before.head?.any isWordChar) && !(m.rest.head?.any isWordChar))

def anchored (o : Options) (r : Regex) : Regex :=
  if o.has 'x' then .seq .lineStart (.seq r .lineEnd) else r

def plainRegex (cs : Octets) : Regex := cs.foldr (fun c r => .seq (Regex.quoted c) r) .empty

def lineMatches (o : Options) (rs : List Regex) (line : Octets) : Bool :=
  rs.any fun r => (Regex.find? (o.has 'i') (anchored o r) [] line).any (acceptsMatch o)

def matchedParts (folds : Bool) (r : Regex) : Nat → Octets → Octets → List Octets
  | 0, _, _ => []
  | fuel + 1, before, line =>
    match Regex.find? folds r before line with
    | none => []
    | some m =>
      let left := m.rest
      if m.text.isEmpty then
        match left with
        | [] => []
        | c :: rest => matchedParts folds r fuel (c :: m.before) rest
      else m.text :: matchedParts folds r fuel (m.text.reverse ++ m.before) left

def grepUsage (c : Call) : Result :=
  { errors := octets s!"Usage: {c.name} [OPTION]... PATTERNS [FILE]...\n" ++ tryHelp c.name
    status := 2
    input := c.input }

/-- What is printed for a file, and whether a line was found. -/
def grepText (o : Options) (rs : List Regex) (label text : Octets) : Octets × Bool :=
  let lines := (linesOf text).map withoutEnd
  let found := (lines.zip (List.range lines.length)).filter fun (line, _) =>
    lineMatches o rs line != o.has 'v'
  let found := match (o.value? 'm').bind natural? with
    | some n => found.take n
    | none => found
  let front (k : Nat) : Octets :=
    (if label.isEmpty then [] else label ++ [':']) ++ (if o.has 'n' then
      number (k + 1) ++ [':'] else [])
  let output :=
    if o.has 'q' then []
    else if o.has 'c' then
      (if label.isEmpty then [] else label ++ [':']) ++ number found.length ++ ['\n']
    else if o.has 'o' then
      if o.has 'v' then []
      else found.flatMap fun (line, k) =>
        (rs.flatMap fun r => matchedParts (o.has 'i') r (line.length + 1) [] line).flatMap
          fun part =>
          front k ++ part ++ ['\n']
    else found.flatMap fun (line, k) => front k ++ line ++ ['\n']
  (output, !found.isEmpty)

def grep : Utility := fun c =>
  match readOptions "vcniqEFGowxhHs".toList "em".toList (c.args.length + 1) c.args with
  | .error fault =>
    let usage := grepUsage c
    { usage with errors := complaint c.name fault.text ++ usage.errors }
  | .ok o =>
    let (patterns, names) := match o.values 'e' with
      | [] => (o.operands.take 1, o.operands.drop 1)
      | patterns => (patterns, o.operands)
    if patterns.isEmpty then grepUsage c
    else
      let patterns := patterns.flatMap (Text.splitAt '\n')
      let compiled := if o.has 'F' then some (patterns.map plainRegex)
        else patterns.mapM (Regex.parse? (o.has 'E'))
      match compiled with
      | none =>
        { errors := complaint c.name "Unmatched [, [^, [:, [., or [=".toList
          status := 2, input := c.input }
      | some rs =>
        let (texts, errors, input) := readAll c names
        let labels := (names.length > 1 || o.has 'H') && !o.has 'h'
        let results := texts.map fun (name, text) =>
          let label := if name == ['-'] then "(standard input)".toList else name
          grepText o rs (if labels then label else []) text
        let found := results.any (·.2)
        { output := results.flatMap (·.1)
          errors
          status := if !errors.isEmpty && !(o.has 'q' && found) then 2 else if found then 0 else 1
          input }

namespace Edit

inductive Address where
  | line (n : Nat)
  | last
  | pattern (r : Regex)

inductive Replacement where
  | text (cs : Octets)
  | group (n : Nat)

inductive Action where
  | substitute (r : Regex) (folds : Bool) (parts : List Replacement)
    (every prints : Bool) (nth : Nat)
  | translate (first second : Octets)
  | delete
  | deleteFirst
  | print
  | printFirst
  | quit
  | quitSilently
  | append (text : Octets)
  | insert (text : Octets)
  | change (text : Octets)
  | showNumber
  | next
  | appendNext
  | hold
  | holdMore
  | recall
  | recallMore
  | exchange

structure Command where
  first : Option Address
  second : Option Address
  inverted : Bool
  action : Action

def upTo (separator : Char) (inSet : Bool) : Octets → Option (Octets × Octets)
  | [] => none
  | '\\' :: c :: rest =>
    (upTo separator inSet rest).map fun (text, left) =>
      (if c == separator then c :: text else '\\' :: c :: text, left)
  | c :: rest =>
    if c == '[' && !inSet then (upTo separator true rest).map fun (text, left) => (c :: text, left)
    else if c == ']' && inSet then (upTo separator false rest).map
      fun (text, left) => (c :: text, left)
    else if c == separator then some ([], rest)
    else (upTo separator inSet rest).map fun (text, left) => (c :: text, left)

/-- Text up to a separator outside of brackets; in brackets if there is none outside of them. -/
def delimited (separator : Char) (cs : Octets) : Option (Octets × Octets) :=
  upTo separator false cs <|> upTo separator true cs

def replaced (c : Char) : Replacement :=
  if Decimal.isDigit c then .group (c.toNat - 48)
  else if c == 'b' then .text [c]
  else .text [(simpleEscape? c).getD c]

def replacement : Octets → List Replacement
  | [] => []
  | '\\' :: c :: rest => replaced c :: replacement rest
  | '&' :: rest => .group 0 :: replacement rest
  | c :: rest => .text [c] :: replacement rest

structure Flags where
  every : Bool := false
  prints : Bool := false
  folds : Bool := false
  nth : Nat := 1

def flags (f : Flags) : Nat → Octets → Flags × Octets
  | 0, cs => (f, cs)
  | fuel + 1, cs =>
    match cs with
    | 'g' :: rest => flags { f with every := true } fuel rest
    | 'p' :: rest => flags { f with prints := true } fuel rest
    | 'i' :: rest | 'I' :: rest => flags { f with folds := true } fuel rest
    | d :: rest =>
      if '1' ≤ d && d ≤ '9' then
        let digits := (d :: rest).takeWhile Decimal.isDigit
        flags { f with nth := Decimal.naturalD digits } fuel ((d :: rest).drop digits.length)
      else (f, cs)
    | [] => (f, cs)

def address? (extended : Bool) (cs : Octets) : Option (Option Address × Octets) :=
  match cs with
  | '$' :: rest => some (some .last, rest)
  | '/' :: rest => do
    let (text, left) ← delimited '/' rest
    return (some (.pattern (← Regex.parse? extended text)), left)
  | '\\' :: c :: rest => do
    let (text, left) ← delimited c rest
    return (some (.pattern (← Regex.parse? extended text)), left)
  | cs =>
    let digits := cs.takeWhile Decimal.isDigit
    if digits.isEmpty then some (none, cs)
    else some (some (.line (Decimal.naturalD digits)), cs.drop digits.length)

def isBlank (c : Char) : Bool := c == ' ' || c == '\t'

def addedText (cs : Octets) : Octets × Octets :=
  let cs := cs.dropWhile isBlank
  let cs := match cs with
    | '\\' :: '\n' :: rest => rest
    | '\\' :: rest => rest
    | cs => cs
  let text := cs.takeWhile (· != '\n')
  (text ++ ['\n'], cs.drop (text.length + 1))

def action? (extended : Bool) (c : Char) (rest : Octets) : Option (Action × Octets) :=
  match c with
  | 's' =>
    match rest with
    | separator :: body => do
      let (pattern, behind) ← delimited separator body
      let (text, left) ← upTo separator false behind
      let (f, left) := flags {} (left.length + 1) left
      return (.substitute (← Regex.parse? extended pattern) f.folds
        (replacement text) f.every f.prints
        f.nth, left)
    | [] => none
  | 'y' =>
    match rest with
    | separator :: body => do
      let (first, behind) ← upTo separator false body
      let (second, left) ← upTo separator false behind
      if first.length = second.length then return (.translate first second, left) else none
    | [] => none
  | 'd' => some (.delete, rest)
  | 'D' => some (.deleteFirst, rest)
  | 'p' => some (.print, rest)
  | 'P' => some (.printFirst, rest)
  | 'q' => some (.quit, rest)
  | 'Q' => some (.quitSilently, rest)
  | 'n' => some (.next, rest)
  | 'N' => some (.appendNext, rest)
  | 'h' => some (.hold, rest)
  | 'H' => some (.holdMore, rest)
  | 'g' => some (.recall, rest)
  | 'G' => some (.recallMore, rest)
  | 'x' => some (.exchange, rest)
  | '=' => some (.showNumber, rest)
  | 'a' =>
    let (text, left) := addedText rest
    some (.append text, left)
  | 'i' =>
    let (text, left) := addedText rest
    some (.insert text, left)
  | 'c' =>
    let (text, left) := addedText rest
    some (.change text, left)
  | _ => none

def commands (extended : Bool) : Nat → Octets → Option (List Command)
  | 0, _ => none
  | fuel + 1, cs =>
    match cs.dropWhile fun c => isBlank c || c == '\n' || c == ';' with
    | [] => some []
    | '#' :: rest => commands extended fuel (rest.dropWhile (· != '\n'))
    | cs => do
      let (first, rest) ← address? extended cs
      let (second, rest) ← match rest with
        | ',' :: more => address? extended (more.dropWhile isBlank)
        | rest => some (none, rest)
      let rest := rest.dropWhile isBlank
      let inverted := rest.head? == some '!'
      match (if inverted then rest.drop 1 else rest).dropWhile isBlank with
      | [] => none
      | c :: rest =>
        let (action, left) ← action? extended c rest
        let ends := match action with
          | .append _ | .insert _ | .change _ => true
          | _ => (left.dropWhile isBlank).head?.all fun c => c == ';' || c == '\n' || c == '#'
        if ends then return ⟨first, second, inverted, action⟩ :: (← commands extended fuel left)
        else none

/-- The lines still to come, the number of the present one and whether its end is missing, the text
worked on and the text held, what is printed (each with whether its line ends), what is added behind
the line, and the commands whose range is open. -/
structure State where
  rest : List Octets
  number : Nat
  cutOff : Bool
  space : Octets
  held : Octets
  printed : List (Octets × Bool)
  added : List Octets
  ranges : List Nat

def State.print (s : State) (text : Octets) : State :=
  { s with printed := (text, !s.cutOff) :: s.printed }

def State.printWhole (s : State) (text : Octets) : State :=
  { s with printed := (text, true) :: s.printed }

def State.flush (s : State) : State :=
  { s with
    printed := (s.added.map fun text => (withoutEnd text, true)).reverse ++ s.printed
    added := [] }

def State.take (s : State) (line : Octets) (rest : List Octets) : State :=
  { s with rest, number := s.number + 1, cutOff := line.getLast? != some '\n' }

def holds (s : State) : Address → Bool
  | .line n => s.number == n
  | .last => s.rest.isEmpty
  | .pattern r => Regex.isMatch false r s.space

def applies (s : State) (index : Nat) (c : Command) : Bool × List Nat :=
  match c.first, c.second with
  | none, _ => (true, s.ranges)
  | some first, none => (holds s first, s.ranges)
  | some first, some second =>
    if s.ranges.contains index then
      let ends := match second with
        | .line n => decide (n ≤ s.number)
        | second => holds s second
      let behind := match second with
        | .line n => decide (n < s.number)
        | _ => false
      (!behind, if ends then s.ranges.filter (· != index) else s.ranges)
    else if holds s first then
      let single := match second with
        | .line n => decide (n ≤ s.number)
        | .last => s.rest.isEmpty
        | .pattern _ => false
      (true, if single then s.ranges else index :: s.ranges)
    else (false, s.ranges)

def filled (m : Regex.Match) (parts : List Replacement) : Octets :=
  parts.flatMap fun
    | .text cs => cs
    | .group 0 => m.text
    | .group n => (m.groups.lookup n).getD []

/-- The text with matches from the `nth` on replaced, one or all of them; `skip` says that an empty
match at this place follows another match and does not count. -/
def substituted (r : Regex) (folds : Bool) (parts : List Replacement) (every : Bool) :
    Nat → Nat → Bool → Octets → Octets → Octets × Bool
  | 0, _, _, _, rest => (rest, false)
  | fuel + 1, nth, skip, before, rest =>
    match Regex.find? folds r before rest with
    | none => (rest, false)
    | some m =>
      let front := rest.take (rest.length - m.text.length - m.rest.length)
      if m.text.isEmpty && skip && front.isEmpty then
        match rest with
        | [] => ([], false)
        | c :: more =>
          let (text, found) := substituted r folds parts every fuel nth false (c :: before) more
          (c :: text, found)
      else
        let before' := m.text.reverse ++ front.reverse ++ before
        if nth > 1 then
          let (text, found) := substituted r folds parts every fuel (nth - 1) true before' m.rest
          (front ++ m.text ++ text, found)
        else
          let (text, _) := if every then substituted r folds parts every fuel 1 true before' m.rest
            else (m.rest, true)
          (front ++ filled m parts ++ text, true)

inductive Ending where
  | goesOn
  | nextLine (prints : Bool)
  | stops (prints : Bool)

def firstLine (cs : Octets) : Octets := cs.takeWhile (· != '\n')

def act (silent : Bool) (s : State) (c : Command) : State × Ending :=
  match c.action with
  | .substitute r folds parts every prints nth =>
    let (text, found) :=
      substituted r folds parts every (2 * s.space.length + 4) nth false [] s.space
    let s := { s with space := text }
    (if found && prints then s.print text else s, .goesOn)
  | .translate first second => ({ s with space := s.space.map (translated first second) }, .goesOn)
  | .delete => (s, .nextLine false)
  | .deleteFirst => (s, .nextLine false)
  | .print => (s.print s.space, .goesOn)
  | .printFirst => (s.printWhole (firstLine s.space), .goesOn)
  | .quit => (s, .stops true)
  | .quitSilently => (s, .stops false)
  | .append text => ({ s with added := s.added ++ [text] }, .goesOn)
  | .insert text => (s.printWhole (withoutEnd text), .goesOn)
  | .change text => (s.printWhole (withoutEnd text), .nextLine false)
  | .showNumber => (s.printWhole (Shell.number s.number), .goesOn)
  | .next =>
    let s' := if silent then s else s.print s.space
    match s.rest with
    | [] => (s', .stops false)
    | line :: rest => ({ s'.flush.take line rest with space := withoutEnd line }, .goesOn)
  | .appendNext =>
    match s.rest with
    | [] => (s, .stops true)
    | line :: rest =>
      ({ s.flush.take line rest with space := s.space ++ '\n' :: withoutEnd line }, .goesOn)
  | .hold => ({ s with held := s.space }, .goesOn)
  | .holdMore => ({ s with held := s.held ++ '\n' :: s.space }, .goesOn)
  | .recall => ({ s with space := s.held }, .goesOn)
  | .recallMore => ({ s with space := s.space ++ '\n' :: s.held }, .goesOn)
  | .exchange => ({ s with space := s.held, held := s.space }, .goesOn)

def actAll (silent : Bool) (s : State) (index : Nat) : List Command → State × Ending
  | [] => (s, .nextLine true)
  | c :: rest =>
    let (holds, ranges) := applies s index c
    let s := { s with ranges }
    if holds != c.inverted then
      match act silent s c with
      | (s, .goesOn) => actAll silent s (index + 1) rest
      | ended => ended
    else actAll silent s (index + 1) rest

/-- Line by line, up to the end or to a command that stops. -/
def run (silent : Bool) (cs : List Command) : Nat → State → State
  | 0, s => s
  | fuel + 1, s =>
    match s.rest with
    | [] => s
    | line :: rest =>
      let s := { s.take line rest with space := withoutEnd line }
      match actAll silent s 0 cs with
      | (s, .nextLine prints) =>
        run silent cs fuel (if prints && !silent then s.print s.space else s).flush
      | (s, .stops prints) => (if prints && !silent then s.print s.space else s).flush
      | (s, .goesOn) => s

/-- A line that does not end is ended when something follows it. -/
def output : List (Octets × Bool) → Octets
  | [] => []
  | [(text, ends)] => text ++ (if ends then ['\n'] else [])
  | (text, _) :: rest => text ++ ['\n'] ++ output rest

def edited (silent : Bool) (cs : List Command) (text : Octets) : Octets :=
  let lines := linesOf text
  output (run silent cs (lines.length + 1) ⟨lines, 0, false, [], [], [], [], []⟩).printed.reverse

end Edit

def sed : Utility := withOptions "nErsuz" "e" 1 fun o c =>
  let (scripts, names) := match o.values 'e' with
    | [] => (o.operands.take 1, o.operands.drop 1)
    | scripts => (scripts, o.operands)
  let script := ['\n'].intercalate scripts
  match Edit.commands (o.has 'E' || o.has 'r') (script.length + 2) script with
  | none =>
    { errors :=
      complaint c.name
        (octets s!"-e expression #1, char {script.length}: unterminated \x60s' command")
      status := 1
      input := c.input }
  | some cs => onText 2 (Edit.edited (o.has 'n') cs) names c

end OperationHooks.Shell
