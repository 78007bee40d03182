import OperationHooks.Yaml.Scalar
import OperationHooks.Yaml.Token
/-!
From a YAML text to its tokens. A key without a mark of its own is recognised only when the colon
behind it is met, so its token is put in front of tokens already found; a candidate is remembered
for each level of brackets and given up at the end of its line.
-/
set_option autoImplicit false

namespace OperationHooks.Yaml

/-- A place where an unmarked key may have started. -/
structure KeyCandidate where
  tokenNumber : Nat
  required : Bool
  index : Nat
  line : Nat
  column : Nat

structure Scan where
  cursor : Cursor
  tokens : List Token
  flowLevel : Nat
  indent : Int
  indents : List Int
  keyAllowed : Bool
  candidates : List (Nat × KeyCandidate)

abbrev Scanner := StateT Scan (Except TextFault)

namespace Scanner

def malformed {α : Type} : Scanner α := throw .malformed

def orMalformed {α : Type} : Option α → Scanner α
  | some x => pure x
  | none => malformed

def emit (t : Token) : Scanner Unit := modify fun s => { s with tokens := s.tokens ++ [t] }

def insert (position : Nat) (t : Token) : Scanner Unit :=
  modify fun s => { s with tokens := s.tokens.take position ++ t :: s.tokens.drop position }

def moveTo (c : Cursor) : Scanner Unit := modify fun s => { s with cursor := c }
def allowKey (allowed : Bool) : Scanner Unit := modify fun s => { s with keyAllowed := allowed }
def skip (n : Nat) : Scanner Unit := modify fun s => { s with cursor := s.cursor.skip n }
def peek (k : Nat) : Scanner Char := return (← get).cursor.peek k
def column : Scanner Nat := return (← get).cursor.column
def inFlow : Scanner Bool := return (← get).flowLevel != 0

/-- Blanks, comments and line breaks between tokens. A tab is no blank here. -/
def skipBetween (flow keyAllowed : Bool) : Nat → Cursor → Cursor × Bool
  | 0, c => (c, keyAllowed)
  | fuel + 1, c =>
    let afterSpaces := c.skipWhile (· == ' ')
    let afterComment :=
      if afterSpaces.peek 0 == '#' then afterSpaces.skipWhile (!isBreakOrEnd ·) else afterSpaces
    if isBreak (afterComment.peek 0) then
      skipBetween flow (keyAllowed || !flow) fuel afterComment.lineBreak.2
    else (afterComment, keyAllowed)

def toNextToken : Scanner Unit := do
  let s ← get
  let c := if s.cursor.index == 0 && s.cursor.peek 0 == '\uFEFF' then s.cursor.forward else s.cursor
  let (next, allowed) := skipBetween (s.flowLevel != 0) s.keyAllowed (c.rest.length + 1) c
  set { s with cursor := next, keyAllowed := allowed }

def isStale (c : Cursor) (k : KeyCandidate) : Bool := k.line != c.line || c.index - k.index > 1024

def dropStale : Scanner Unit := do
  let s ← get
  let stale := s.candidates.filter (isStale s.cursor ·.2)
  if stale.any (·.2.required) then malformed
  set { s with candidates := s.candidates.filter (!isStale s.cursor ·.2) }

def dropCandidate : Scanner Unit := do
  let s ← get
  match s.candidates.lookup s.flowLevel with
  | some k => if k.required then malformed
  | none => pure ()
  set { s with candidates := s.candidates.filter (·.1 != s.flowLevel) }

def saveCandidate : Scanner Unit := do
  let s ← get
  if s.keyAllowed then
    dropCandidate
    let c := s.cursor
    let required := s.flowLevel == 0 && s.indent == c.column
    let k : KeyCandidate := ⟨s.tokens.length, required, c.index, c.line, c.column⟩
    modify fun s => { s with candidates := (s.flowLevel, k) :: s.candidates }

/-- Closes the block collections that are indented deeper than a column. -/
def unwindFrom (column : Int) : List Int → Int → List Token → List Int × Int × List Token
  | [], indent, ends => ([], indent, ends)
  | outer :: indents, indent, ends =>
    if indent > column then unwindFrom column indents outer (.blockEnd :: ends)
    else (outer :: indents, indent, ends)

def unwind (column : Int) : Scanner Unit := do
  let s ← get
  if s.flowLevel == 0 then
    let (indents, indent, ends) := unwindFrom column s.indents s.indent []
    set { s with indents, indent, tokens := s.tokens ++ ends }

/-- Opens a block collection if the column is deeper than the current one. -/
def addIndent (column : Nat) : Scanner Bool := do
  let s ← get
  if s.indent < column then
    set { s with indents := s.indent :: s.indents, indent := (column : Int) }
    return true
  else return false

def isWordPart (c : Char) : Bool :=
  Decimal.isDigit c || ('a' ≤ c && c ≤ 'z') || ('A' ≤ c && c ≤ 'Z') || c == '-' || c == '_'

def isUriPart (c : Char) : Bool := isWordPart c || ";/?:@&=+$,.!~*'()[]".toList.contains c

def hexPair? (cs : List Char) : Option UInt8 :=
  match cs with
  | [a, b] => (Decimal.natural? 16 [a, b]).map (·.toUInt8)
  | _ => none

/-- The characters of a tag; `%` and two digits stand for the byte they name. -/
def uriFrom : Nat → Cursor → Option (List Char × Cursor)
  | 0, c => some ([], c)
  | fuel + 1, c =>
    if c.peek 0 == '%' then
      match hexPair? ((c.rest.drop 1).take 2) with
      | none => none
      | some byte =>
        (uriFrom fuel (c.skip 3)).map fun (more, last) => (Char.ofNat byte.toNat :: more, last)
    else if isUriPart (c.peek 0) then
      (uriFrom fuel c.forward).map fun (more, last) => (c.peek 0 :: more, last)
    else some ([], c)

def uri (c : Cursor) : Option (String × Cursor) := do
  let (text, last) ← uriFrom (c.rest.length + 1) c
  if text.isEmpty then none else return (String.ofList text, last)

/-- A tag handle: `!`, `!!` or a word between exclamation marks. -/
def tagHandle (c : Cursor) : Option (String × Cursor) :=
  if c.peek 0 != '!' then none
  else
    let (word, last) := c.forward.span isWordPart
    if c.peek 1 == ' ' then some ("!", c.forward)
    else if last.peek 0 == '!' then
      some (String.ofList ('!' :: word ++ ['!']), last.forward)
    else none

def number (c : Cursor) : Option (Nat × Cursor) :=
  match c.span Decimal.isDigit with
  | ([], _) => none
  | (digits, last) => some (Decimal.naturalD digits, last)

def versionDirective (c : Cursor) : Option (Directive × Cursor) := do
  let (major, afterMajor) ← number (c.skipWhile (· == ' '))
  if afterMajor.peek 0 != '.' then failure
  let (_, last) ← number afterMajor.forward
  if isSpaceOrBreakOrEnd (last.peek 0) then return (.version major, last) else failure

def handleDirective (c : Cursor) : Option (Directive × Cursor) := do
  let (handle, afterHandle) ← tagHandle (c.skipWhile (· == ' '))
  if afterHandle.peek 0 != ' ' then failure
  let (target, last) ← uri (afterHandle.skipWhile (· == ' '))
  if isSpaceOrBreakOrEnd (last.peek 0) then return (.handle handle target, last) else failure

def directive (c : Cursor) : Option (Directive × Cursor) := do
  let (word, afterWord) := c.forward.span isWordPart
  if word.isEmpty || !isSpaceOrBreakOrEnd (afterWord.peek 0) then failure
  let (d, last) ←
    if word == "YAML".toList then versionDirective afterWord
    else if word == "TAG".toList then handleDirective afterWord
    else some (.other, afterWord.skipWhile (!isBreakOrEnd ·))
  return (d, ← restOfLine last)

/-- The name behind `&` or `*`. -/
def anchorName (c : Cursor) : Option (String × Cursor) :=
  let (word, last) := c.forward.span isWordPart
  let next := last.peek 0
  if word.isEmpty || !(isGapOrEnd next || "?:,]\x7d%@\x60".toList.contains next) then none
  else some (String.ofList word, last)

def tag (c : Cursor) : Option (Token × Cursor) := do
  let next := c.peek 1
  let (token, last) ←
    if next == '<' then do
      let (suffix, last) ← uri (c.skip 2)
      if last.peek 0 == '>' then pure (Token.tag none suffix, last.forward) else failure
    else if isGapOrEnd next then pure (Token.tag none "!", c.forward)
    else do
      let word := (c.rest.drop 1).takeWhile (!isSpaceOrBreakOrEnd ·)
      let (handle, afterHandle) ← if word.contains '!' then tagHandle c else some ("!", c.forward)
      let (suffix, last) ← uri afterHandle
      pure (Token.tag (some handle) suffix, last)
  if isSpaceOrBreakOrEnd (last.peek 0) then return (token, last) else failure

def put (found : Token × Cursor) : Scanner Unit := do
  emit found.1
  moveTo found.2

def marker (t : Token) (width : Nat) : Scanner Unit := do
  skip width
  emit t

def atMargin (action : Scanner Unit) : Scanner Unit := do
  unwind (-1)
  dropCandidate
  allowKey false
  action

def flowStart (t : Token) : Scanner Unit := do
  saveCandidate
  modify fun s => { s with flowLevel := s.flowLevel + 1 }
  allowKey true
  marker t 1

def flowEnd (t : Token) : Scanner Unit := do
  dropCandidate
  if !(← inFlow) then malformed
  modify fun s => { s with flowLevel := s.flowLevel - 1 }
  allowKey false
  marker t 1

def blockEntry : Scanner Unit := do
  if !(← inFlow) then
    if !(← get).keyAllowed then malformed
    if ← addIndent (← column) then emit .blockSequenceStart
  allowKey true
  dropCandidate
  marker .blockEntry 1

def markedKey : Scanner Unit := do
  let flow ← inFlow
  if !flow then
    if !(← get).keyAllowed then malformed
    if ← addIndent (← column) then emit .blockMappingStart
  allowKey (!flow)
  dropCandidate
  marker .key 1

def value : Scanner Unit := do
  let s ← get
  let flow ← inFlow
  match s.candidates.lookup s.flowLevel with
  | some k =>
    set { s with candidates := s.candidates.filter (·.1 != s.flowLevel) }
    insert k.tokenNumber .key
    if !flow then
      if ← addIndent k.column then insert k.tokenNumber .blockMappingStart
    allowKey false
  | none =>
    if !flow then
      if !s.keyAllowed then malformed
      if ← addIndent (← column) then emit .blockMappingStart
    allowKey (!flow)
    dropCandidate
  marker .value 1

def keyLike (find : Cursor → Scanner (Token × Cursor)) : Scanner Unit := do
  saveCandidate
  allowKey false
  put (← find (← get).cursor)

def named (make : String → Token) (c : Cursor) : Scanner (Token × Cursor) := do
  let (name, last) ← orMalformed (anchorName c)
  return (make name, last)

def quotedScalar (double : Bool) (c : Cursor) : Scanner (Token × Cursor) := do
  let (pieces, last) ← (quotedFrom double (c.rest.length + 1) c.forward : Except _ _)
  match pieces.mapM id with
  | some text => return (.scalar (String.ofList text) false, last)
  | none => return (.brokenScalar, last)

def plainScalar : Scanner Unit := do
  saveCandidate
  allowKey false
  let s ← get
  let (text, broke, last) :=
    plainFrom (s.flowLevel != 0) (s.indent + 1) [] false (s.cursor.rest.length + 1) s.cursor
  allowKey broke
  put (.scalar (String.ofList text) true, last)

def blockScalarToken (folded : Bool) : Scanner Unit := do
  dropCandidate
  allowKey true
  let s ← get
  let (text, last) ← orMalformed (blockScalar folded s.indent s.cursor)
  put (.scalar (String.ofList text) false, last)

def startsPlain (flow : Bool) (c next : Char) : Bool :=
  !(isGapOrEnd c || "-?:,[]\x7b\x7d#&*!|>'\"%@\x60".toList.contains c) ||
    (!isGapOrEnd next && (c == '-' || (!flow && (c == '?' || c == ':'))))

def token (flow : Bool) (c : Cursor) : Scanner Unit := do
  let ch := c.peek 0
  let next := c.peek 1
  let margin := c.column == 0
  if margin && ch == '%' then
    atMargin do
      let (d, last) ← orMalformed (directive c)
      put (.directive d, last)
  else if margin && c.isMarker '-' then atMargin (marker .documentStart 3)
  else if margin && c.isMarker '.' then atMargin (marker .documentEnd 3)
  else if ch == '[' then flowStart .flowSequenceStart
  else if ch == '{' then flowStart .flowMappingStart
  else if ch == ']' then flowEnd .flowSequenceEnd
  else if ch == '}' then flowEnd .flowMappingEnd
  else if ch == ',' then
    allowKey true
    dropCandidate
    marker .flowEntry 1
  else if ch == '-' && isGapOrEnd next then blockEntry
  else if ch == '?' && (flow || isGapOrEnd next) then markedKey
  else if ch == ':' && (flow || isGapOrEnd next) then value
  else if ch == '*' then keyLike (named .alias)
  else if ch == '&' then keyLike (named .anchor)
  else if ch == '!' then keyLike fun c => orMalformed (tag c)
  else if ch == '|' && !flow then blockScalarToken false
  else if ch == '>' && !flow then blockScalarToken true
  else if ch == '\'' then keyLike (quotedScalar false)
  else if ch == '"' then keyLike (quotedScalar true)
  else if startsPlain flow ch next then plainScalar
  else malformed

def step : Scanner Bool := do
  toNextToken
  dropStale
  let c := (← get).cursor
  unwind c.column
  if c.atEnd then
    unwind (-1)
    dropCandidate
    return false
  else
    token (← inFlow) c
    return true

/-- The tokens that are certain: none from the first candidate on, which may still get a mark. -/
def settled (s : Scan) : List Token :=
  let undecided := s.candidates.filter (!isStale s.cursor ·.2)
  s.tokens.take (undecided.foldl (fun least k => min least k.2.tokenNumber) s.tokens.length)

/-- Every token takes a character, so the length of the text bounds their number. -/
def all : Nat → Scan → List Token
  | 0, s => s.tokens ++ [.unreadable .malformed]
  | fuel + 1, s =>
    match step.run s with
    | .error fault => settled s ++ [.unreadable fault]
    | .ok (true, next) => all fuel next
    | .ok (false, last) => last.tokens

end Scanner

def tokens (text : List Char) : List Token :=
  if !text.all isPrintable then [.unreadable .malformed]
  else Scanner.all (text.length + 1) ⟨.start text, [], 0, -1, [], true, []⟩

end OperationHooks.Yaml
