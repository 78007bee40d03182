import OperationHooks.Yaml.Cursor
import OperationHooks.Yaml.Token
import OperationHooks.Number.Decimal
/-!
The four written forms of a scalar: plain, quoted once or twice, and block. Each reader starts at
the first character and gives the text and the place behind it. Line breaks inside a scalar fold
into spaces unless the form keeps them.
-/
set_option autoImplicit false

namespace OperationHooks.Yaml

def foldBreaks (first : List Char) (more : List Char) : List Char :=
  if first != ['\n'] then first ++ more
  else if more.isEmpty then [' '] else more

/-- Breaks and indentation behind a line of a plain scalar; `none` where a document ends. -/
def plainBreaks : Nat → Cursor → Option (List Char × Cursor)
  | 0, c => some ([], c)
  | fuel + 1, c =>
    if c.peek 0 == ' ' then plainBreaks fuel c.forward
    else if isBreak (c.peek 0) then
      let (text, behind) := c.lineBreak
      if behind.isDocumentMarker then none
      else (plainBreaks fuel behind).map fun (more, last) => (text ++ more, last)
    else some ([], c)

/-- The gap behind a piece of a plain scalar. -/
structure PlainGap where
  text : List Char
  brokeLine : Bool
  cursor : Cursor

def plainGap (c : Cursor) : PlainGap :=
  let (spaces, afterSpaces) := c.span (· == ' ')
  if isBreak (afterSpaces.peek 0) then
    let (first, behind) := afterSpaces.lineBreak
    if behind.isDocumentMarker then ⟨[], true, behind⟩
    else match plainBreaks behind.rest.length behind with
      | none => ⟨[], true, behind⟩
      | some (more, last) => ⟨foldBreaks first more, true, last⟩
  else ⟨spaces, false, afterSpaces⟩

def isFlowIndicator (c : Char) : Bool :=
  c == ',' || c == '[' || c == ']' || c == '{' || c == '}'

def plainPiece (flow : Bool) : List Char → List Char
  | [] => []
  | c :: rest =>
    let next := rest.headD '\x00'
    if isGapOrEnd c || (flow && (isFlowIndicator c || c == '?')) ||
        (c == ':' && (isGapOrEnd next || (flow && isFlowIndicator next))) then []
    else c :: plainPiece flow rest

def plainFrom (flow : Bool) (indent : Int) (gap : List Char) (brokeLine : Bool) :
    Nat → Cursor → List Char × Bool × Cursor
  | 0, c => ([], brokeLine, c)
  | fuel + 1, c =>
    if c.peek 0 == '#' then ([], brokeLine, c)
    else match plainPiece flow c.rest with
      | [] => ([], brokeLine, c)
      | piece =>
        let next := plainGap (c.skip piece.length)
        if next.text.isEmpty || next.cursor.peek 0 == '#' ||
            (!flow && next.cursor.column < indent) then
          (gap ++ piece, next.brokeLine, next.cursor)
        else
          let (more, broke, last) := plainFrom flow indent next.text next.brokeLine fuel next.cursor
          (gap ++ piece ++ more, broke, last)

def quotedBreaks : Nat → Cursor → Option (List Char × Cursor)
  | 0, c => some ([], c)
  | fuel + 1, c =>
    if c.isDocumentMarker then none
    else
      let inLine := c.skipWhile fun ch => ch == ' ' || ch == '\t'
      if isBreak (inLine.peek 0) then
        let (text, behind) := inLine.lineBreak
        (quotedBreaks fuel behind).map fun (more, last) => (text ++ more, last)
      else some ([], inLine)

def quotedGap (c : Cursor) : Option (List Char × Cursor) :=
  let (spaces, afterSpaces) := c.span fun ch => ch == ' ' || ch == '\t'
  if afterSpaces.atEnd then none
  else if isBreak (afterSpaces.peek 0) then
    let (first, behind) := afterSpaces.lineBreak
    (quotedBreaks (behind.rest.length + 1) behind).map fun (more, last) =>
      (foldBreaks first more, last)
  else some (spaces, afterSpaces)

def simpleEscape? : Char → Option Char
  | '0' => some '\x00' | 'a' => some '\x07' | 'b' => some '\x08' | 't' => some '\t'
  | '\t' => some '\t' | 'n' => some '\n' | 'v' => some '\x0b' | 'f' => some '\x0c'
  | 'r' => some '\r' | 'e' => some '\x1b' | ' ' => some ' ' | '"' => some '"'
  | '\\' => some '\\' | '/' => some '/' | 'N' => some '\x85' | '_' => some '\xa0'
  | 'L' => some '\u2028' | 'P' => some '\u2029'
  | _ => none

def escapeWidth? : Char → Option Nat
  | 'x' => some 2 | 'u' => some 4 | 'U' => some 8
  | _ => none

def charOfCode (n : Nat) : Except TextFault (Option Char) :=
  if n ≥ Nat.pow 2 31 then .error .codeTooLarge
  else if n > 0x10FFFF then .error .noSuchCharacter
  else if 0xD800 ≤ n && n < 0xE000 then .ok none
  else .ok (some (Char.ofNat n))

abbrev Pieces := List (Option Char)

/-- The escape at a backslash. A backslash before a line break joins two lines. -/
def quotedEscape (c : Cursor) : Except TextFault (Pieces × Cursor) :=
  let body := c.forward
  let ch := body.peek 0
  match simpleEscape? ch, escapeWidth? ch with
  | some value, _ => .ok ([some value], body.forward)
  | none, some width =>
    let digits := body.forward.rest.take width
    match Decimal.natural? 16 digits with
    | some n =>
      if digits.length = width then
        (charOfCode n).map fun value => ([value], body.forward.skip width)
      else .error .malformed
    | none => .error .malformed
  | none, none =>
    if isBreak ch then
      let behind := body.lineBreak.2
      match quotedBreaks (behind.rest.length + 1) behind with
      | some (text, last) => .ok (text.map some, last)
      | none => .error .malformed
    else .error .malformed

def isQuotedText (c : Char) : Bool :=
  !(c == '\'' || c == '"' || c == '\\' || isGapOrEnd c)

def quotedFrom (double : Bool) : Nat → Cursor → Except TextFault (Pieces × Cursor)
  | 0, _ => .error .malformed
  | fuel + 1, c => do
    let andThen (text : Pieces) (next : Cursor) := do
      let (more, last) ← quotedFrom double fuel next
      return (text ++ more, last)
    match c.rest with
    | [] => throw .malformed
    | ch :: _ =>
      if ch == '\'' && !double then
        if c.peek 1 == '\'' then andThen [some '\''] (c.skip 2) else return ([], c.forward)
      else if ch == '"' && double then return ([], c.forward)
      else if ch == '\\' && double then
        let (text, next) ← quotedEscape c
        andThen text next
      else if isGapOrEnd ch then
        match quotedGap c with
        | none => throw .malformed
        | some (text, next) => andThen (text.map some) next
      else if isQuotedText ch then
        let (text, next) := c.span isQuotedText
        andThen (text.map some) next
      else andThen [some ch] c.forward

inductive Chomping where
  | strip
  | clip
  | keep
  deriving DecidableEq

structure BlockHeader where
  chomping : Chomping
  increment : Option Nat

def chomping? : Char → Option Chomping
  | '+' => some .keep
  | '-' => some .strip
  | _ => none

def increment? (c : Char) : Option Nat := if Decimal.isDigit c then some (c.toNat - 48) else none

/-- The indicators behind `|` or `>`, in either order; an increment is never zero. -/
def blockHeader (c : Cursor) : Option (BlockHeader × Cursor) := do
  let (header, last) ← match chomping? (c.peek 0), increment? (c.peek 0) with
    | some chomping, _ =>
      match increment? (c.peek 1) with
      | some n => some (BlockHeader.mk chomping (some n), c.skip 2)
      | none => some (BlockHeader.mk chomping none, c.skip 1)
    | none, some n =>
      match chomping? (c.peek 1) with
      | some chomping => some (BlockHeader.mk chomping (some n), c.skip 2)
      | none => some (BlockHeader.mk .clip (some n), c.skip 1)
    | none, none => some (BlockHeader.mk .clip none, c)
  if header.increment == some 0 then failure
  if isSpaceOrBreakOrEnd (last.peek 0) then return (header, last) else failure

def restOfLine (c : Cursor) : Option Cursor :=
  let afterSpaces := c.skipWhile (· == ' ')
  let afterComment :=
    if afterSpaces.peek 0 == '#' then afterSpaces.skipWhile (!isBreakOrEnd ·) else afterSpaces
  if isBreakOrEnd (afterComment.peek 0) then some afterComment.lineBreak.2 else none

def leadingBreaks (deepest : Nat) : Nat → Cursor → List Char × Nat × Cursor
  | 0, c => ([], deepest, c)
  | fuel + 1, c =>
    if c.peek 0 == ' ' then
      let next := c.forward
      leadingBreaks (max deepest next.column) fuel next
    else if isBreak (c.peek 0) then
      let (text, behind) := c.lineBreak
      let (more, found, last) := leadingBreaks deepest fuel behind
      (text ++ more, found, last)
    else ([], deepest, c)

def skipIndent (indent : Nat) : Nat → Cursor → Cursor
  | 0, c => c
  | fuel + 1, c => if c.column < indent && c.peek 0 == ' ' then
    skipIndent indent fuel c.forward else c

def blockBreaks (indent : Nat) : Nat → Cursor → List Char × Cursor
  | 0, c => ([], c)
  | fuel + 1, c =>
    let inLine := skipIndent indent indent c
    if isBreak (inLine.peek 0) then
      let (text, behind) := inLine.lineBreak
      let (more, last) := blockBreaks indent fuel behind
      (text ++ more, last)
    else ([], inLine)

/-- The lines of a block scalar; `breaks` stand before the line at the cursor. -/
def blockLines (folded : Bool) (indent : Nat) (breaks : List Char) :
    Nat → Cursor → List Char × List Char × List Char × Cursor
  | 0, c => ([], [], breaks, c)
  | fuel + 1, c =>
    if c.column != indent || c.atEnd then ([], [], breaks, c)
    else
      let startsBlank := c.peek 0 == ' ' || c.peek 0 == '\t'
      let (line, afterLine) := c.span (!isBreakOrEnd ·)
      let (ending, behind) := afterLine.lineBreak
      let (more, next) := blockBreaks indent (behind.rest.length + 1) behind
      if next.column != indent || next.atEnd then (breaks ++ line, ending, more, next)
      else
        let joint :=
          if folded && ending == ['\n'] && !startsBlank &&
            !(next.peek 0 == ' ' || next.peek 0 == '\t')
          then (if more.isEmpty then [' '] else [])
          else ending
        let (text, lastEnding, lastBreaks, last) := blockLines folded indent more fuel next
        (breaks ++ line ++ joint ++ text, lastEnding, lastBreaks, last)

def blockScalar (folded : Bool) (parent : Int) (c : Cursor) : Option (List Char × Cursor) := do
  let (header, afterHeader) ← blockHeader c.forward
  let body ← restOfLine afterHeader
  let least := (max (parent + 1) 1).toNat
  let (indent, breaks, first) := match header.increment with
    | some n =>
      let (breaks, first) := blockBreaks (least + n - 1) (body.rest.length + 1) body
      (least + n - 1, breaks, first)
    | none =>
      let (breaks, deepest, first) := leadingBreaks 0 (body.rest.length + 1) body
      (max least deepest, breaks, first)
  let (text, ending, trailing, last) :=
    blockLines folded indent breaks (first.rest.length + 1) first
  let tail := match header.chomping with
    | .strip => []
    | .clip => ending
    | .keep => ending ++ trailing
  return (text ++ tail, last)

end OperationHooks.Yaml
