import OperationHooks.Text.Blank

set_option autoImplicit false

namespace OperationHooks.Yaml

def isBreak (c : Char) : Bool :=
  c == '\n' || c == '\r' || c == '\x85' || c == '\u2028' || c == '\u2029'

def isBreakOrEnd (c : Char) : Bool := c == '\x00' || isBreak c
def isGapOrEnd (c : Char) : Bool := c == ' ' || c == '\t' || isBreakOrEnd c
def isSpaceOrBreakOrEnd (c : Char) : Bool := c == ' ' || isBreakOrEnd c

def isPrintable (c : Char) : Bool :=
  let n := c.toNat
  n == 9 || n == 10 || n == 13 || (0x20 ≤ n && n ≤ 0x7E) || n == 0x85 ||
    (0xA0 ≤ n && n ≤ 0xFFFD) || 0x10000 ≤ n

structure Cursor where
  rest : List Char
  index : Nat
  line : Nat
  column : Nat

namespace Cursor

def start (text : List Char) : Cursor := ⟨text, 0, 0, 0⟩

def peek (c : Cursor) (k : Nat) : Char := c.rest.getD k '\x00'

def atEnd (c : Cursor) : Bool := c.rest.isEmpty

def forward (c : Cursor) : Cursor :=
  match c.rest with
  | [] => c
  | ch :: rest =>
    if ch != '\r' && isBreak ch || ch == '\r' && rest.head? != some '\n' then
      ⟨rest, c.index + 1, c.line + 1, 0⟩
    else if ch == '\uFEFF' then ⟨rest, c.index + 1, c.line, c.column⟩
    else ⟨rest, c.index + 1, c.line, c.column + 1⟩

def skip (c : Cursor) : Nat → Cursor
  | 0 => c
  | n + 1 => c.forward.skip n

/-- The longest run of characters that satisfy `p`, and the place behind it. -/
def span (c : Cursor) (p : Char → Bool) : List Char × Cursor :=
  let run := c.rest.takeWhile p
  (run, c.skip run.length)

def skipWhile (c : Cursor) (p : Char → Bool) : Cursor := (c.span p).2

def lineBreak (c : Cursor) : List Char × Cursor :=
  match c.rest with
  | '\r' :: '\n' :: _ => (['\n'], c.skip 2)
  | ch :: _ =>
    if ch == '\u2028' || ch == '\u2029' then ([ch], c.forward)
    else if isBreak ch then (['\n'], c.forward)
    else ([], c)
  | [] => ([], c)

/-- A marker of three characters stands here, followed by a gap. -/
def isMarker (c : Cursor) (ch : Char) : Bool :=
  c.rest.take 3 == [ch, ch, ch] && isGapOrEnd (c.peek 3)

def isDocumentMarker (c : Cursor) : Bool := c.isMarker '-' || c.isMarker '.'

end Cursor

end OperationHooks.Yaml
