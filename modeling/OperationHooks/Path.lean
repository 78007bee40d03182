import OperationHooks.Text.Split

set_option autoImplicit false

namespace OperationHooks

/-- Where a path starts. Two leading slashes are an anchor of their own; more are one slash. -/
inductive Anchor where
  | here
  | root
  | doubleRoot
  deriving DecidableEq, Repr

def Anchor.text : Anchor → String
  | .here => ""
  | .root => "/"
  | .doubleRoot => "//"

structure Path where
  anchor : Anchor
  parts : List String
  deriving DecidableEq, Repr

namespace Path

def anchorOf : List Char → Anchor
  | '/' :: '/' :: '/' :: _ => .root
  | '/' :: '/' :: _ => .doubleRoot
  | '/' :: _ => .root
  | _ => .here

def saysNothing (part : List Char) : Bool := part == [] || part == ['.']

def ofChars (cs : List Char) : Path where
  anchor := anchorOf cs
  parts := ((Text.splitAt '/' cs).filter (!saysNothing ·)).map String.ofList

def ofString (s : String) : Path := ofChars s.toList

def text (p : Path) : String :=
  if p.anchor = .here && p.parts.isEmpty then "."
  else p.anchor.text ++ "/".intercalate p.parts

instance : ToString Path := ⟨text⟩

def isAbsolute (p : Path) : Bool := p.anchor != .here

/-- `q` seen from `p`; an absolute path is the same from everywhere. -/
def join (p q : Path) : Path :=
  if q.isAbsolute then q else { p with parts := p.parts ++ q.parts }

instance : HDiv Path Path Path := ⟨join⟩
instance : HDiv Path String Path := ⟨fun p s => p.join (ofString s)⟩

def parent (p : Path) : Path := { p with parts := p.parts.dropLast }

def name (p : Path) : String := p.parts.getLast?.getD ""

def stemChars (cs : List Char) : List Char :=
  let extension := cs.reverse.takeWhile (· ≠ '.')
  let front := cs.take (cs.length - extension.length - 1)
  if extension.isEmpty || front.isEmpty || extension.length = cs.length then cs else front

def stem (p : Path) : String := String.ofList (stemChars p.name.toList)

/-- Components newest first, with `..` taking back the one before it where there is one. -/
def foldStep (absolute : Bool) (folded : List String) (part : String) : List String :=
  if part = ".." then
    match folded with
    | [] => if absolute then [] else [part]
    | last :: before => if last = ".." then part :: folded else before
  else part :: folded

/-- Removes every `..` that has a component before it, without looking at the disk. -/
def fold (p : Path) : Path :=
  { p with parts := (p.parts.foldl (foldStep p.isAbsolute) []).reverse }

def sortKey (p : Path) : List String :=
  if p.isAbsolute then p.anchor.text :: p.parts else p.parts

def lessOrEqual (p q : Path) : Bool := decide (¬ q.sortKey < p.sortKey)

def sorted (paths : List Path) : List Path := paths.eraseDups.mergeSort lessOrEqual

end Path

end OperationHooks
