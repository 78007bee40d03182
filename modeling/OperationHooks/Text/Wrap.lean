import OperationHooks.Text.Blank

set_option autoImplicit false

namespace OperationHooks.Text

def isBreak (before after : List Char) : Bool :=
  match before, after with
  | a :: b :: _, c :: d :: _ => a.isAlpha && b.isAlpha && c.isAlpha && d.isAlpha
  | _, _ => false

/-- The pieces a line is made of; `run` is the piece being read, last character first. -/
def chunksFrom (run : List Char) : List Char → List (List Char)
  | [] => if run.isEmpty then [] else [run.reverse]
  | c :: rest =>
    let starts := match run with
      | [] => false
      | last :: _ => (last == ' ') != (c == ' ')
    if starts then run.reverse :: chunksFrom [c] rest
    else if c == '-' && isBreak run rest then (c :: run).reverse :: chunksFrom [] rest
    else chunksFrom (c :: run) rest

def isSpaceChunk (chunk : List Char) : Bool := chunk.all (· == ' ')

def fill (width : Nat) (line : List Char) : List (List Char) → List (List Char)
  | [] => if line.isEmpty then [] else [trimEnd line]
  | chunk :: rest =>
    let next := if isSpaceChunk chunk then [] else chunk
    if line.isEmpty then fill width next rest
    else if line.length + chunk.length ≤ width then fill width (line ++ chunk) rest
    else trimEnd line :: fill width next rest

def wrap (width : Nat) (s : String) : List String :=
  (fill width [] (chunksFrom [] s.toList)).map String.ofList

end OperationHooks.Text
