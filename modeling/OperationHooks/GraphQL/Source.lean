set_option autoImplicit false

namespace OperationHooks.GraphQL

def sourceLines : List Char → List (List Char)
  | [] => [[]]
  | '\r' :: '\n' :: rest => [] :: sourceLines rest
  | c :: rest =>
    if c = '\n' || c = '\r' then [] :: sourceLines rest
    else match sourceLines rest with
      | [] => [[c]]
      | line :: lines => (c :: line) :: lines

structure Location where
  line : Nat
  column : Nat
  deriving DecidableEq, Repr

def locateFrom (here : Location) : Nat → List Char → Location
  | 0, _ => here
  | _ + 1, [] => here
  | offset + 2, '\r' :: '\n' :: rest => locateFrom ⟨here.line + 1, 1⟩ offset rest
  | offset + 1, c :: rest =>
    if c = '\n' || c = '\r' then locateFrom ⟨here.line + 1, 1⟩ offset rest
    else locateFrom ⟨here.line, here.column + 1⟩ offset rest

def locate (source : List Char) (offset : Nat) : Location := locateFrom ⟨1, 1⟩ offset source

def pieces (size : Nat) (cs : List Char) : List (List Char) :=
  go cs.length cs
where
  go : Nat → List Char → List (List Char)
    | 0, _ => []
    | fuel + 1, cs => if cs.isEmpty then [] else cs.take size :: go fuel (cs.drop size)

def caret (column : Nat) : List Char := List.replicate (column - 1) ' ' ++ ['^']

def labelled (rows : List (String × List Char)) : String :=
  let width := rows.foldl (fun w row => max w row.1.length) 0
  "\n".intercalate (rows.map fun (label, text) =>
    String.ofList (List.replicate (width - label.length) ' ') ++ label ++
      (if text.isEmpty then "" else " " ++ String.ofList text))

def shortExcerpt (lines : List (List Char)) (place : Location) : String :=
  let row (number : Nat) := (lines[number - 1]?).map fun text => (s!"{number} |", text)
  let before := if place.line > 1 then row (place.line - 1) else none
  labelled (before.toList ++ (row place.line).toList ++ [("|", caret place.column)] ++
    (row (place.line + 1)).toList)

/-- A long line is shown alone, in pieces of 80, up to the piece after the column. A column just
past the end belongs to the last piece. -/
def longExcerpt (text : List Char) (place : Location) : String :=
  let parts := pieces 80 text
  let upTo := min ((place.column - 1) / 80) (parts.length - 1)
  let first := parts.take 1 |>.map fun part => (s!"{place.line} |", part)
  let middle := (parts.drop 1).take upTo |>.map fun part => ("|", part)
  let after := (parts.drop (upTo + 1)).take 1 |>.map fun part => ("|", part)
  labelled (first ++ middle ++ [("|", caret (place.column - 80 * upTo))] ++ after)

def excerpt (source : List Char) (place : Location) : String :=
  let lines := sourceLines source
  let text := (lines[place.line - 1]?).getD []
  if text.length > 120 then longExcerpt text place else shortExcerpt lines place

end OperationHooks.GraphQL
