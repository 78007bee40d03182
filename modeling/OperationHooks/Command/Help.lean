import OperationHooks.Command.Declaration
import OperationHooks.Text.Wrap

set_option autoImplicit false

namespace OperationHooks.Command

def width : Nat := 80
def maxTerm : Nat := 30
def gap : Nat := 2

def blanks (n : Nat) : String := String.ofList (List.replicate n ' ')

def usageLine (c : Declaration) : String := s!"Usage: {c.fullName} {c.usage}"

def paragraph (indent : Nat) (text : String) : List String :=
  (Text.wrap (width - indent) text).map (blanks indent ++ ·)

/-- One row of a list of terms: what is said of a term stands beside it, or below it if it is long.
-/
def row (column : Nat) (term said : String) : List String :=
  let beside := term.length + gap ≤ column
  match Text.wrap (width - column - gap) said with
  | [] => [blanks gap ++ term]
  | first :: others =>
    let below := others.map (blanks (column + gap) ++ ·)
    if beside then (blanks gap ++ term ++ blanks (column - term.length) ++ first) :: below
    else (blanks gap ++ term) :: (blanks (column + gap) ++ first) :: below

/-- A list of terms in two columns, the first as wide as its terms up to a limit. -/
def rows (terms : List (String × String)) : List String :=
  let longest := terms.foldl (fun n (term, _) => max n term.length) 0
  let column := min longest maxTerm + gap
  terms.flatMap fun (term, said) => row column term said

def argumentName : Argument → String
  | .text => "TEXT"
  | .choice words => "[" ++ "|".intercalate words ++ "]"
  | .directory => "DIRECTORY"

def isShort (name : String) : Bool := name.length = 2

/-- The names of an option, short ones first. -/
def shownNames (o : Setting) : String :=
  ", ".intercalate (o.names.filter isShort ++ o.names.filter (!isShort ·))

def term (o : Setting) : String :=
  match o.shape with
  | .showHelp | .showVersion | .flag _ none => shownNames o
  | .flag _ (some negation) => s!"{shownNames o} / {negation}"
  | .single argument _ | .repeated argument _ => s!"{shownNames o} {argumentName argument}"

def said (o : Setting) : String :=
  match o.showsStandard, o.shape with
  | true, .single _ (some standard) => s!"{o.help}  [default: {standard}]"
  | _, _ => o.help

def titled (title : String) (lines : List String) : List String :=
  if lines.isEmpty then [] else "" :: title :: lines

def examplesPart (c : Declaration) : List String :=
  if c.examples.isEmpty then []
  else "" :: paragraph gap "Examples:" ++ c.examples.flatMap fun line =>
    "" :: paragraph (3 * gap) line

def helpLines (c : Declaration) : List String :=
  usageLine c :: (c.description.flatMap fun text => "" :: paragraph gap text) ++ examplesPart c ++
    titled "Options:" (rows (c.options.map fun o => (term o, said o))) ++
    titled "Commands:" (rows c.commands)

end OperationHooks.Command
