import OperationHooks.Format.Options
import OperationHooks.Text.Blank

set_option autoImplicit false

namespace OperationHooks.Format

abbrev Line := List Char

/-- Drops blank lines that follow a blank line, and the first ones if `afterBlank` is set. -/
def squeeze (afterBlank : Bool) : List Line → List Line
  | [] => []
  | line :: rest =>
    if line.isEmpty && afterBlank then squeeze true rest
    else line :: squeeze line.isEmpty rest

def dropBlankEnd (lines : List Line) : List Line :=
  (lines.reverse.dropWhile List.isEmpty).reverse

def keptLines (text : List Char) : List Line :=
  dropBlankEnd (squeeze true ((Text.splitLines text).map Text.trimEnd))

def leadingSpaces (line : Line) : Nat := (line.takeWhile (· = ' ')).length

/-- Leading spaces as tabs of `width` and what is left over. The quotient is rounded down, and a
negative count stands for none. -/
def tabbed (width : Int) (line : Line) : Line :=
  let indent := leadingSpaces line
  List.replicate (Int.fdiv indent width).toNat '\t' ++
    List.replicate (Int.fmod indent width).toNat ' ' ++ line.drop indent

def indentLine (o : Options) (line : Line) : Line :=
  if o.useTabs then tabbed o.tabWidth line else line

def joinWithEnds (lines : List Line) : List Char :=
  ['\n'].intercalate lines ++ ['\n']

def dividesByZero (o : Options) (lines : List Line) : Bool :=
  o.useTabs && o.tabWidth == 0 && !lines.isEmpty

def basicChars? (o : Options) (text : List Char) : Option (List Char) :=
  let lines := keptLines text
  if dividesByZero o lines then none
  else some (joinWithEnds (lines.map (indentLine o)))

def basic? (o : Options) (text : String) : Option String :=
  (basicChars? o text.toList).map String.ofList

end OperationHooks.Format
