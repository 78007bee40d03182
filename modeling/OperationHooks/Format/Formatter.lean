import OperationHooks.Format.Basic
import OperationHooks.Format.Program

set_option autoImplicit false

namespace OperationHooks.Format

inductive Tool where
  | basic
  | external (program : String)
  deriving DecidableEq, Repr

abbrev Formatter := List Tool

abbrev Formatting := Disk → String → Except Fault String

def Tool.format (env : Environment) (o : Options) (tool : Tool) : Formatting := fun d text =>
  match tool with
  | .basic =>
    match basic? o text with
    | some formatted => .ok formatted
    | none => .error .zeroTabWidth
  | .external program =>
    if isAvailable env d program then runProgram env d program o text
    else .error (.programNotFound program)

def Formatter.format (env : Environment) (o : Options) (f : Formatter) : Formatting := fun d text =>
  f.foldlM (fun text tool => tool.format env o d text) text

def lengthUpTo (visible : Nat) : List Char → Nat
  | [] => 0
  | c :: rest =>
    if Text.isBlank c then lengthUpTo visible rest + 1
    else match visible with
      | 0 => 0
      | visible + 1 => lengthUpTo visible rest + 1

/-- What becomes of a text that cannot be encoded. Only white space moves, so what cannot be encoded
stays behind as many visible characters; a program has been started when its input turns out to have
no form. -/
def Tool.formatBroken (env : Environment) (o : Options) (tool : Tool) (d : Disk)
    (text : Text.Broken) :
    Except Fault Text.Broken :=
  match tool with
  | .basic =>
    match basic? o text.outline with
    | some formatted =>
      let front := text.outline.toList.take text.error.start
      let start := lengthUpTo (front.filter (!Text.isBlank ·)).length formatted.toList
      .ok ⟨formatted, { text.error with start }⟩
    | none => .error .zeroTabWidth
  | .external program =>
    if isAvailable env d program then do
      discard (startProgram env d program o)
      throw (.unencodable text.error)
    else .error (.programNotFound program)

/-- What a text that cannot be encoded comes to: a fault, or what is said when it is written. -/
abbrev BrokenFormatting := Disk → Text.Broken → Except Fault Text.EncodeError

def Formatter.formatBroken (env : Environment) (o : Options) (f : Formatter) :
    BrokenFormatting := fun d text =>
  (f.foldlM (fun text (tool : Tool) => tool.formatBroken env o d text) text).map (·.error)

inductive FormatterFault where
  | noFormatter
  | unknown (name : String)
  deriving DecidableEq, Repr

def FormatterFault.message : FormatterFault → String
  | .noFormatter => "At least one formatter is required"
  | .unknown name => s!"Unknown formatter: {name}"

def Tool.ofName (name : String) : Except FormatterFault Tool :=
  match name with
  | "basic" => .ok .basic
  | "prettier" => .ok (.external program)
  | _ => .error (.unknown name)

def Formatter.ofNames (names : List String) : Except FormatterFault Formatter :=
  if names.isEmpty then .error .noFormatter else names.mapM Tool.ofName

end OperationHooks.Format
