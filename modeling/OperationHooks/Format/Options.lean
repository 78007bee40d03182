import OperationHooks.Coercion

set_option autoImplicit false

namespace OperationHooks.Format

inductive TrailingComma where
  | none
  | es5
  | all
  deriving DecidableEq, Repr

def TrailingComma.text : TrailingComma → String
  | .none => "none"
  | .es5 => "es5"
  | .all => "all"

structure Options where
  printWidth : Int
  tabWidth : Int
  useTabs : Bool
  semi : Bool
  singleQuote : Bool
  trailingComma : TrailingComma
  parser : String
  deriving DecidableEq, Repr

namespace Options

def standard : Options where
  printWidth := 80
  tabWidth := 2
  useTabs := false
  semi := true
  singleQuote := true
  trailingComma := .es5
  parser := "typescript"

def commaChoices : List (String × TrailingComma) :=
  [("none", .none), ("es5", .es5), ("all", .all)]

def ofEntries (entries : List (Datum × Datum)) : Reading Options :=
  let integer (names : List String) (otherwise : Int) :=
    Reading.field entries names (.ok otherwise) fun d => .ofCoercion d.toInteger
  let boolean (names : List String) (otherwise : Bool) :=
    Reading.field entries names (.ok otherwise) fun d => .ofCoercion d.toBoolean
  let comma := Reading.field entries ["trailingComma", "trailing_comma"]
    (.ok standard.trailingComma)
    fun d => .ofCoercion (d.toChoice commaChoices .notAmongTexts)
  let parser := Reading.field entries ["parser"] (.ok standard.parser) fun d => .ofCoercion d.toText
  (Reading.both (integer ["printWidth", "print_width"] standard.printWidth)
    (Reading.both (integer ["tabWidth", "tab_width"] standard.tabWidth)
      (Reading.both (boolean ["useTabs", "use_tabs"] standard.useTabs)
        (Reading.both (boolean ["semi"] standard.semi)
          (Reading.both (boolean ["singleQuote", "single_quote"] standard.singleQuote)
            (Reading.both comma parser)))))).map
    fun (printWidth, tabWidth, useTabs, semi, singleQuote, trailingComma, parser) =>
      { printWidth, tabWidth, useTabs, semi, singleQuote, trailingComma, parser }

def ofDatum : Datum → Reading Options
  | .table entries => ofEntries entries
  | _ => .error [⟨[], .noTable⟩]

def parserFor (extension : String) : String :=
  if extension == "ts" then "typescript" else "babel"

/-- Reads options from a table whose parser is the one the extension asks for, whatever it says. -/
def ofConfig (extension : String) (entries : List (Datum × Datum)) : Reading Options :=
  ofEntries (entries ++ [(.text "parser", .text (parserFor extension))])

end Options

end OperationHooks.Format
