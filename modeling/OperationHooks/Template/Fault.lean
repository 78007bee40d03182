import OperationHooks.Template.Syntax
import OperationHooks.Text.Quoted
import OperationHooks.Text.Utf8

set_option autoImplicit false

namespace OperationHooks.Template

/-- What is not there: a name, a part of a value of some kind, the body of a block that another one
overrides, an end of nothing, or the alternative of a choice. -/
inductive Undefined where
  | variable (name : String)
  | attribute (kind : String) (name : Text.Wide)
  | element (kind index : String)
  | parentBlock (name : String)
  | endOfNothing (place : String)
  | alternative (line : Nat) (template : String)
  deriving DecidableEq

namespace Undefined

def message : Undefined → String
  | .variable s => s!"{Text.quoted s} is undefined"
  | .attribute kind name => s!"{Text.quoted kind} has no attribute {name.quoted}"
  | .element kind index => s!"{kind} has no element {index}"
  | .parentBlock name => s!"there is no parent block called {Text.quoted name}."
  | .endOfNothing place => s!"No {place} item, sequence was empty."
  | .alternative line template =>
    s!"the inline if-expression on line {line} in {Text.quoted template} evaluated to false and " ++
      "no else section was defined."

/-- A missing alternative can be printed and looped over like an empty text. -/
def isLenient : Undefined → Bool
  | .alternative _ _ => true
  | _ => false

end Undefined

inductive Fault where
  | malformed
  | notFound (name : Text.Wide)
  | noneFound (names : List Text.Wide)
  | nothingWanted
  | extendedTwice
  | partOfNothing
  | undefined (what : Undefined)
  | unknownFilter (name : String)
  | unknownTest (name : String)
  | divisionByZero (op : Arithmetic) (ofReals : Bool)
  | typeMismatch (message : String)
  | badValue (message : String)
  | noMember (message : String)
  | tooLarge (message : String)
  | undecodable (e : Text.DecodeError)
  | tooDeep

def divisionMessage : Arithmetic → Bool → String
  | .floorDivide, false => "integer division or modulo by zero"
  | .floorDivide, true => "float floor division by zero"
  | .modulo, false => "integer modulo by zero"
  | .modulo, true => "float modulo"
  | .power, _ => "0.0 cannot be raised to a negative power"
  | _, false => "division by zero"
  | _, true => "float division by zero"

namespace Fault

def message : Fault → String
  | .malformed => ""
  | .notFound name => name.shown
  | .noneFound names =>
    "none of the templates given were found: " ++ ", ".intercalate (names.map Text.Wide.shown)
  | .nothingWanted => "Tried to select from an empty list of templates."
  | .extendedTwice => "extended multiple times"
  | .partOfNothing => "cannot assign attribute on non-namespace object"
  | .undefined what => what.message
  | .unknownFilter name => s!"No filter named {Text.quoted name} found."
  | .unknownTest name => s!"No test named {Text.quoted name} found."
  | .divisionByZero op ofReals => divisionMessage op ofReals
  | .typeMismatch message | .badValue message | .noMember message | .tooLarge message => message
  | .undecodable e => e.message
  | .tooDeep => "maximum recursion depth exceeded"

def isOfTemplate : Fault → Bool
  | divisionByZero _ _ | typeMismatch _ | badValue _ | noMember _ | tooLarge _ | undecodable _
  | .tooDeep => false
  | _ => true

end Fault

end OperationHooks.Template
