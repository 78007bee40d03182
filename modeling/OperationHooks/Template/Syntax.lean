import OperationHooks.Number.Binary64
import OperationHooks.Text.Wide

set_option autoImplicit false

namespace OperationHooks.Template

inductive Literal where
  | nothing
  | boolean (b : Bool)
  | integer (n : Int)
  | real (x : Binary64)
  | text (s : Text.Wide)
  deriving DecidableEq

inductive Arithmetic where
  | add | sub | mul | divide | floorDivide | modulo | power
  deriving DecidableEq

inductive Comparison where
  | equal | notEqual | less | lessOrEqual | greater | greaterOrEqual | isIn | notIn
  deriving DecidableEq

/-- A choice without an alternative knows its line, for the message it may become. -/
inductive Expr where
  | literal (l : Literal)
  | variable (name : String)
  | list (items : List Expr)
  | tuple (items : List Expr)
  | attribute (e : Expr) (name : String)
  | item (e index : Expr)
  | slice (e : Expr) (start stop step : Option Expr)
  | call (e : Expr) (args : List (Option String × Expr))
  | filter (e : Expr) (name : String) (args : List (Option String × Expr))
  | test (e : Expr) (name : String) (args : List (Option String × Expr))
  | not (e : Expr)
  | negate (e : Expr)
  | plus (e : Expr)
  | concat (parts : List Expr)
  | arithmetic (op : Arithmetic) (left right : Expr)
  | compare (first : Expr) (rest : List (Comparison × Expr))
  | both (left right : Expr)
  | either (left right : Expr)
  | conditional (line : Nat) (condition yes : Expr) (no : Option Expr)

/-- What a value can be bound to: a name, or several targets that share its items. A part of a name
is written like a target, but nothing has parts that can be set. -/
inductive Target where
  | name (s : String)
  | part (s name : String)
  | several (targets : List Target)

inductive Node where
  | text (s : String)
  | print (e : Expr)
  | branch (condition : Expr) (yes no : List Node)
  | loop (target : Target) (source : Expr) (condition : Option Expr) (body otherwise : List Node)
  | assign (target : Target) (e : Expr)
  | capture (target : Target) (body : List Node)
  | include (e : Expr) (ignoreMissing withVariables : Bool)
  | extends (e : Expr)
  | block (name : String) (body : List Node)

/-- The contents of a block, with the name of the template they stand in. -/
structure BlockBody where
  template : String
  nodes : List Node

end OperationHooks.Template

namespace OperationHooks

abbrev Template := List Template.Node

end OperationHooks
