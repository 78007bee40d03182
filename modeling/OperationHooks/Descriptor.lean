import OperationHooks.GraphQL.Document
import OperationHooks.Path
import OperationHooks.Text.Case

set_option autoImplicit false

namespace OperationHooks

inductive Kind where
  | query
  | mutation
  | subscription
  | unclassifiable
  deriving DecidableEq, Repr

def Kind.text : Kind → String
  | .query => "query"
  | .mutation => "mutation"
  | .subscription => "subscription"
  | .unclassifiable => "unclassifiable"

def Kind.all : List Kind := [.query, .mutation, .subscription, .unclassifiable]
def Kind.ofString? (s : String) : Option Kind := all.find? (·.text == s)

def Kind.isClassifiable (k : Kind) : Bool := k != .unclassifiable

def Kind.ofOperation : GraphQL.OperationType → Kind
  | .query => .query
  | .mutation => .mutation
  | .subscription => .subscription

/-- Which selected field gives an operation its selection name. -/
inductive SelectionPolicy where
  | first
  | matchOperation
  deriving DecidableEq, Repr

def SelectionPolicy.text : SelectionPolicy → String
  | .first => "first"
  | .matchOperation => "match-operation"

def SelectionPolicy.all : List SelectionPolicy := [.first, .matchOperation]
def SelectionPolicy.ofString? (s : String) : Option SelectionPolicy := all.find? (·.text == s)

structure Descriptor where
  sourcePath : Path
  kind : Kind
  name : Option String
  hasVariables : Bool
  selectionName : String
  deriving DecidableEq, Repr

namespace Descriptor

def fileStem (d : Descriptor) : String := d.sourcePath.stem

/-- An empty name counts as none. -/
def properName? (d : Descriptor) : Option String := d.name.filter (· ≠ "")

def unclassifiable (sourcePath : Path) : Descriptor :=
  ⟨sourcePath, .unclassifiable, none, false, ""⟩

def operationName? (definitions : List GraphQL.Definition) : Option GraphQL.Name :=
  definitions.findSome? fun
    | .operation o => o.name
    | _ => none

/-- The field named like the operation if the policy asks for it and there is one, else the first.
-/
def chooseSelection (policy : SelectionPolicy) (operation : Option String)
    (fields : List String) : String :=
  let matching := match policy, operation with
    | .matchOperation, some name => fields.find? (· == Text.lowerFirst name)
    | _, _ => none
  (matching <|> fields.head?).getD ""

/-- Only the first definition is classified; without an operation there is nothing to generate. -/
def ofDocument (policy : SelectionPolicy) (sourcePath : Path) (document : GraphQL.Document) :
    Descriptor :=
  match document.first with
  | .operation o =>
    let name := (operationName? document.definitions).map (·.text)
    { sourcePath
      kind := .ofOperation o.type
      name
      hasVariables := !o.variableNames.isEmpty
      selectionName :=
        chooseSelection policy name ((GraphQL.fieldNames o.selections).map (·.text)) }
  | _ => unclassifiable sourcePath

end Descriptor

/-- The hook shapes that can be generated. -/
inductive Variant where
  | queryPlain
  | queryWithVariables
  | mutationPlain
  | mutationWithVariables
  deriving DecidableEq, Repr

namespace Variant

def all : List Variant := [.queryPlain, .queryWithVariables, .mutationPlain, .mutationWithVariables]

def template : Variant → String
  | .queryPlain => "query.j2"
  | .queryWithVariables => "query_variables.j2"
  | .mutationPlain => "mutation.j2"
  | .mutationWithVariables => "mutation_variables.j2"

def select? : Kind → Bool → Option Variant
  | .query, false => some .queryPlain
  | .query, true => some .queryWithVariables
  | .mutation, false => some .mutationPlain
  | .mutation, true => some .mutationWithVariables
  | _, _ => none

end Variant

end OperationHooks
