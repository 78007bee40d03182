import OperationHooks.GraphQL.Name

set_option autoImplicit false

namespace OperationHooks.GraphQL

inductive OperationType where
  | query
  | mutation
  | subscription
  deriving DecidableEq, Repr

inductive Selection where
  | field (label : Option Name) (name : Name) (selections : List Selection)
  | spread (fragment : Name)
  | inline (condition : Option Name) (selections : List Selection)

structure Operation where
  type : OperationType
  name : Option Name
  variableNames : List Name
  selections : List Selection

inductive Definition where
  | operation (o : Operation)
  | fragment (name condition : Name) (selections : List Selection)
  | typeSystem

/-- A document has at least one definition. -/
structure Document where
  first : Definition
  rest : List Definition

def Document.definitions (d : Document) : List Definition := d.first :: d.rest

def fieldNames (selections : List Selection) : List Name :=
  selections.filterMap fun
    | .field _ name _ => some name
    | _ => none

end OperationHooks.GraphQL
