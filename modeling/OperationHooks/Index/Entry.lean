import OperationHooks.Text.Case

set_option autoImplicit false

namespace OperationHooks.Index

/-- The line that re-exports a module. -/
def statement (baseName : String) : String := s!"export * from './{baseName}';"

structure SortKey where
  length : Nat
  lowered : String
  text : String
  deriving DecidableEq, Repr

def sortKey (baseName : String) : SortKey :=
  let text := statement baseName
  ⟨text.length, Text.lower text, text⟩

namespace SortKey

def lessOrEqual (a b : SortKey) : Bool :=
  if a.length ≠ b.length then decide (a.length < b.length)
  else if a.lowered ≠ b.lowered then decide (a.lowered < b.lowered)
  else decide (a.text ≤ b.text)

end SortKey

def precedes (a b : String) : Bool := (sortKey a).lessOrEqual (sortKey b)

def sortEntries (entries : List String) : List String := entries.mergeSort precedes

end OperationHooks.Index
