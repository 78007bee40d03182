import OperationHooks.Index.Entry
import OperationHooks.Path

set_option autoImplicit false

namespace OperationHooks.Index

structure State where
  entries : List String
  dirty : Bool
  locked : Bool
  deriving DecidableEq, Repr

namespace State

def empty : State := ⟨[], false, false⟩

/-- Adds an entry; nothing for one that is there already. -/
def add? (s : State) (baseName : String) : Option State :=
  if s.entries.contains baseName then none
  else some { s with entries := s.entries ++ [baseName], dirty := true }

end State

abbrev Table := List (Path × State)

namespace Table

def get? (t : Table) (directory : Path) : Option State := t.lookup directory

def state (t : Table) (directory : Path) : State := (t.get? directory).getD .empty

def put (t : Table) (directory : Path) (s : State) : Table :=
  if (t.get? directory).isSome then
    t.map fun (key, old) => if key = directory then (key, s) else (key, old)
  else t ++ [(directory, s)]

def modify (t : Table) (directory : Path) (f : State → State) : Table :=
  t.put directory (f (t.state directory))

def enter (t : Table) (directory : Path) : Table := t.modify directory id

def directories (t : Table) : List Path := Path.sorted (t.map (·.1))

end Table

end OperationHooks.Index
