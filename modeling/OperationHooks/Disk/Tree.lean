set_option autoImplicit false

namespace OperationHooks.Disk

abbrev Place := List String

inductive Entry where
  | file (bytes : List UInt8) (executable : Bool)
  | directory
  | link (target : String)
  deriving DecidableEq, Repr

structure Tree where
  entries : List (Place × Entry)

namespace Tree

def empty : Tree := ⟨[]⟩

def get? (t : Tree) (p : Place) : Option Entry :=
  if p = [] then some .directory else t.entries.lookup p

def put (t : Tree) (p : Place) (e : Entry) : Tree :=
  ⟨(p, e) :: t.entries.filter (·.1 != p)⟩

def remove (t : Tree) (p : Place) : Tree := ⟨t.entries.filter (·.1 != p)⟩

/-- `q` lies below `p`, at any depth. -/
def isBelow (p q : Place) : Bool := p.isPrefixOf q && p != q

def clear (t : Tree) (p : Place) : Tree := ⟨t.entries.filter (!isBelow p ·.1)⟩

def names (t : Tree) (p : Place) : List String :=
  t.entries.filterMap fun (q, _) => if q.dropLast = p && q != [] then q.getLast? else none

end Tree

end OperationHooks.Disk
