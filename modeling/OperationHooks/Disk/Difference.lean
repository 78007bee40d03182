import OperationHooks.Disk.Tree

set_option autoImplicit false

namespace OperationHooks.Disk

structure Difference where
  removed : List (Place × Entry)
  made : List Place
  written : List (Place × List UInt8)

def byDepth (entries : List (Place × Entry)) : List (Place × Entry) :=
  entries.mergeSort fun (p, _) (q, _) => decide (p.length ≤ q.length)

/-- The same kind of thing stands at a place. -/
def sameKind : Entry → Option Entry → Bool
  | .file _ _, some (.file _ _) => true
  | .directory, some .directory => true
  | .link target, some (.link other) => target == other
  | _, _ => false

def difference (before after : Tree) : Difference where
  removed := (byDepth (before.entries.filter fun (p, e) => !sameKind e (after.get? p))).reverse
  made := (byDepth (after.entries.filter fun (p, e) =>
    e == .directory && !sameKind e (before.get? p))).map (·.1)
  written := after.entries.filterMap fun (p, e) =>
    match e with
    | .file bytes _ =>
      match before.get? p with
      | some (.file old _) => if old == bytes then none else some (p, bytes)
      | _ => some (p, bytes)
    | _ => none

end OperationHooks.Disk
