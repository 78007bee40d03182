import OperationHooks.Number.Binary64

set_option autoImplicit false

namespace OperationHooks

inductive Datum where
  | null
  | boolean (b : Bool)
  | integer (n : Int)
  | real (x : Binary64)
  | text (s : String)
  | bytes (bs : List UInt8)
  | brokenText
  | moment
  | list (items : List Datum)
  | table (entries : List (Datum × Datum))
  | members (items : List Datum)

namespace Datum

instance : Inhabited Datum := ⟨.null⟩

def isEmpty : Datum → Bool
  | .null => true
  | .boolean b => !b
  | .integer n => n == 0
  | .real x => x.isZero
  | .text s => s.isEmpty
  | .bytes bs => bs.isEmpty
  | .brokenText | .moment => false
  | .list items | .members items => items.isEmpty
  | .table entries => entries.isEmpty

/-- The last value entered under a text key. -/
def find? (key : String) (entries : List (Datum × Datum)) : Option Datum :=
  entries.foldl (fun found entry =>
    match entry with
    | (.text k, value) => if k == key then some value else found
    | _ => found) none

end Datum

end OperationHooks
