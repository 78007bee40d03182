set_option autoImplicit false

namespace OperationHooks.Text

def sharedFront : List Char → List Char → Nat
  | a :: as, b :: bs => if a = b then sharedFront as bs + 1 else 0
  | _, _ => 0

structure Shared where
  left : Nat
  right : Nat
  length : Nat

def longestShared (xs ys : List Char) : Shared :=
  (List.range xs.length).foldl (fun best i =>
    (List.range ys.length).foldl (fun best j =>
      let length := sharedFront (xs.drop i) (ys.drop j)
      if length > best.length then ⟨i, j, length⟩ else best) best) ⟨0, 0, 0⟩

/-- The number of characters in shared runs. Every run takes one at least, so the length of a text
is enough `fuel`. -/
def sharedCount : Nat → List Char → List Char → Nat
  | 0, _, _ => 0
  | fuel + 1, xs, ys =>
    let run := longestShared xs ys
    if run.length = 0 then 0
    else run.length + sharedCount fuel (xs.take run.left) (ys.take run.right) +
      sharedCount fuel (xs.drop (run.left + run.length)) (ys.drop (run.right + run.length))

def isSimilar (s t : String) : Bool :=
  5 * (2 * sharedCount s.length s.toList t.toList) ≥ 3 * (s.length + t.length)

def sharedOf (s t : String) : Nat := sharedCount s.length s.toList t.toList

def isCloser (word a b : String) : Bool :=
  let left := sharedOf a word * (b.length + word.length)
  let right := sharedOf b word * (a.length + word.length)
  left > right || (left == right && decide (b ≤ a))

def closest (word : String) (candidates : List String) : List String :=
  let similar := candidates.filter fun s => isSimilar s word
  ((similar.mergeSort (isCloser word)).take 3).mergeSort fun a b => decide (a ≤ b)

end OperationHooks.Text
