set_option autoImplicit false

namespace OperationHooks.GraphQL

def isLetter (c : Char) : Bool :=
  ('a' ≤ c && c ≤ 'z') || ('A' ≤ c && c ≤ 'Z')

def isDigit (c : Char) : Bool := '0' ≤ c && c ≤ '9'

def isNameStart (c : Char) : Bool := isLetter c || c == '_'
def isNamePart (c : Char) : Bool := isNameStart c || isDigit c

def isName : List Char → Bool
  | [] => false
  | c :: rest => isNameStart c && rest.all isNamePart

structure Name where
  chars : List Char
  valid : isName chars = true
  deriving DecidableEq

def Name.text (n : Name) : String := String.ofList n.chars

instance : Repr Name := ⟨fun n _ => n.text⟩

theorem Name.chars_ne_nil (n : Name) : n.chars ≠ [] := by
  intro h
  have hv := n.valid
  simp [h, isName] at hv

/-- The longest name at the front of a text that starts with a letter or an underscore. -/
def leadingName (c : Char) (h : isNameStart c = true) (rest : List Char) : Name where
  chars := c :: rest.takeWhile isNamePart
  valid := by simp [isName, h]

end OperationHooks.GraphQL
