import OperationHooks.Descriptor
import OperationHooks.Text.Quoted

set_option autoImplicit false

namespace OperationHooks

inductive Extension where
  | ts
  | js
  deriving DecidableEq, Repr

def Extension.text : Extension → String
  | .ts => "ts"
  | .js => "js"

def Extension.all : List Extension := [.ts, .js]

/-- A word that is not among those a setting allows. -/
inductive ChoiceFault where
  | extension (word : String)
  | selectionPolicy (word : String)
  | kind (word : String)
  deriving DecidableEq, Repr

def ChoiceFault.message : ChoiceFault → String
  | .extension word => s!"Unsupported extension: {word} (expected one of ('ts', 'js'))"
  | .selectionPolicy word => s!"{Text.quoted word} is not a valid SelectionPolicy"
  | .kind word => s!"{Text.quoted word} is not a valid OperationKind"

def Extension.ofWord (word : String) : Except ChoiceFault Extension :=
  (Extension.all.find? (·.text == word)).elim (.error (.extension word)) .ok

def SelectionPolicy.ofWord (word : String) : Except ChoiceFault SelectionPolicy :=
  (SelectionPolicy.ofString? word).elim (.error (.selectionPolicy word)) .ok

def Kind.ofWord (word : String) : Except ChoiceFault Kind :=
  (Kind.ofString? word).elim (.error (.kind word)) .ok

end OperationHooks
