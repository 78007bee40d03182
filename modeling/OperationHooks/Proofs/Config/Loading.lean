import OperationHooks.Proofs.Config
import OperationHooks.Proofs.Glob
import OperationHooks.Proofs.Yaml.Faults
/-!
What comes of a configuration file, whatever it holds: options with the parser that the extension
asks for, or a fault that says so. Three kinds of files end otherwise: those whose path the system
refuses to look up, those that are no text, and those with a text that is well formed and holds a
value that its tag does not allow.
-/
set_option autoImplicit false

namespace OperationHooks

namespace Disk

variable {t : Tree} {d : Disk} {p : Path} {followLast : Bool}

end Disk

namespace Yaml

/-- The faults of a text that is no plain misspelling: a code without a character, collections too
deep inside each other, or a value of its document. -/
inductive HasFault (room : Nat) (text : List Char) : Fault → Prop where
  | code {fault : TextFault} (h : compose room text = .error fault) :
    HasFault room text (.ofText fault)
  | value {document : Document} {cause : Fault} (h : compose room text = .ok (some document))
      (hf : document.HasFault cause) : HasFault room text cause

end Yaml

namespace Config

open Disk Format

variable {d : Disk} {p : Path} {path : Option Path} {extension : String} {room : Nat} {o : Options}

def sourceOf (source : String) : String := String.ofList (Text.plainNewlines source.toList)

theorem read_of_ok {bytes : List UInt8} (h : d.read p = .ok bytes) :
    entries room d (some p) = Config.read room d p := by
  unfold entries
  dsimp only
  rw [isFile_iff_read.2 ⟨bytes,h⟩]
  rfl

theorem styleWithin_eq_error {fault : Fault} : styleWithin room d path extension = .error fault ↔
    entries room d path = .error fault ∨ ∃ found rejections, entries room d path = .ok found ∧
      Options.ofConfig extension found = .error rejections ∧
      fault = .config (.rejected rejections) := by
  unfold styleWithin
  cases entries room d path with
  | error e => simp [bind,Except.bind]
  | ok found =>
    cases hread :
      Options.ofConfig extension found <;> simp [bind,Except.bind,hread,Except.mapError,eq_comm]

end Config

end OperationHooks
