import OperationHooks.Template.BuiltIn
import OperationHooks.Template.Nesting
import OperationHooks.Template.Render
import OperationHooks.Disk.Access

set_option autoImplicit false

namespace OperationHooks.Template

/-- The components of a template's name; `none` for one that would lead upwards. -/
def nameParts? (name : String) : Option (List String) :=
  let parts := ((Text.splitAt '/' name.toList).filter (!Path.saysNothing ·)).map String.ofList
  if parts.contains ".." then none else some parts

def ofFile (d : Disk) (path : Path) : Except Fault (Option Template) :=
  match d.read path with
  | .error _ => .ok none
  | .ok bytes =>
    match Text.decode bytes with
    | .error e => .error (.undecodable e)
    | .ok source => (read source).map some

def load (directory : Option Path) (d : Disk) : Loader := fun name =>
  match nameParts? name with
  | none => .ok none
  | some parts => do
    let own ← match directory with
      | none => pure none
      | some directory => ofFile d (directory.join ⟨.here, parts⟩)
    return own <|> BuiltIn.all.lookup ("/".intercalate parts)

end OperationHooks.Template
