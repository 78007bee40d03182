import OperationHooks.Fault
import OperationHooks.GraphQL.Grammar
import OperationHooks.Disk.Access

set_option autoImplicit false

namespace OperationHooks.Descriptor

def ofSource (policy : SelectionPolicy) (path : Path) (source : String) : Except Fault Descriptor :=
  match GraphQL.parse source with
  | .error cause => .error (.syntaxError path cause)
  | .ok document => .ok (ofDocument policy path document)

def ofFile (policy : SelectionPolicy) (d : Disk) (path : Path) : Except Fault Descriptor := do
  let bytes ← (d.read path).mapError (Fault.ofAccess path)
  let text ← (Text.decode bytes).mapError .undecodable
  ofSource policy path (String.ofList (Text.plainNewlines text.toList))

end OperationHooks.Descriptor
