import OperationHooks.Fault
import OperationHooks.Disk.Access

set_option autoImplicit false

namespace OperationHooks

abbrev DiskWork (α : Type) := ExceptT Fault (StateM Disk) α

def DiskWork.about {α : Type} (path : Path) (action : Disk.Action α) : DiskWork α :=
  ExceptT.adapt (Fault.ofAccess path) action

/-- Writes a text to a file, in a directory that is made if need be. -/
def save (path : Path) (text : String) : DiskWork Unit :=
  DiskWork.about path do
    Disk.makeDirectories path.parent
    Disk.write path (Text.encode text)

end OperationHooks
