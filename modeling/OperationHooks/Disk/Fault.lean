import OperationHooks.Path
import OperationHooks.Text.Quoted

set_option autoImplicit false

namespace OperationHooks.Disk

inductive Errno where
  | noEntry
  | badFormat
  | denied
  | exists
  | notDirectory
  | isDirectory
  | invalid
  | nameTooLong
  | notEmpty
  | tooManyLinks
  deriving DecidableEq, Repr

def Errno.number : Errno → Nat
  | .noEntry => 2
  | .badFormat => 8
  | .denied => 13
  | .exists => 17
  | .notDirectory => 20
  | .isDirectory => 21
  | .invalid => 22
  | .nameTooLong => 36
  | .notEmpty => 39
  | .tooManyLinks => 40

def Errno.text : Errno → String
  | .noEntry => "No such file or directory"
  | .badFormat => "Exec format error"
  | .denied => "Permission denied"
  | .exists => "File exists"
  | .notDirectory => "Not a directory"
  | .isDirectory => "Is a directory"
  | .invalid => "Invalid argument"
  | .nameTooLong => "File name too long"
  | .notEmpty => "Directory not empty"
  | .tooManyLinks => "Too many levels of symbolic links"

/-- A refused request, with what it was about. -/
inductive SystemFault where
  | refused (errno : Errno) (subject : String)
  | clearedFile (path : Path)
  | clearedLink
  deriving DecidableEq, Repr

def SystemFault.message : SystemFault → String
  | .refused errno subject => s!"[Errno {errno.number}] {errno.text}: {Text.quoted subject}"
  | .clearedFile path =>
    let subject := s!"PosixPath({Text.quoted path.text})"
    s!"[Errno {Errno.notDirectory.number}] {Errno.notDirectory.text}: {subject}"
  | .clearedLink => "Cannot call rmtree on a symbolic link"

inductive PathFault where
  | nullCharacter
  | system (fault : SystemFault)
  deriving DecidableEq, Repr

end OperationHooks.Disk
