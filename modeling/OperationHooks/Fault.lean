import OperationHooks.Descriptor
import OperationHooks.Disk.Fault
import OperationHooks.Format.Formatter
import OperationHooks.GraphQL.SyntaxError
import OperationHooks.Template.Value
import OperationHooks.Yaml.Value

set_option autoImplicit false

namespace OperationHooks

inductive ConfigFault where
  | unreadable (path : Path) (cause : Disk.SystemFault)
  | malformed (path : Path)
  | noTable (path : Path)
  | rejected (rejections : List Rejection)
  | formatter (cause : Format.FormatterFault)
  | holdsDefinitions (directory : Path)

inductive Fault where
  | syntaxError (path : Path) (cause : GraphQL.SyntaxError)
  | unsupported (path : Path) (kind : Kind) (name : Option String)
  | fileAccess (path : Path) (cause : Disk.SystemFault)
  | format (cause : Format.Fault)
  | config (cause : ConfigFault)
  | template (name : String) (path : Path) (cause : Template.Fault)
  | value (cause : Yaml.Fault)
  | undecodable (cause : Text.DecodeError)
  | system (cause : Disk.SystemFault)
  | nullCharacter
  | linkLoop (path : Path)

namespace Message

def parsing (path cause : String) : String := s!"Error parsing {path}: {cause}"

/-- An operation without a name is shown as the word None. -/
def unsupported (path kind : String) (name : Option String) : String :=
  let name := name.getD "None"
  s!"Not supported operation: {kind} - {name} ({path})"

def fileAccess (path cause : String) : String := s!"Filesystem error on {path}: {cause}"

def noMatch (pattern : String) (hint : Option String) : String :=
  let found := s!"No files matched pattern {Text.quoted pattern}"
  match hint.filter (· ≠ "") with
  | some hint => s!"{found}. {hint}"
  | none => found

/-- Nothing more is said of a template that cannot be read. -/
def rendering (template path : String) (cause : Option String) : String :=
  let failed := s!"Failed to render {template} for {path}:"
  match cause with
  | none => failed
  | some cause => failed ++ " " ++ cause

end Message

def ConfigFault.message : ConfigFault → String
  | .unreadable path cause => s!"Cannot read formatter config {path}: {cause.message}"
  | .malformed path => s!"Cannot read formatter config {path}:"
  | .noTable path => s!"Formatter config {path} must be a mapping of options"
  | .rejected _ => "Invalid formatter config:"
  | .formatter cause => cause.message
  | .holdsDefinitions directory => s!"Output directory {directory} contains definition files"

namespace Fault

def message : Fault → String
  | .syntaxError path cause => Message.parsing path.text cause.message
  | .unsupported path kind name => Message.unsupported path.text kind.text name
  | .fileAccess path cause => Message.fileAccess path.text cause.message
  | .format cause => cause.message
  | .config cause => cause.message
  | .template name path .malformed => Message.rendering name path.text none
  | .template name path cause =>
    if cause.isOfTemplate then Message.rendering name path.text (some cause.message)
      else cause.message
  | .value cause => cause.message
  | .undecodable cause => cause.message
  | .system cause => cause.message
  | .nullCharacter => "embedded null byte"
  | .linkLoop path => s!"Symlink loop from {path}"

def isExpected : Fault → Bool
  | .syntaxError _ _ | .unsupported _ _ _ | .fileAccess _ _ | .config _ => true
  | .format cause => cause.isOfProgram
  | _ => false

def ofAccess (path : Path) : Disk.PathFault → Fault
  | .nullCharacter => .nullCharacter
  | .system cause => .fileAccess path cause

def ofLookUp : Disk.PathFault → Fault
  | .nullCharacter => .nullCharacter
  | .system cause => .system cause

end Fault

end OperationHooks
