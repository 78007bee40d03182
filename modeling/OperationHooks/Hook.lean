import OperationHooks.Output
import OperationHooks.Template.Library

set_option autoImplicit false

namespace OperationHooks.Hook

structure Settings where
  namePrefix : String
  extension : String
  destination : String
  outputRoot : Option Path
  skipsMismatch : Bool
  templates : Option Path
  formatting : Format.Formatting
  formattingBroken : Format.BrokenFormatting := fun _ text => .ok text.error

def standardPrefix : String := "use"
def standardDestination : String := "../hooks"

/-- What a template gives for a module. -/
structure Draft where
  path : Path
  content : Text.Wide
  deriving DecidableEq, Repr

structure Module where
  path : Path
  content : String
  deriving DecidableEq, Repr

def Module.baseName (m : Module) : String := m.path.stem

/-- Why no hook is generated for a definition. -/
inductive SkipReason where
  | noOperation
  | anonymous
  | nameMismatch
  deriving DecidableEq, Repr

def SkipReason.text : SkipReason → String
  | .noOperation => "no operation"
  | .anonymous => "anonymous operation"
  | .nameMismatch => "operation name not match"

def templateDirectory (d : Disk) (directory : Option String) : Except Fault (Option Path) :=
  match directory.filter (· ≠ "") with
  | none => .ok none
  | some directory => do
    let path := Path.ofString directory
    if ← (d.isDirectory path).mapError Fault.ofLookUp then return some path else return none

namespace Settings

def nameOf (s : Settings) (d : Descriptor) : String :=
  let operation := d.name.getD "None"
  s!"{s.namePrefix}{operation}{Text.capitalize d.kind.text}"

def nameFault? (s : Settings) (d : Descriptor) : Option SkipReason :=
  match d.properName? with
  | none => some .anonymous
  | some name => if s.skipsMismatch && d.fileStem != name then some .nameMismatch else none

def outputDirectory (s : Settings) (source : Path) : Path :=
  match s.outputRoot with
  | some root => root
  | none => (source.parent / s.destination).fold

def outputPath (s : Settings) (d : Descriptor) : Path :=
  s.outputDirectory d.sourcePath / s!"{s.nameOf d}.{s.extension}"

def slotValues (name selection : String) : Template.Variables :=
  [("operation_name", .text (.ofString name)),
   ("selection_name", .text (.ofString (Text.lowerFirst selection)))]

def content (s : Settings) (disk : Disk) (variant : Variant) (name selection : String) :
    Except Template.Fault Text.Wide := do
  let load := Template.load s.templates disk
  match ← load variant.template with
  | none => throw (.notFound (.ofString variant.template))
  | some template => Template.render load (slotValues name selection) variant.template template

/-- The draft for a definition. Only a named operation that has a shape gets one. -/
def draft (s : Settings) (disk : Disk) (variant : Option Variant) (d : Descriptor) :
    Except Fault Draft :=
  match variant, d.properName? with
  | some variant, some name =>
    match s.content disk variant name d.selectionName with
    | .error cause => .error (.template variant.template d.sourcePath cause)
    | .ok content => .ok ⟨s.outputPath d, content⟩
  | _, _ => .error (.unsupported d.sourcePath d.kind d.name)

/-- The module for a definition, if it has a draft that can be encoded. -/
def render (s : Settings) (disk : Disk) (variant : Option Variant) (d : Descriptor) :
    Except Fault Module := do
  let draft ← s.draft disk variant d
  match draft.content.toText with
  | .ok content => return ⟨draft.path, content⟩
  | .error text => throw (.format (.unencodable text.error))

def write (s : Settings) (m : Module) : DiskWork Unit := do
  match s.formatting (← get) m.content with
  | .error cause => throw (.format cause)
  | .ok text => save m.path text

/-- Formats a text that cannot be encoded; the file for it is opened and stays empty. -/
def writeBroken (s : Settings) (path : Path) (text : Text.Broken) : DiskWork Module := do
  match s.formattingBroken (← get) text with
  | .error cause => throw (.format cause)
  | .ok e =>
    save path ""
    throw (.format (.unencodable e))

def emit (s : Settings) (variant : Option Variant) (d : Descriptor) : DiskWork Module := do
  match s.draft (← get) variant d with
  | .error fault => throw fault
  | .ok draft =>
    match draft.content.toText with
    | .error text => s.writeBroken draft.path text
    | .ok content =>
      s.write ⟨draft.path, content⟩
      return ⟨draft.path, content⟩

end Settings

end OperationHooks.Hook
