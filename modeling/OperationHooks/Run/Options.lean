import OperationHooks.Choice
import OperationHooks.Hook

set_option autoImplicit false

namespace OperationHooks

/-- One formatter, or several that are applied in order. -/
inductive FormatterNames where
  | single (name : String)
  | several (names : List String)
  deriving DecidableEq, Repr

def FormatterNames.toList : FormatterNames → List String
  | .single name => [name]
  | .several names => names

structure CommonOptions where
  root : Path
  extension : Extension
  config : Option String
  formatters : FormatterNames
  deriving DecidableEq, Repr

namespace CommonOptions

def standard : CommonOptions where
  root := .ofString "."
  extension := .ts
  config := some ".prettierrc"
  formatters := .single "basic"

def resolve (o : CommonOptions) (path : String) : Path := o.root / path

def configPath (o : CommonOptions) : Option Path := (o.config.filter (· ≠ "")).map o.resolve

end CommonOptions

structure HookOptions extends CommonOptions where
  pattern : String
  namePrefix : String
  skipsMismatch : Bool
  destination : String
  outputRoot : Option String
  batchIndex : Bool
  policy : SelectionPolicy
  templates : Option String
  deriving DecidableEq, Repr

namespace HookOptions

def standard : HookOptions where
  toCommonOptions := .standard
  pattern := "src/**/*.graphql"
  namePrefix := Hook.standardPrefix
  skipsMismatch := true
  destination := Hook.standardDestination
  outputRoot := none
  batchIndex := false
  policy := .first
  templates := none

def outputPath (o : HookOptions) : Option Path := (o.outputRoot.filter (· ≠ "")).map o.resolve

/-- The same options with the words for what is chosen from a few; the extension is looked at first.
-/
def choose (o : HookOptions) (extension policy : String) : Except ChoiceFault HookOptions := do
  let extension ← Extension.ofWord extension
  let policy ← SelectionPolicy.ofWord policy
  return { o with extension, policy }

end HookOptions

structure SchemaOptions extends CommonOptions where
  directory : String
  deriving DecidableEq, Repr

namespace SchemaOptions

def standard : SchemaOptions where
  toCommonOptions := .standard
  directory := "src/lib/__generated__"

def choose (o : SchemaOptions) (extension : String) : Except ChoiceFault SchemaOptions := do
  let extension ← Extension.ofWord extension
  return { o with extension }

end SchemaOptions

end OperationHooks
