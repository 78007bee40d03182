import OperationHooks.Run.Options

set_option autoImplicit false

namespace OperationHooks.Command

/-- What the argument of an option may be. -/
inductive Argument where
  | text
  | choice (words : List String)
  | directory
  deriving DecidableEq, Repr

/-- What an option takes, and its value when it is not given. -/
inductive Shape where
  | showHelp
  | showVersion
  | flag (standard : Bool) (negation : Option String)
  | single (argument : Argument) (standard : Option String)
  | repeated (argument : Argument) (standard : List String)
  deriving DecidableEq, Repr

structure Setting where
  key : String
  names : List String
  shape : Shape
  showsStandard : Bool
  help : String
  deriving DecidableEq, Repr

structure Declaration where
  name : String
  usage : String
  description : List String
  examples : List String
  options : List Setting
  commands : List (String × String)
  deriving DecidableEq, Repr

def program : String := "gql-hookgen"
def version : String := "0.1.0"

/-- What every variable of the environment that sets an option starts with. -/
def variableStem : String := "GQL_HOOKGEN"

def helpOption : Setting :=
  ⟨"help", ["--help"], .showHelp, false, "Show this message and exit."⟩

def versionOption : Setting :=
  ⟨"version", ["--version"], .showVersion, false, "Show the version and exit."⟩

def extensions : List String := Extension.all.map Extension.text
def formatters : List String := ["basic", "prettier"]
def policies : List String := SelectionPolicy.all.map SelectionPolicy.text

def commonOptions : List Setting := [
  ⟨"root", ["--root", "-r"], .single .directory (some "."), false,
    "Project root that patterns and paths are relative to."⟩,
  ⟨"extension", ["--extension", "-e"], .single (.choice extensions) (some "ts"), false,
    "Extension of generated files (default: ts)."⟩,
  ⟨"prettier_config", ["--prettier"], .single .text (some ".prettierrc"), false,
    "Prettier config file with style options, JSON or YAML (default: .prettierrc)."⟩,
  ⟨"formatter", ["--formatter"], .repeated (.choice formatters) ["basic"], false,
    "Formatter applied to generated code; repeat to chain several (default: basic)."⟩,
  ⟨"as_json", ["--json"], .flag false none, false, "Print the run report as JSON."⟩,
  ⟨"verbose", ["--verbose", "-v"], .flag false none, false, "Enable verbose output."⟩]

def hookOptions : List Setting := [
  ⟨"pattern", ["--pattern", "-p"], .single .text (some HookOptions.standard.pattern), true,
    "Glob pattern for GraphQL definition files."⟩,
  ⟨"prefix", ["--prefix"], .single .text (some Hook.standardPrefix), true,
    "Prefix of generated hook names."⟩,
  ⟨"destination_dir", ["--destination"], .single .text (some Hook.standardDestination), true,
    "Output directory, relative to each definition file's directory."⟩,
  ⟨"output_root", ["--output", "-o"], .single .text none, false,
    "Write all hooks into this single directory instead."⟩,
  ⟨"skip_on_name_mismatch", ["--skip-on-name-mismatch"],
    .flag true (some "--no-skip-on-name-mismatch"), false,
    "Skip files whose name differs from their operation name (default: skip)."⟩,
  ⟨"batch_index", ["--batch-index"], .flag false none, false,
    "Write index files once at the end instead of after every hook."⟩,
  ⟨"selection_policy", ["--selection-policy"], .single (.choice policies) (some "first"), true,
    "How the primary selection name of an operation is picked."⟩,
  ⟨"template_dir", ["--templates"], .single .directory none, false,
    "Directory with templates overriding the built-in ones."⟩]

def schemaOptions : List Setting := [
  ⟨"schema_dir", ["--schema-dir", "-s"],
    .single .text (some SchemaOptions.standard.directory), true,
    "Directory containing the generated GraphQL schema modules."⟩]

def hooks : Declaration where
  name := "hooks"
  usage := "[OPTIONS]"
  description := ["Generate hooks from GraphQL query and mutation files."]
  examples := [
    "gql-hookgen hooks",
    "gql-hookgen hooks --pattern \"src/graphql/**/*.graphql\" --prefix use",
    "gql-hookgen hooks -o src/hooks --no-skip-on-name-mismatch"]
  options := commonOptions ++ hookOptions ++ [helpOption]
  commands := []

def index : Declaration where
  name := "index"
  usage := "[OPTIONS]"
  description := ["Generate the index file re-exporting all generated schema modules."]
  examples := [
    "gql-hookgen index",
    "gql-hookgen index --schema-dir src/lib/__generated__ --extension js"]
  options := commonOptions ++ schemaOptions ++ [helpOption]
  commands := []

def top : Declaration where
  name := ""
  usage := "[OPTIONS] COMMAND [ARGS]..."
  description := [
    "GraphQL hook generator.",
    "Generate typed hooks from GraphQL operation files and keep their re-export index files " ++
      "stable across runs."]
  examples := []
  options := [versionOption, helpOption]
  commands := [(hooks.name, hooks.description.headD ""), (index.name, index.description.headD "")]

/-- A command as it is called. -/
def Declaration.fullName (c : Declaration) : String :=
  if c.name.isEmpty then program else s!"{program} {c.name}"

end OperationHooks.Command
