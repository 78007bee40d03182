import OperationHooks.Command.Help
import OperationHooks.Command.Value
import OperationHooks.Run.Hooks
import OperationHooks.Run.Schema

set_option autoImplicit false

namespace OperationHooks.Command

/-- The end of a call. A fault stands here only if it is not one that a user is told of. -/
structure Outcome where
  exitCode : Nat
  output : String
  errors : String
  fault : Option Fault
  disk : Disk

abbrev Values := List (String × Value)

namespace Values

def flag (v : Values) (key : String) : Bool :=
  match v.lookup key with
  | some (.flag b) => b
  | _ => false

def word? (v : Values) (key : String) : Option String :=
  match v.lookup key with
  | some (.word s) => s
  | _ => none

def word (v : Values) (key : String) : String := (v.word? key).getD ""

def words (v : Values) (key : String) : List String :=
  match v.lookup key with
  | some (.words list) => list
  | _ => []

def common (v : Values) : CommonOptions where
  root := .ofString (v.word "root")
  extension := (Extension.all.find? (·.text == v.word "extension")).getD .ts
  config := v.word? "prettier_config"
  formatters := .several (v.words "formatter")

def hookOptions (v : Values) : HookOptions where
  toCommonOptions := v.common
  pattern := v.word "pattern"
  namePrefix := v.word "prefix"
  skipsMismatch := v.flag "skip_on_name_mismatch"
  destination := v.word "destination_dir"
  outputRoot := v.word? "output_root"
  batchIndex := v.flag "batch_index"
  policy := (SelectionPolicy.ofString? (v.word "selection_policy")).getD .first
  templates := v.word? "template_dir"

def schemaOptions (v : Values) : SchemaOptions where
  toCommonOptions := v.common
  directory := v.word "schema_dir"

end Values

structure Finished where
  result : Except Run.Halt Report
  world : Run.World

def runHooks (env : Format.Environment) (d : Disk) (o : HookOptions) : Finished :=
  match HookGenerator.ofOptions env d o with
  | .error fault => ⟨.error (.fault fault), .ofDisk d⟩
  | .ok g =>
    let (result, world) := g.runInOrder.run (.ofDisk d)
    ⟨result, world⟩

def runIndex (env : Format.Environment) (d : Disk) (o : SchemaOptions) : Finished :=
  match SchemaIndexer.ofOptions env d o with
  | .error fault => ⟨.error (.fault fault), .ofDisk d⟩
  | .ok x =>
    let (result, world) := x.run.run (.ofDisk d)
    ⟨result.mapError .fault, world⟩

/-- What a run prints: its messages, and its report or why there is none. -/
def present (v : Values) (f : Finished) : Outcome :=
  let asJson := v.flag "as_json"
  let verbose := v.flag "verbose"
  let messages := Report.asText (Log.lines (Log.threshold verbose asJson) f.world.log)
  let disk := f.world.disk
  match f.result with
  | .ok report =>
    let (output, errors) := report.printed asJson verbose
    ⟨0, output, messages ++ errors, none, disk⟩
  | .error (.fault fault) =>
    if fault.isExpected then ⟨1, "", messages ++ s!"Error: {fault.message}\n", none, disk⟩
    else ⟨1, "", messages, some fault, disk⟩
  | .error .unfinished => ⟨1, "", messages, none, disk⟩

def usageErrors (c : Declaration) (fault : UsageFault) : List String :=
  (if fault.showsUsage then [usageLine c, s!"Try '{c.fullName} --help' for help.", ""] else []) ++
    [s!"Error: {fault.message}"]

def outcomeOf (d : Disk) : Stop → Outcome
  | .usage c why => ⟨2, "", Report.asText (usageErrors c why), none, d⟩
  | .help c => ⟨0, Report.asText (helpLines c), "", none, d⟩
  | .noArguments c => ⟨2, "", Report.asText (helpLines c), none, d⟩
  | .version => ⟨0, s!"{program}, version {version}\n", "", none, d⟩
  | .fault f => ⟨1, "", "", some f, d⟩

def valuesOf (env : Format.Environment) (d : Disk) (c : Declaration) (mixed : Bool)
    (arguments : List String) : Except Stop (Values × List String) := do
  let parsed ← (parse c mixed 0 arguments).mapError (.usage c)
  let u : Surroundings := ⟨env, d, c, parsed.assignments⟩
  return (← u.values, parsed.rest)

def callCommand (env : Format.Environment) (d : Disk) (c : Declaration)
    (run : Values → Finished) (arguments : List String) : Except Stop Outcome := do
  let (values, rest) ← valuesOf env d c true arguments
  if rest.isEmpty then return present values (run values) else throw (.usage c (.leftOver rest))

/-- A word that is no command. If it looks like an option, it is taken for one. -/
def noCommand (env : Format.Environment) (d : Disk) (name : String) (rest : List String) :
    Except Stop Outcome := do
  if name.toList.head? == some '-' then
    let _ ← valuesOf env d top false (name :: rest)
  throw (.usage top (.unknownCommand name (Text.closest name (top.commands.map (·.1)))))

def callTop (env : Format.Environment) (d : Disk) (arguments : List String) :
    Except Stop Outcome := do
  if arguments.isEmpty then throw (.noArguments top)
  let (_, rest) ← valuesOf env d top false arguments
  match rest with
  | [] => throw (.usage top .noCommand)
  | "hooks" :: rest => callCommand env d hooks (fun v => runHooks env d v.hookOptions) rest
  | "index" :: rest => callCommand env d index (fun v => runIndex env d v.schemaOptions) rest
  | name :: rest => noCommand env d name rest

/-- Calls the program. -/
def call (env : Format.Environment) (d : Disk) (arguments : List String) : Outcome :=
  match callTop env d arguments with
  | .ok outcome => outcome
  | .error stop => outcomeOf d stop

end OperationHooks.Command
