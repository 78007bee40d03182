import OperationHooks.Config
import OperationHooks.Glob
import OperationHooks.Run.Options
import OperationHooks.Run.Task

set_option autoImplicit false

namespace OperationHooks

structure HookGenerator where
  options : HookOptions
  setup : Run.Setup

namespace HookGenerator

def ofOptions (env : Format.Environment) (d : Disk) (o : HookOptions) :
    Except Fault HookGenerator := do
  let style ← Config.styleOptions d o.configPath o.extension.text
  let formatter ← Config.formatter o.formatters.toList
  let templates ← Hook.templateDirectory d o.templates
  let formatting := formatter.format env style
  let hook : Hook.Settings :=
    { namePrefix := o.namePrefix
      extension := o.extension.text
      destination := o.destination
      outputRoot := o.outputPath
      skipsMismatch := o.skipsMismatch
      templates
      formatting
      formattingBroken := formatter.formatBroken env style }
  let index : Index.Settings :=
    { extension := o.extension.text
      batch := o.batchIndex
      nested := Index.standardNested
      formatting }
  return { options := o, setup := { policy := o.policy, hook, index } }

/-- The definition files. An index file is none. -/
def discover (g : HookGenerator) (d : Disk) : Except Fault (List Path) :=
  (OperationHooks.discover d g.options.root g.options.pattern [g.setup.index.fileName]).mapError
    Fault.ofLookUp

def outputDirectories (g : HookGenerator) (files : List Path) : List Path :=
  Path.sorted (files.map g.setup.hook.outputDirectory)

end HookGenerator

namespace Run

def settled (d : Disk) (path : Path) : Except Fault Disk.Place :=
  if Disk.hasNull path.text then .error .nullCharacter
  else match d.settle path with
    | some place => .ok place
    | none => .error (.linkLoop path)

def holdsAny (d : Disk) (place : Disk.Place) : List Path → Except Fault Bool
  | [] => .ok false
  | file :: rest => do
    if Disk.Tree.isBelow place (← settled d file) then return true else holdsAny d place rest

/-- Makes an output directory anew. One that holds a definition is left alone. -/
def cleanDirectory (files : List Path) (directory : Path) : Work Unit := do
  let disk := (← get).disk
  let place ← (settled disk directory : Except Fault Disk.Place)
  if ← (holdsAny disk place files : Except Fault Bool) then
    throw (.config (.holdsDefinitions directory))
  if ← ((disk.isPresent directory).mapError (Fault.ofAccess directory) : Except Fault Bool) then
    Work.note .debug s!"Removing stale output {directory}"
    Work.onDisk (.about directory (Disk.removeTree directory))
  Work.onDisk (.about directory (Disk.makeDirectories directory))

def clean (files directories : List Path) : Work Unit := directories.forM (cleanDirectory files)

abbrev Processing := Progress → Progress

/-- Why a run gives no report: a fault, or a task that was not carried out. -/
inductive Halt where
  | fault (f : Fault)
  | unfinished

abbrev RunWork (α : Type) := ExceptT Halt (StateM World) α

def RunWork.ofWork {α : Type} (work : Work α) : RunWork α := ExceptT.adapt Halt.fault work

def noMatch (message : String) : Work Report := do
  Work.note .info message
  Work.report fun r => { r with message := some message }
  Work.enter .done
  return (← get).report

/-- The report is begun anew; phases go on from where the last run ended. -/
def begin (g : HookGenerator) : Work (List Path) := do
  modify fun w => { w with report := .empty, indexes := [] }
  Work.enter .discovering
  let files ← (g.discover (← get).disk : Except Fault (List Path))
  Work.report fun r => { r with discovered := files.length }
  return files

def prepare (g : HookGenerator) (files : List Path) : Work Unit := do
  Work.note .info s!"Found {files.length} definition files"
  Work.enter .cleaning
  clean files (g.outputDirectories files)
  Work.enter .processing
  Work.note .info "Generating..."

def process (processing : Processing) (files : List Path) : RunWork Unit := do
  let p := processing (.start files (← get))
  set p.world
  match p.fault with
  | some fault => throw (.fault fault)
  | none => if p.isFinished then return else throw .unfinished

def closingMessage (r : Report) : String :=
  s!"Finish: {r.generated.length} generated, {r.skipped.length} skipped, {r.errors.length} failed"

def finalize (g : HookGenerator) : Work Report := do
  Work.enter .finalizing
  let _ ← Work.onIndexes (Index.flushAll g.setup.index)
  let indexes := (Index.written g.setup.index (← get).indexes).map (·.text)
  Work.report fun r => { r with indexes }.sorted
  Work.note .info (closingMessage (← get).report)
  Work.enter .done
  return (← get).report

end Run

namespace HookGenerator

def run (g : HookGenerator) (processing : Run.Processing) : Run.RunWork Report := do
  let files ← Run.RunWork.ofWork (Run.begin g)
  if files.isEmpty then
    Run.RunWork.ofWork (Run.noMatch (Message.noMatch g.options.pattern none))
  else
    Run.RunWork.ofWork (Run.prepare g files)
    Run.process processing files
    Run.RunWork.ofWork (Run.finalize g)

def runInOrder (g : HookGenerator) : Run.RunWork Report := g.run (Run.Progress.inOrder g.setup)

end HookGenerator

end OperationHooks
