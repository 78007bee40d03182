import OperationHooks.Config
import OperationHooks.Glob
import OperationHooks.Run.Options
import OperationHooks.Run.World

set_option autoImplicit false

namespace OperationHooks

structure SchemaIndexer where
  options : SchemaOptions
  directory : Path
  index : Index.Settings

namespace SchemaIndexer

def ofOptions (env : Format.Environment) (d : Disk) (o : SchemaOptions) :
    Except Fault SchemaIndexer := do
  let style ← Config.styleOptions d o.configPath o.extension.text
  let formatter ← Config.formatter o.formatters.toList
  return {
    options := o
    directory := o.resolve o.directory
    index :=
      { extension := o.extension.text
        batch := true
        nested := Index.standardNested
        formatting := formatter.format env style } }

def pattern (x : SchemaIndexer) : String := s!"*.{x.options.extension.text}"

def hint : String := "You need to generate the GraphQL schema first."

def noMatchMessage (x : SchemaIndexer) : String :=
  Message.noMatch (Path.ofString x.options.directory / x.pattern).text (some hint)

/-- The modules that the index re-exports. -/
def modules (x : SchemaIndexer) (d : Disk) : Except Fault (List Path) :=
  (discover d x.directory x.pattern [x.index.fileName]).mapError Fault.ofLookUp

def setPhase (phase : Phase) : Run.Work Unit := Run.Work.report fun r => { r with phase }

def run (x : SchemaIndexer) : Run.Work Report := do
  modify fun w => { w with report := .empty, indexes := [] }
  setPhase .discovering
  let files ← (x.modules (← get).disk : Except Fault (List Path))
  Run.Work.report fun r => { r with discovered := files.length }
  if files.isEmpty then
    Run.Work.note .info x.noMatchMessage
    Run.Work.report fun r => { r with message := some x.noMatchMessage, phase := .done }
  else
    Run.Work.note .info "Generating index file..."
    setPhase .processing
    files.forM fun file => Run.Work.onIndexes (Index.register x.index x.directory file.stem)
    setPhase .finalizing
    let _ ← Run.Work.onIndexes (Index.flushAll x.index)
    let indexes := (Index.written x.index (← get).indexes).map (·.text)
    Run.Work.report fun r => { r with indexes, generated := files.map (·.text), phase := .done }
    Run.Work.note .info s!"Finish: {files.length} modules re-exported"
  return (← get).report

end SchemaIndexer

end OperationHooks
