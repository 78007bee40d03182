import OperationHooks.Command.Call
import OperationHooks.Disk.Difference

set_option autoImplicit false

namespace OperationHooks.Main

abbrev Entries := List (Disk.Place × Disk.Entry)

def isScript (bytes : List UInt8) : Bool := [35, 33].isPrefixOf bytes

def fileEntry (bytes : ByteArray) : Disk.Entry := .file bytes.toList (isScript bytes.toList)

partial def load (place : Disk.Place) (directory : String) : IO Entries := do
  let mut found : Entries := []
  for entry in ← (← IO.FS.realPath directory).readDir do
    let below := place ++ [entry.fileName]
    match (← entry.path.symlinkMetadata).type with
    | .dir => found := found ++ (below, .directory) :: (← load below entry.path.toString)
    | .file => found := found ++ [(below, fileEntry (← IO.FS.readBinFile entry.path))]
    | .symlink => found := found ++ [(below, .link (← IO.FS.realPath entry.path).toString)]
    | .other => pure ()
  return found

def placeOf (path : String) : Disk.Place := (Path.ofString path).parts

def textOf (place : Disk.Place) : String := "/" ++ "/".intercalate place

/-- The directories that lead to a place. -/
def above (place : Disk.Place) : Entries :=
  (List.range place.length).map fun n => (place.take (n + 1), .directory)

/-- The formatter programs in the directories that programs are looked for in, those below the
current directory apart. -/
def programs (searchPath : String) : IO Entries := do
  let mut found : Entries := []
  for directory in (Text.splitAt ':' searchPath.toList).map String.ofList do
    unless directory.startsWith "/" do continue
    let path := directory ++ "/" ++ Format.program
    let bytes? ← try some <$> IO.FS.readBinFile path catch _ => pure none
    if let some bytes := bytes? then
      found := found ++ above (placeOf directory) ++ [(placeOf path, fileEntry bytes)]
  return found

def variableNames : List String :=
  "PATH" :: [Command.top, Command.hooks, Command.index].flatMap fun c =>
    c.options.map (Command.variableName c)

def environment : IO Format.Environment := do
  let mut found : Format.Environment := []
  for name in variableNames do
    if let some value ← IO.getEnv name then found := found ++ [(name, value)]
  return found

def apply (d : Disk.Difference) : IO Unit := do
  for (place, entry) in d.removed do
    match entry with
    | .directory => IO.FS.removeDirAll (textOf place)
    | _ => IO.FS.removeFile (textOf place)
  for place in d.made do
    IO.FS.createDirAll (textOf place)
  for (place, bytes) in d.written do
    IO.FS.writeBinFile (textOf place) ⟨bytes.toArray⟩

def treeOf (entries : Entries) : Disk.Tree :=
  entries.foldl (fun t (place, e) => t.put place e) .empty

def run (arguments : List String) : IO UInt32 := do
  let here := (← IO.currentDir).toString
  let env ← environment
  let found := (← programs ((env.lookup "PATH").getD "")) ++ above (placeOf here) ++
    (← load (placeOf here) here)
  let disk : Disk := { tree := treeOf found, here := placeOf here }
  let outcome := Command.call env disk arguments
  apply (Disk.difference disk.tree outcome.disk.tree)
  (← IO.getStdout).putStr outcome.output
  (← IO.getStderr).putStr outcome.errors
  if let some fault := outcome.fault then (← IO.getStderr).putStr (fault.message ++ "\n")
  return UInt32.ofNat outcome.exitCode

end OperationHooks.Main

def main (arguments : List String) : IO UInt32 := OperationHooks.Main.run arguments
