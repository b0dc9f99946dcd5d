import SchemaDump.Command.Run
/- The program: its arguments, the file system and the standard streams. -/
namespace SchemaDump

/-- A path as the file system takes it. -/
def entryAt (path : String) : IO.FS.DirEntry := ⟨".", path⟩

def kindOnDisk (path : String) : IO FileKind := do
  if path = "" then return .missing
  let place := (entryAt path).path
  if ← place.isDir then return .directory
  else if ← place.pathExists then return .file
  else return .missing

def textOnDisk? (path : String) : IO (Option String) := do
  try return String.fromUTF8? (← IO.FS.readBinFile path)
  catch _ => return none

def namesOnDisk (path : String) : IO (List String) := do
  try return ((← (entryAt path).path.readDir).map (·.fileName)).toList
  catch _ => return []

/-- The directories from a path upwards, nearest first. -/
def directoriesUpwards (path : String) : List String :=
  let parts := (pathParts path).filter (· ≠ "")
  (List.range (parts.length + 1)).reverse.map fun n => "/" ++ String.intercalate "/" (parts.take n)

/-- The file system. -/
def systemDisk : Disk IO where
  kind := kindOnDisk
  text? := textOnDisk?
  names := namesOnDisk
  upwards := do return directoriesUpwards (← IO.currentDir).toString

end SchemaDump

open SchemaDump in
def main (arguments : List String) : IO UInt32 := do
  let outcome ← runArguments systemDisk arguments
  IO.print outcome.output
  if let some failure := outcome.failure then IO.eprintln ("Error: " ++ failure.message)
  return outcome.exitCode.toUInt32
