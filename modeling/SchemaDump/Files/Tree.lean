import SchemaDump.Files.Disk
/- A directory tree held in memory. -/
namespace SchemaDump

/-- Files by the names on the way to them, and a current directory. -/
structure FileTree where
  files : List (List String × ByteArray)
  here : List String

namespace FileTree

/-- What stands at a place. A directory is whatever holds a file or the current directory. -/
def kindAt (t : FileTree) (place : List String) : FileKind :=
  if t.files.any (·.1 = place) then .file
  else if place.isEmpty || place.isPrefixOf t.here || t.files.any (place.isPrefixOf ·.1) then
    .directory
  else .missing

/-- Follows the names of a path from a place; each step has to start in a directory. -/
def follow? (t : FileTree) : List String → List String → Option (List String)
  | [], place => some place
  | part :: parts, place =>
      if t.kindAt place ≠ .directory then none
      else if part = "" || part = "." then t.follow? parts place
      else if part = ".." then t.follow? parts place.dropLast
      else t.follow? parts (place ++ [part])

/-- The place that a path leads to. -/
def place? (t : FileTree) (path : String) : Option (List String) :=
  if path = "" then none
  else t.follow? (pathParts path) (if isAbsolute path then [] else t.here)

def kind (t : FileTree) (path : String) : FileKind :=
  match t.place? path with
  | some place => t.kindAt place
  | none => .missing

def text? (t : FileTree) (path : String) : Option String := do
  let place ← t.place? path
  let (_, content) ← t.files.find? (·.1 = place)
  String.fromUTF8? content

/-- The name that follows a place on the way to another one. -/
def nextName? : (place target : List String) → Option String
  | [], name :: _ => some name
  | part :: place, name :: target => if part = name then nextName? place target else none
  | _, [] => none

def names (t : FileTree) (path : String) : List String :=
  match t.place? path with
  | none => []
  | some place => ((t.here :: t.files.map (·.1)).filterMap (nextName? place)).eraseDups

/-- The directories from a place up to the root. -/
def upwardsFrom (place : List String) : List String :=
  (List.range (place.length + 1)).reverse.map fun n => "/" ++ String.intercalate "/" (place.take n)

/-- The tree as a disk. -/
def disk (t : FileTree) : Disk Id where
  kind := t.kind
  text? := t.text?
  names := t.names
  upwards := upwardsFrom t.here

end FileTree
end SchemaDump
