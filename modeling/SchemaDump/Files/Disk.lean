import SchemaDump.Text.Basic
/- Access to files, by paths as they are written. -/
namespace SchemaDump

/-- What a path leads to. -/
inductive FileKind
  | missing
  | directory
  | file
  deriving DecidableEq

/-- What can be asked about files, from within a current directory. -/
structure Disk (m : Type → Type) where
  kind : String → m FileKind
  /-- The content of a file, if it can be read and is UTF-8 text. -/
  text? : String → m (Option String)
  /-- The names in a directory, in any order. -/
  names : String → m (List String)
  /-- The current directory and all directories above it, nearest first. -/
  upwards : m (List String)

/-- A name within a directory. -/
def joinPath (directory name : String) : String :=
  if directory = "" || directory.toList.getLast? = some '/' then directory ++ name
  else directory ++ "/" ++ name

/-- The names in a path. -/
def pathParts (path : String) : List String :=
  (Text.splitAtChar '/' path.toList).map String.ofList

def isAbsolute (path : String) : Bool := path.toList.head? = some '/'

/-- Whether a path is written as the current directory. -/
def isHere (path : String) : Bool :=
  let parts := pathParts path
  !isAbsolute path && parts.contains "." && parts.all fun part => part = "" || part = "."

end SchemaDump
