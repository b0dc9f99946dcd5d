import SchemaDump.Files.Disk
/- Patterns of file names, and the paths that they stand for. -/
namespace SchemaDump

/-- What a pattern of one name is made of. -/
inductive GlobToken
  | char (c : Char)
  | anyChar
  | anyText
  | oneOf (negated : Bool) (ranges : List (Char × Char))
  deriving DecidableEq

/-- One step of a pattern: a plain name, a pattern of names, or any number of directories. -/
inductive GlobStep
  | plain (name : Text)
  | names (tokens : List GlobToken)
  | deep
  deriving DecidableEq

/-- A pattern of paths. -/
structure Glob where
  absolute : Bool
  steps : List GlobStep
  directoriesOnly : Bool
  deriving DecidableEq

namespace GlobToken

/-- The ranges in a bracket; a hyphen stands for a range if it has a character on both sides. -/
def ranges : Text → List (Char × Char)
  | a :: '-' :: b :: rest => (a, b) :: ranges rest
  | a :: rest => (a, a) :: ranges rest
  | [] => []

/-- The inside of a bracket and what follows it. The first character never closes it. -/
def bracket? : Text → Option (Text × Text)
  | [] => none
  | c :: rest =>
      match rest.dropWhile (· != ']') with
      | [] => none
      | _ :: after => some (c :: rest.takeWhile (· != ']'), after)

/-- The tokens of a name pattern. Every token reads a character, so the text bounds them. Two
stars in a row are refused, as is a bracket without an end. -/
def read? : (bound text : Text) → Option (List GlobToken)
  | _, [] => some []
  | [], _ :: _ => none
  | _ :: bound, c :: rest =>
      if c = '?' then (read? bound rest).map (anyChar :: ·)
      else if c = '*' then
        if rest.head? = some '*' then none else (read? bound rest).map (anyText :: ·)
      else if c = '[' then
        match rest with
        | '!' :: rest => do
            let (inner, rest) ← bracket? rest
            return oneOf true (ranges inner) :: (← read? bound rest)
        | rest => do
            let (inner, rest) ← bracket? rest
            return oneOf false (ranges inner) :: (← read? bound rest)
      else (read? bound rest).map (char c :: ·)

def accepts : GlobToken → Char → Bool
  | char expected, c => c == expected
  | anyChar, _ => true
  | anyText, _ => true
  | oneOf negated ranges, c => ranges.any (fun (low, high) => low ≤ c && c ≤ high) != negated

/-- Whether some end of a text passes a test. -/
def anyEnd (test : Text → Bool) : Text → Bool
  | [] => test []
  | c :: rest => test (c :: rest) || anyEnd test rest

/-- Whether a name has the form of a pattern. -/
def matchAll : List GlobToken → Text → Bool
  | [], name => name.isEmpty
  | anyText :: tokens, name => anyEnd (matchAll tokens) name
  | token :: tokens, c :: name => token.accepts c && matchAll tokens name
  | _ :: _, [] => false

/-- The name that a pattern without special characters spells. -/
def plainName? : List GlobToken → Option Text
  | [] => some []
  | char c :: tokens => (plainName? tokens).map (c :: ·)
  | _ => none

end GlobToken

namespace GlobStep

def read? (name : Text) : Option GlobStep :=
  if name = ['*', '*'] then some deep
  else (GlobToken.read? name name).map fun tokens =>
    match GlobToken.plainName? tokens with
    | some name => plain name
    | none => names tokens

/-- Whether a name in a directory suits a step. -/
def accepts (step : GlobStep) (name : String) : Bool :=
  match step with
  | plain expected => name.toList = expected
  | names tokens => GlobToken.matchAll tokens name.toList
  | deep => true

/-- Whether the names of a directory itself and of the one above are tried: they have to be
asked for by a leading dot. -/
def acceptsDots : GlobStep → Bool
  | names (.char '.' :: _) => true
  | _ => false

end GlobStep

namespace Glob

/-- Several steps through any number of directories are one such step. -/
def mergeDeep : List GlobStep → List GlobStep
  | [] => []
  | step :: steps =>
      match step, mergeDeep steps with
      | .deep, .deep :: merged => .deep :: merged
      | step, merged => step :: merged

def read? (pattern : Text) : Option Glob := do
  let absolute := pattern.head? = some '/'
  let directoriesOnly := pattern.getLast? = some '/'
  let parts := Text.splitAtChar '/' (if absolute then pattern.drop 1 else pattern)
  let steps ← (if directoriesOnly then parts.dropLast else parts).mapM GlobStep.read?
  return { absolute, steps := mergeDeep steps, directoriesOnly }

/-- Directories can hardly be nested deeper than this, since the length of a path is limited. -/
def deepest : Nat := 4096

section
variable {m : Type → Type} [Monad m] (disk : Disk m)

def isDirectory (path : String) : m Bool := do return (← disk.kind path) == .directory

def isPresent (path : String) : m Bool := do return (← disk.kind path) != .missing

/-- The path of a name within a directory; the current directory is not mentioned in it. -/
def child (directory name : String) : String :=
  if isHere directory then name else joinPath directory name

/-- The names in a directory in order; there are none in a file. -/
def sortedNames (directory : String) : m (List String) := do
  if ← isDirectory disk directory then
    return (← disk.names directory).mergeSort (· ≤ ·)
  else return []

def collect (visit : String → m (List String)) : List String → m (List String)
  | [] => return []
  | name :: names => do
      let found ← visit name
      return found ++ (← collect visit names)

/-- Visits everything below a directory, each directory before what it holds. -/
def below (visit : String → String → m (List String)) : Nat → String → m (List String)
  | 0, _ => return []
  | depth + 1, directory => do
      collect (fun name => do
        let path := child directory name
        let found ← visit name path
        return found ++ (← below visit depth path)) (← sortedNames disk directory)

/-- Continues from a path with what is left of a pattern; at its end the path is a result. -/
def settle (directoriesOnly : Bool) (continue? : Option (String → m (List String)))
    (path : String) : m (List String) :=
  match continue? with
  | some next => next path
  | none => do
      if directoriesOnly && !(← isDirectory disk path) then return [] else return [path]

/-- The paths that the steps of a pattern lead to from a directory. -/
def pathsFrom (directoriesOnly : Bool) : List GlobStep → String → m (List String)
  | [], _ => return []
  | step :: steps, directory => do
      let next := settle disk directoriesOnly
        (if steps.isEmpty then none else some (pathsFrom directoriesOnly steps))
      match step with
      | .plain name =>
          let name := String.ofList name
          let path := child directory name
          if ← if name = "." || name = ".." then isDirectory disk directory else isPresent disk path
          then next path else return []
      | .names _ =>
          let dots := if step.acceptsDots then [".", ".."].filter step.accepts else []
          let dots ← if ← isDirectory disk directory then pure dots else pure []
          let special ← collect (fun name => next (joinPath directory name)) dots.reverse
          let named ← collect (fun name =>
            if step.accepts name then next (child directory name) else return [])
            (← sortedNames disk directory)
          return special ++ named
      | .deep =>
          match steps with
          | [] => below disk (fun _ path => settle disk true none path) deepest directory
          | following :: rest =>
              let next := settle disk directoriesOnly
                (if rest.isEmpty then none else some (pathsFrom directoriesOnly rest))
              below disk (fun name path =>
                if following.accepts name then next path else return []) deepest directory

/-- The paths that a pattern stands for. -/
def expand (glob : Glob) : m (List String) :=
  pathsFrom disk glob.directoriesOnly glob.steps (if glob.absolute then "/" else ".")

end

end Glob
end SchemaDump
