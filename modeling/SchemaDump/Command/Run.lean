import SchemaDump.Command.Settings
import SchemaDump.Command.Report
import SchemaDump.Dump.Extract
/- What the program does on a request. -/
namespace SchemaDump

/-- Why a request could not be carried out. -/
inductive Failure
  | usage (message : String)
  | badSettings (path : String)
  | unsupportedDialect (e : UnsupportedDialect)
  | badPattern
  | missingDump (path : String)
  | unreadableDump (path : String)
  deriving DecidableEq

namespace Failure

def message : Failure → String
  | usage message => message
  | badSettings path => "Cannot read configuration " ++ path
  | unsupportedDialect e => e.message
  | badPattern => "Invalid file pattern"
  | missingDump path => "No schema dump found at " ++ path
  | unreadableDump path => "Cannot read " ++ path

end Failure

/-- What was printed, whether there was anything to report, and what went wrong in the end. -/
structure Outcome where
  output : String
  found : Bool
  failure : Option Failure
  deriving DecidableEq

namespace Outcome

def fail (f : Failure) : Outcome := ⟨"", false, some f⟩

def exitCode (o : Outcome) : Nat :=
  if o.failure.isSome then 2 else if o.found then 0 else 1

end Outcome

/-- The schema of a dump and its dialect, which may be forced. -/
def extractForced (forced : Option Dialect) (sql : Text) : Schema × Option Dialect :=
  match forced with
  | some d => (d.extract sql, some d)
  | none => (.ofDump sql, Dialect.detect sql)

/-- What an action prints about one dump, and whether it found something. -/
def reportOn (action : Action) (forced : Option Dialect) (format : OutputFormat)
    (file content : String) : String × Bool :=
  match action with
  | .tables =>
      let (schema, dialect) := extractForced forced content.toList
      let output := match format with
        | .human => Report.tables file schema dialect
        | .json => Report.tablesJson file schema dialect
      (output, !schema.isEmpty)
  | .dialects =>
      let dialect := Dialect.detect content.toList
      (Report.dialect file dialect, dialect.isSome)
  | .references name =>
      let schema := (extractForced forced content.toList).1
      match schema.table? name with
      | none => ("", false)
      | some table =>
          match format with
          | .human => (Report.references file schema table, true)
          | .json => (Report.referencesJson file schema table, true)

/-- The dialect that an action forces; telling dialects never does. -/
def Action.forcedDialect (action : Action) (settings : Settings) :
    Except UnsupportedDialect (Option Dialect) :=
  match action with
  | .dialects => .ok none
  | _ => settings.forcedDialect

section
variable {m : Type → Type} [Monad m] (disk : Disk m)

def readDump (path : String) : m (Except Failure String) := do
  if (← disk.kind path) == .missing then return .error (.missingDump path)
  match ← disk.text? path with
  | some content => return .ok content
  | none => return .error (.unreadableDump path)

/-- Reports on dumps one after the other, up to the first that cannot be read. -/
def reportAll (report : String → String → String × Bool) : List String → m Outcome
  | [] => return ⟨"", false, none⟩
  | file :: files => do
      match ← readDump disk file with
      | .error f => return .fail f
      | .ok content =>
          let (output, found) := report file content
          let rest ← reportAll report files
          return { rest with output := output ++ rest.output, found := found || rest.found }

def loadSettings (path : String) : m (Except Failure Settings) := do
  match (← disk.text? path).bind fun text => Settings.ofToml? text.toList with
  | some settings => return .ok settings
  | none => return .error (.badSettings path)

/-- The settings in the first of several directories that has any. -/
def findSettings : List String → m (Except Failure Settings)
  | [] => return .ok {}
  | directory :: directories => do
      let path := joinPath directory Settings.fileName
      if (← disk.kind path) == .missing then findSettings directories
      else loadSettings disk path

/-- Carries out a request. -/
def Request.run (r : Request) : m Outcome := do
  let settings ← match r.config with
    | some path => loadSettings disk path
    | none => findSettings disk (← disk.upwards)
  match settings with
  | .error f => return .fail f
  | .ok settings =>
      let settings := settings.overriddenBy r
      match r.action.forcedDialect settings with
      | .error e => return .fail (.unsupportedDialect e)
      | .ok forced =>
          match ← settings.dumps disk with
          | none => return .fail .badPattern
          | some files =>
              reportAll disk (reportOn r.action forced settings.outputFormat) files

/-- Does what the arguments ask for. -/
def runArguments (arguments : List String) : m Outcome :=
  match Request.ofArguments arguments with
  | .ok request => request.run disk
  | .error (.answer text) => return ⟨text, true, none⟩
  | .error (.fault message) => return .fail (.usage message)

end
end SchemaDump
