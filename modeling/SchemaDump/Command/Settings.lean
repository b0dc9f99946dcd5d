import SchemaDump.Dialect.Basic
import SchemaDump.Files.Glob
import SchemaDump.Toml.Document
import SchemaDump.Command.Arguments
/- Settings of a project, which arguments may override. -/
namespace SchemaDump

/-- What can be configured: dumps or patterns of them, a dialect, and the form of the output. -/
structure Settings where
  schema : List String := []
  dialect : Option String := none
  format : Option String := none
  deriving DecidableEq

namespace Settings

def fileName : String := "ddlscope.toml"

/-- Where a dump is looked for when nothing else is said. -/
def defaultDump : String := "db/structure.sql"

def asString? : Toml.Node → Option String
  | .value (.string s) => some s
  | _ => none

def asStrings? : Toml.Node → Option (List String)
  | .value (.array elements) => elements.mapM fun
      | .string s => some s
      | _ => none
  | _ => none

/-- Reads an entry that may be missing, but has to have the right form if it is there. -/
def entry? {α : Type} (entries : Toml.Entries) (key : String) (read? : Toml.Node → Option α) :
    Option (Option α) :=
  match entries.find? key with
  | none => some none
  | some node => (read? node).map some

/-- Reads settings; what they do not know is passed over. -/
def ofToml? (text : Text) : Option Settings := do
  let entries ← Toml.read? text
  return {
    schema := (← entry? entries "schema" asStrings?).getD []
    dialect := ← entry? entries "dialect" asString?
    format := ← entry? entries "format" asString? }

/-- The settings with those that a request gives itself. -/
def overriddenBy (s : Settings) (r : Request) : Settings where
  schema := if r.files.isEmpty then s.schema else r.files
  dialect := r.dialect <|> s.dialect
  format := (r.format.map OutputFormat.name) <|> s.format

/-- The dialect that is forced, if any. -/
def forcedDialect (s : Settings) : Except UnsupportedDialect (Option Dialect) :=
  match s.dialect with
  | none => .ok none
  | some tag => (Dialect.ofTag tag).map some

/-- Whatever is not JSON is meant for people. -/
def outputFormat (s : Settings) : OutputFormat :=
  if s.format = some "json" then .json else .human

section
variable {m : Type → Type} [Monad m] (disk : Disk m)

/-- The files that patterns and paths stand for. Only what holds a star is a pattern; `none` if
one cannot be read. -/
def expandAll : List String → m (Option (List String))
  | [] => return some []
  | path :: paths => do
      if path.toList.contains '*' then
        match Glob.read? path.toList with
        | none => return none
        | some glob =>
            let found ← glob.expand disk
            return (← expandAll paths).map (found ++ ·)
      else return (← expandAll paths).map (path :: ·)

/-- The dumps to read, in order. -/
def dumps (s : Settings) : m (Option (List String)) :=
  if s.schema.isEmpty then return some [defaultDump] else expandAll disk s.schema

end

end Settings
end SchemaDump
