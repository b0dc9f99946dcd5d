import SchemaDump.Text.Basic
/- The dialects of SQL whose dumps can be read. -/
namespace SchemaDump

inductive Dialect
  | postgresql
  | mysql
  deriving DecidableEq

/-- A dialect was asked for by a tag that names none. -/
structure UnsupportedDialect where
  tag : String
  deriving DecidableEq

namespace UnsupportedDialect

def message (e : UnsupportedDialect) : String := "Unsupported SQL dialect: " ++ e.tag

def code : String := "ddlscope::unsupported_dialect"

def help : String := "Supported dialects: mysql, postgresql."

end UnsupportedDialect

/-- The quote that MySQL puts around identifiers. -/
def backQuote : Char := '\x60'

/-- Removes the blanks around an identifier and all quotes of identifiers in it. -/
def unquote (identifier : Text) : Text :=
  identifier.trim.filter fun c => c != '"' && c != backQuote

namespace Dialect

def name : Dialect → String
  | .postgresql => "postgresql"
  | .mysql => "mysql"

/-- The dialect that a tag names, in any letter case. No letter of a tag is the lower case of
a character beyond ASCII, so lowering the ASCII letters decides. -/
def ofTag (tag : String) : Except UnsupportedDialect Dialect :=
  let lower := tag.toList.map Char.toLower
  if lower = "postgresql".toList || lower = "postgres".toList || lower = "pg".toList then
    .ok .postgresql
  else if lower = "mysql".toList || lower = "mysql8".toList then .ok .mysql
  else .error ⟨tag⟩

/-- The schema that an unqualified table name belongs to; empty where there is none. -/
def defaultSchema : Dialect → String
  | .postgresql => "public"
  | .mysql => ""

/-- Whether a default value may carry a cast to a type. -/
def hasCastSuffix : Dialect → Bool
  | .postgresql => true
  | .mysql => false

/-- The name of a table as other statements may refer to it: without quotes, and without the
default schema in front if a name is left then. -/
def normalizeName (d : Dialect) (raw : Text) : String :=
  let name := unquote raw
  let schema := d.defaultSchema.toList
  if schema.isEmpty then .ofList name
  else match Text.dropPrefix? (schema ++ ['.']) name with
    | some (c :: rest) => .ofList (c :: rest)
    | _ => .ofList name

end Dialect
end SchemaDump
