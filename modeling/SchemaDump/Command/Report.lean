import SchemaDump.Schema.Json
import SchemaDump.Json.Writer
/- What is told about a dump. -/
namespace SchemaDump

def Dialect.nameOr (unknown : String) : Option Dialect → String
  | some d => d.name
  | none => unknown

/-- A column in one line. -/
def Column.describe (c : Column) : String :=
  " ".intercalate (
    [c.name, c.declaredType] ++
    (if c.isPrimaryKey then ["PK"] else []) ++
    (if c.isNullable then [] else ["NOT NULL"]) ++
    (match c.defaultValue with
      | some value => ["DEFAULT " ++ value]
      | none => []) ++
    (match c.foreignKey with
      | some key => ["-> " ++ key.referencesTable ++ "." ++ key.referencesColumn]
      | none => []))

def Table.describe (t : Table) : String :=
  "  Table: " ++ t.name ++ "\n" ++
    String.join (t.columns.map fun c => "    - " ++ c.describe ++ "\n")

namespace Report

def tables (file : String) (schema : Schema) (dialect : Option Dialect) : String :=
  file ++ " (" ++ Dialect.nameOr "unknown" dialect ++ ")\n" ++
    if schema.isEmpty then "  no schema detected\n"
    else String.join (schema.tables.map Table.describe)

def tablesJson (file : String) (schema : Schema) (dialect : Option Dialect) : String :=
  (Json.record [
    ("dialect", .ofOption (dialect.map Dialect.toJson)),
    ("file", .text file),
    ("tables", .array (schema.tables.map Table.toJson))]).pretty ++ "\n"

def dialect (file : String) (dialect : Option Dialect) : String :=
  file ++ ": " ++ Dialect.nameOr "unknown" dialect ++ "\n"

/-- The foreign keys that leave a table, and the columns whose keys lead to it. -/
def references (file : String) (schema : Schema) (table : Table) : String :=
  table.name ++ " (" ++ file ++ ")\n" ++
  "  references:\n" ++
  String.join (table.foreignKeys.map fun key =>
    "    " ++ key.describe ++
      (if (schema.referencedTable? key).isSome then "" else " (not in dump)") ++ "\n") ++
  "  referenced by:\n" ++
  String.join ((schema.referencing table.name).map fun (source, column) =>
    "    " ++ source.name ++ "." ++ column.name ++ "\n")

def referencesJson (file : String) (schema : Schema) (table : Table) : String :=
  (Json.record [
    ("file", .text file),
    ("referencedBy", .array ((schema.referencing table.name).map fun (source, column) =>
      .record [
        ("foreignKey", .ofOption (column.foreignKey.map ForeignKey.toJson)),
        ("table", .text source.name)])),
    ("references", .array (table.foreignKeys.map ForeignKey.toJson)),
    ("table", .text table.name)]).pretty ++ "\n"

end Report
end SchemaDump
