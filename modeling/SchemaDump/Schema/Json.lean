import SchemaDump.Json.Basic
import SchemaDump.Schema.Basic
import SchemaDump.Dialect.Basic
/- The JSON form of a schema. Members are written in the order of their keys; a default and a
foreign key are left out where there is none. -/
namespace SchemaDump
open Json

def ForeignKey.toJson (key : ForeignKey) : Json := .record [
  ("column", .text key.column),
  ("referencesColumn", .text key.referencesColumn),
  ("referencesTable", .text key.referencesTable)]

def Column.toJson (c : Column) : Json := .record (
  [("declaredType", .text c.declaredType)] ++
  (match c.defaultValue with
    | some value => [("defaultValue", .text value)]
    | none => []) ++
  (match c.foreignKey with
    | some key => [("foreignKey", key.toJson)]
    | none => []) ++
  [("isNullable", .bool c.isNullable), ("isPrimaryKey", .bool c.isPrimaryKey),
    ("name", .text c.name)])

def Table.toJson (t : Table) : Json := .record [
  ("columns", .array (t.columns.map Column.toJson)),
  ("name", .text t.name)]

def Schema.toJson (s : Schema) : Json := .record [
  ("tables", .array (s.tables.map Table.toJson))]

def Dialect.toJson (d : Dialect) : Json := .text d.name

namespace Json

def asString? : Json → Option String
  | .string value => value
  | _ => none

def asBool? : Json → Option Bool
  | .bool value => some value
  | _ => none

def asArray? : Json → Option (List Json)
  | .array elements => some elements
  | _ => none

/-- A member that may be `null`. -/
def asOptional? {α : Type} (read? : Json → Option α) : Json → Option (Option α)
  | .null => some none
  | value => (read? value).map some

/-- The values of one member; a known member may stand in an object only once. -/
def member? (members : List (Option String × Json)) (key : String) : Option (Option Json) :=
  match members.filter (·.1 = some key) with
  | [] => some none
  | [(_, value)] => some (some value)
  | _ => none

/-- The values of a record by field. A record is an object, whose other members are passed over,
or an array of the values in the order of the fields, which may end early. -/
def fields? (names : List String) : Json → Option (List (Option Json))
  | .object members =>
      if members.all (·.1.isSome) then names.mapM (member? members) else none
  | .array elements =>
      if elements.length ≤ names.length then
        some (elements.map some ++ List.replicate (names.length - elements.length) none)
      else none
  | _ => none

end Json

def ForeignKey.ofJson? (j : Json) : Option ForeignKey := do
  let [some column, some table, some target] ←
      j.fields? ["column", "referencesTable", "referencesColumn"] | none
  return ⟨← column.asString?, ← table.asString?, ← target.asString?⟩

def Column.ofJson? (j : Json) : Option Column := do
  let [some name, some type, some isPrimaryKey, some isNullable, default, key] ←
      j.fields? ["name", "declaredType", "isPrimaryKey", "isNullable", "defaultValue",
        "foreignKey"] | none
  return {
    name := ← name.asString?
    declaredType := ← type.asString?
    isPrimaryKey := ← isPrimaryKey.asBool?
    isNullable := ← isNullable.asBool?
    defaultValue := ← (default.getD .null).asOptional? asString?
    foreignKey := ← (key.getD .null).asOptional? ForeignKey.ofJson? }

def Table.ofJson? (j : Json) : Option Table := do
  let [some name, some columns] ← j.fields? ["name", "columns"] | none
  return ⟨← name.asString?, ← (← columns.asArray?).mapM Column.ofJson?⟩

def Schema.ofJson? (j : Json) : Option Schema := do
  let [some tables] ← j.fields? ["tables"] | none
  return ⟨← (← tables.asArray?).mapM Table.ofJson?⟩

def Dialect.ofName? (name : String) : Option Dialect :=
  if name = "postgresql" then some .postgresql
  else if name = "mysql" then some .mysql
  else none

/-- A dialect is its name, or an object whose only member has that name and no value. -/
def Dialect.ofJson? : Json → Option Dialect
  | .string value => value.bind ofName?
  | .object [(key, .null)] => key.bind ofName?
  | _ => none

end SchemaDump
