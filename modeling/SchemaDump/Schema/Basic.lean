/- Tables, columns and foreign keys recovered from a dump. -/
namespace SchemaDump

/-- A foreign key of one column; a key over several columns is kept as one key for each. -/
structure ForeignKey where
  column : String
  referencesTable : String
  referencesColumn : String
  deriving DecidableEq

/-- A column as declared. The type is kept as written, without the markers found in it. -/
structure Column where
  name : String
  declaredType : String
  isPrimaryKey : Bool := false
  isNullable : Bool := true
  defaultValue : Option String := none
  foreignKey : Option ForeignKey := none
  deriving DecidableEq

/-- A table with its columns in the order of their definitions. -/
structure Table where
  name : String
  columns : List Column
  deriving DecidableEq

/-- All tables of a dump, in the order of their definitions. -/
structure Schema where
  tables : List Table
  deriving DecidableEq

/-- The key in words: local column, then table and column it points at. -/
def ForeignKey.describe (key : ForeignKey) : String :=
  key.column ++ " -> " ++ key.referencesTable ++ "." ++ key.referencesColumn

namespace Table

/-- The first column of a name. -/
def column? (t : Table) (name : String) : Option Column := t.columns.find? (·.name = name)

def columnNames (t : Table) : List String := t.columns.map (·.name)

/-- The columns that make up the primary key. -/
def primaryKey (t : Table) : List Column := t.columns.filter (·.isPrimaryKey)

def foreignKeys (t : Table) : List ForeignKey := t.columns.filterMap (·.foreignKey)

end Table

namespace Schema

/-- The schema of a text in which no table is recognised. -/
def empty : Schema := ⟨[]⟩

def size (s : Schema) : Nat := s.tables.length

def isEmpty (s : Schema) : Bool := s.tables.isEmpty

/-- The first table of a name. -/
def table? (s : Schema) (name : String) : Option Table := s.tables.find? (·.name = name)

def tableNames (s : Schema) : List String := s.tables.map (·.name)

/-- The table that a foreign key leads to. -/
def referencedTable? (s : Schema) (key : ForeignKey) : Option Table :=
  s.table? key.referencesTable

/-- Every column whose foreign key leads to a table name, with the table it stands in. -/
def referencing (s : Schema) (name : String) : List (Table × Column) :=
  s.tables.flatMap fun t =>
    (t.columns.filter fun c => c.foreignKey.any (·.referencesTable = name)).map (t, ·)

end Schema
end SchemaDump
