import SchemaDump.Schema.Constraint
/- A schema under construction. Tables and columns stay addressable by name, so that a
constraint can be applied after the definitions it speaks of. -/
namespace SchemaDump

/-- The position at which each name was first used. -/
structure NameIndex where
  entries : List (String × Nat)
  deriving DecidableEq

namespace NameIndex

def empty : NameIndex := ⟨[]⟩

def position? (index : NameIndex) (name : String) : Option Nat :=
  (index.entries.find? (·.1 = name)).map (·.2)

/-- Notes where a name is used; a name that is known keeps its position. -/
def note (index : NameIndex) (name : String) (position : Nat) : NameIndex :=
  if (index.position? name).isSome then index else ⟨index.entries ++ [(name, position)]⟩

end NameIndex

/-- A table under construction. -/
structure TableDraft where
  name : String
  columns : List Column
  positions : NameIndex
  deriving DecidableEq

namespace TableDraft

def empty (name : String) : TableDraft := ⟨name, [], .empty⟩

def pushColumn (t : TableDraft) (column : Column) : TableDraft :=
  { t with
    columns := t.columns ++ [column]
    positions := t.positions.note column.name t.columns.length }

/-- Changes the first column of a name, if there is one. -/
def updateColumn? (t : TableDraft) (name : String) (change : Column → Column) :
    Option TableDraft :=
  (t.positions.position? name).map fun position =>
    { t with columns := t.columns.modify position change }

def updateColumn (t : TableDraft) (name : String) (change : Column → Column) : TableDraft :=
  (t.updateColumn? name change).getD t

/-- Marks every listed column that exists. -/
def markPrimaryKey (t : TableDraft) (columns : List String) : TableDraft :=
  columns.foldl (fun t name => t.updateColumn name ({ · with isPrimaryKey := true })) t

/-- Gives a foreign key to its local column in place of any earlier one. -/
def attachForeignKey (t : TableDraft) (key : ForeignKey) : TableDraft :=
  t.updateColumn key.column ({ · with foreignKey := some key })

def apply (t : TableDraft) : Constraint → TableDraft
  | .primaryKey columns => t.markPrimaryKey columns
  | .foreignKey key => key.decompose.foldl attachForeignKey t

def build (t : TableDraft) : Table := ⟨t.name, t.columns⟩

end TableDraft

/-- A schema under construction. -/
structure SchemaDraft where
  tables : List TableDraft
  positions : NameIndex
  deriving DecidableEq

namespace SchemaDraft

def empty : SchemaDraft := ⟨[], .empty⟩

def size (s : SchemaDraft) : Nat := s.tables.length

def isEmpty (s : SchemaDraft) : Bool := s.tables.isEmpty

def addTable (s : SchemaDraft) (table : TableDraft) : SchemaDraft :=
  { tables := s.tables ++ [table]
    positions := s.positions.note table.name s.tables.length }

/-- The first table of a name. -/
def table? (s : SchemaDraft) (name : String) : Option TableDraft :=
  (s.positions.position? name).bind (s.tables[·]?)

/-- Changes the first table of a name, if there is one. -/
def updateTable? (s : SchemaDraft) (name : String) (change : TableDraft → TableDraft) :
    Option SchemaDraft :=
  (s.positions.position? name).map fun position =>
    { s with tables := s.tables.modify position change }

/-- Applies a constraint declared outside the table; an unknown table leaves nothing to do. -/
def applyDeferred (s : SchemaDraft) (table : String) (constraint : Constraint) : SchemaDraft :=
  (s.updateTable? table (·.apply constraint)).getD s

def build (s : SchemaDraft) : Schema := ⟨s.tables.map TableDraft.build⟩

end SchemaDraft
end SchemaDump
