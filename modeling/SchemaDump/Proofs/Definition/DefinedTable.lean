import SchemaDump.Definition.Constraint
import SchemaDump.Definition.Split
import SchemaDump.Proofs.Schema.Default
/- What a table takes from its definitions. Each definition is read on its own, so that another definition in
the place of one of them changes what this one says and nothing else. -/
namespace SchemaDump

variable (dialect : Dialect) (parseColumn? : Text → Option Column)

def definedColumns (definitions : List Text) : List Column :=
  ((definitions.map Text.trim).filter fun fragment => !opensConstraint dialect fragment).filterMap parseColumn?

def definedConstraints (definitions : List Text) : List Constraint :=
  ((definitions.map Text.trim).filter (opensConstraint dialect)).filterMap (Constraint.parse? dialect)

def definedTable (name : String) (definitions : List Text) : Table :=
  .ofDefinition name (definedColumns dialect parseColumn? definitions) (definedConstraints dialect definitions)

variable {dialect parseColumn?} {name value : String} {above below : List Text} {line other : Text} {column : Column}

/-- A line that defines one column and nothing else. -/
structure DefinesColumn (dialect : Dialect) (parseColumn? : Text → Option Column) (line : Text) (column : Column) :
    Prop where
  opensNone : opensConstraint dialect line.trim = false
  parses : parseColumn? line.trim = some column

theorem DefinesColumn.mem_definedColumns {definitions : List Text} (h : DefinesColumn dialect parseColumn? line column)
    (hmem : line ∈ definitions) : column ∈ definedColumns dialect parseColumn? definitions :=
  List.mem_filterMap.mpr ⟨line.trim, List.mem_filter.mpr ⟨List.mem_map_of_mem hmem, by simp [h.opensNone]⟩, h.parses⟩

theorem definedTable_split (name : String) (above below : List Text) (h : DefinesColumn dialect parseColumn? line column) :
    definedTable dialect parseColumn? name (above ++ line :: below) =
      .ofDefinition name
        (definedColumns dialect parseColumn? above ++ column :: definedColumns dialect parseColumn? below)
        (definedConstraints dialect above ++ definedConstraints dialect below) := by
  simp [definedTable, definedColumns, definedConstraints, h.opensNone, h.parses]

theorem definedTable_congr (h : DefinesColumn dialect parseColumn? line column)
    (hother : DefinesColumn dialect parseColumn? other column) :
    definedTable dialect parseColumn? name (above ++ other :: below) =
      definedTable dialect parseColumn? name (above ++ line :: below) := by
  rw [definedTable_split name above below hother, definedTable_split name above below h]

theorem definedTable_withDefault (h : DefinesColumn dialect parseColumn? line column)
    (hother : DefinesColumn dialect parseColumn? other (column.withDefault value)) :
    definedTable dialect parseColumn? name (above ++ other :: below) =
      (definedTable dialect parseColumn? name (above ++ line :: below)).withDefault
        (definedColumns dialect parseColumn? above).length value := by
  rw [definedTable_split name above below hother, definedTable_split name above below h,
    ← Table.withDefault_ofDefinition, modify_length_append]

end SchemaDump
