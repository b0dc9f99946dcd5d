import SchemaDump.Dump.MySQL
import SchemaDump.Proofs.Pattern.Scan
import SchemaDump.Proofs.Schema.Draft
/- The tables of a MySQL dump, one for each reading of a table block. -/
namespace SchemaDump.MySQL

def bodyColumns (body : Text) : List Column :=
  ((splitDefinitions body).filter fun fragment => !opensConstraint .mysql fragment).filterMap
    parseColumn?

def bodyConstraints (body : Text) : List Constraint :=
  ((splitDefinitions body).filter (opensConstraint .mysql)).filterMap (Constraint.parse? .mysql)

/-- The table that the parts of a block define. -/
def tableOf (parts : List (Part × Text)) : Table :=
  let block : Match Part := ⟨[], parts, []⟩
  .ofDefinition (Dialect.mysql.normalizeName (block.part .name)) (bodyColumns (block.part .body))
    (bodyConstraints (block.part .body))

theorem parseTable_eq (name : String) (body : Text) :
    (parseTable name body).WellIndexed ∧
      (parseTable name body).build = .ofDefinition name (bodyColumns body) (bodyConstraints body) := by
  rw [parseTable, List.partition_eq_filter_filter]
  exact TableDraft.build_foldl_apply name (bodyColumns body) (bodyConstraints body)

theorem parse_tables (sql : Text) :
    (parse sql).tables = (tableBlock.found none sql).map fun r => tableOf r.parts := by
  have hfold := SchemaDraft.wellIndexed_empty.foldl_addTable
    (fun o : Occurrence Part =>
      parseTable (Dialect.mysql.normalizeName (o.part .name)) (o.part .body))
    (fun o => (parseTable_eq _ _).1) (tableBlock.occurrences sql)
  have hreadings := tableBlock.occurrences_reading sql
  rw [parse, SchemaDraft.build, hfold.2]
  rw [show tableBlock.found none sql = _ from hreadings.symm]
  simp only [SchemaDraft.empty, List.nil_append, List.map_map]
  apply List.map_congr_left
  intro o _
  simp only [Function.comp_apply, (parseTable_eq _ _).2, Occurrence.part_eq]
  rfl

end SchemaDump.MySQL
