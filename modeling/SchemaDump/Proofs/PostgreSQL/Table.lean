import SchemaDump.Dump.PostgreSQL
import SchemaDump.Proofs.Pattern.Scan
import SchemaDump.Proofs.Schema.Draft
/- The tables of a PostgreSQL dump: one for each table block, with the constraints that later
statements add to the first table of a name. -/
namespace SchemaDump

namespace PostgreSQL

def bodyColumns (body : Text) : List Column :=
  ((splitDefinitions body).filter fun fragment => !opensConstraint .postgresql fragment).filterMap
    parseColumn?

def bodyConstraints (body : Text) : List Constraint :=
  ((splitDefinitions body).filter (opensConstraint .postgresql)).filterMap
    (Constraint.parse? .postgresql)

/-- The table that the parts of a block define. -/
def tableOf (parts : List (Part × Text)) : Table :=
  let block : Match Part := ⟨[], parts, []⟩
  .ofDefinition (Dialect.postgresql.normalizeName (block.part .name))
    (bodyColumns (block.part .body)) (bodyConstraints (block.part .body))

/-- The constraints that statements add to tables, primary keys first. -/
def allAlterations (sql : Text) : List (String × Constraint) :=
  alterations alterPrimaryKey sql ++ alterations alterForeignKey sql

theorem alterations_eq (statement : SqlPattern) (sql : Text) :
    alterations statement sql = (statement.found none sql).filterMap fun r =>
      (Constraint.parse? .postgresql (r.part .constraint)).map
        (Dialect.postgresql.normalizeName (r.part .table), ·) := by
  rw [show statement.found none sql = _ from (statement.occurrences_reading sql).symm,
    List.filterMap_map, alterations]
  congr 1
  funext o
  rw [Function.comp_apply, Occurrence.part_eq, Occurrence.part_eq]

/-- The constraint that the parts of a statement add, with the table it is added to. -/
def additionOf (parts : List (Part × Text)) : Option (String × Constraint) :=
  let statement : Match Part := ⟨[], parts, []⟩
  (Constraint.parse? .postgresql (statement.part .constraint)).map
    (Dialect.postgresql.normalizeName (statement.part .table), ·)

theorem alterations_parts (statement : SqlPattern) (sql : Text) :
    alterations statement sql = ((statement.found none sql).map (·.parts)).filterMap additionOf := by
  rw [alterations_eq, List.filterMap_map]
  rfl

theorem parseTable_eq (name : String) (body : Text) :
    (parseTable name body).WellIndexed ∧
      (parseTable name body).build = .ofDefinition name (bodyColumns body) (bodyConstraints body) := by
  rw [parseTable, List.partition_eq_filter_filter]
  exact TableDraft.build_foldl_apply name (bodyColumns body) (bodyConstraints body)

theorem parse_tables (sql : Text) :
    (parse sql).tables =
      mapFirst (·.name) (Table.under (SchemaDraft.alterationsOf (allAlterations sql))) []
        ((tableBlock.found none sql).map fun r => tableOf r.parts) := by
  have hfold := SchemaDraft.wellIndexed_empty.foldl_addTable
    (fun o : Occurrence Part =>
      parseTable (Dialect.postgresql.normalizeName (o.part .name)) (o.part .body))
    (fun o => (parseTable_eq _ _).1) (tableBlock.occurrences sql)
  have hparse : parse sql =
      ((allAlterations sql).foldl (fun s a => s.applyDeferred a.1 a.2)
        ((tableBlock.occurrences sql).foldl (fun draft o => draft.addTable
          (parseTable (Dialect.postgresql.normalizeName (o.part .name)) (o.part .body)))
          SchemaDraft.empty)).build := rfl
  rw [hparse, hfold.1.foldl_applyDeferred, SchemaDraft.build_constrainFirst, SchemaDraft.build, hfold.2,
    show tableBlock.found none sql = _ from (tableBlock.occurrences_reading sql).symm]
  congr 1
  simp only [SchemaDraft.empty, List.nil_append, List.map_map]
  apply List.map_congr_left
  intro o _
  simp only [Function.comp_apply, (parseTable_eq _ _).2, Occurrence.part_eq]
  rfl

end PostgreSQL
end SchemaDump
