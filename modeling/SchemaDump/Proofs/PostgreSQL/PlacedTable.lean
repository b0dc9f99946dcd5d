import SchemaDump.Proofs.PostgreSQL.LiteralChange
import SchemaDump.Proofs.PostgreSQL.RoundTrip
import SchemaDump.Proofs.PostgreSQL.SpelledDump
import SchemaDump.Proofs.Schema.ConstrainedTable
/- The tables of a dump with comments by their places: what a table is made of, and what statements add to the
first table of a name. -/
namespace SchemaDump.PostgreSQL
open SqlPattern Pattern

def CommentedStatement.alteration? : CommentedStatement → Option Alteration
  | table _ => none
  | alteration a => some a

/-- A definition that starts with a name and opens no constraint defines a column of this name. -/
theorem ColumnName.exists_definesColumn (n : ColumnName) (behind : Spacing) {t : Text} (hne : t ≠ [])
    (ht : Stops isBlank t) (h : IsDefinition (n.text ++ (behind.text ++ t)))
    (hopens : opensConstraint .postgresql (n.text ++ (behind.text ++ t)) = false) :
    ∃ column, DefinesColumn .postgresql parseColumn? (n.text ++ (behind.text ++ t)) column ∧
      column.name = .ofList n.content := by
  have hhead : Stops isBlank (n.text ++ (behind.text ++ t)) := by
    cases n with
    | bare word => exact word.stops (fun _ => isBlank_eq_false_of_isWordChar) _
    | quoted text _ _ => exact stops_cons.mpr (by decide)
  have htrim : Text.trim (n.text ++ (behind.text ++ t)) = n.text ++ (behind.text ++ t) :=
    (h.endsSolid.trimmed hhead).trim_eq
  obtain ⟨column, hparse, hcolumn⟩ := n.exists_parseColumn? behind hne ht fun hmem =>
    h.unbroken (List.mem_append_right _ (List.mem_append_right _ hmem))
  exact ⟨column, ⟨by rw [htrim, hopens], by rw [htrim, hparse]⟩, hcolumn⟩

/-- A table in its place in a dump. -/
structure PlacedTable where
  front : List (Filler × CommentedStatement)
  filler : Filler
  table : CommentedTable
  back : List (Filler × CommentedStatement)
  trailer : Filler

namespace PlacedTable

variable (d : PlacedTable)

def dump : CommentedDump := ⟨d.front ++ (d.filler, .table d.table) :: d.back, d.trailer⟩

def text : Text := d.dump.text

def earlier : List Table := DumpContext.definedTables d.front

/-- The position of the table among the tables of its dump. -/
def position : Nat := d.earlier.length

def name : String := d.table.target.name.string

def alterations : List Alteration := (d.front ++ d.back).filterMap (·.2.alteration?)

/-- The constraints on the table: those in its body and those that statements add to it. -/
def constraints : List Constraint := constraintsOn d.text d.position d.table.body.text

/-- The columns that the definitions in the body of the table define. -/
def columns : List Column := definedColumns .postgresql parseColumn? d.table.body.definitions

theorem bodyColumns_eq : bodyColumns d.table.body.text = d.columns := by
  rw [bodyColumns, d.table.inertBody.splitDefinitions_text]
  rfl

theorem bodyConstraints_eq :
    bodyConstraints d.table.body.text = definedConstraints .postgresql d.table.body.definitions := by
  rw [bodyConstraints, d.table.inertBody.splitDefinitions_text]
  rfl

theorem map_parts_occurrences : (tableBlock.occurrences d.text).map (·.reading.parts) =
    d.front.filterMap (·.2.tableParts) ++ d.table.parts :: d.back.filterMap (·.2.tableParts) := by
  have hfound := found_statements Form.opens_tableBlock (consumes_of_not_nullable rfl)
    CommentedStatement.statementAhead CommentedStatement.foundIn_tableBlock d.dump.statements none d.trailer
  have hmap : (tableBlock.occurrences d.text).map (·.reading.parts) =
      ((tableBlock.occurrences d.text).map (·.reading)).map (·.parts) := List.map_map.symm
  rw [hmap, occurrences_reading]
  refine hfound.trans ?_
  rw [dump, List.filterMap_append, List.filterMap_cons]
  rfl

theorem getElem?_occurrences : ∃ block, (tableBlock.occurrences d.text)[d.position]? = some block ∧
    block.reading.parts = d.table.parts := by
  have hlength : d.position = (d.front.filterMap (·.2.tableParts)).length := by
    rw [position, earlier, DumpContext.definedTables, ← List.map_filterMap, List.length_map]
  have hparts : ((tableBlock.occurrences d.text).map (·.reading.parts))[d.position]? = some d.table.parts := by
    rw [map_parts_occurrences, hlength, List.getElem?_append_right (Nat.le_refl _), Nat.sub_self]
    rfl
  rw [List.getElem?_map] at hparts
  exact Option.map_eq_some_iff.mp hparts

/-- The table at its position has the columns of its definitions, under the constraints on it. -/
theorem getElem?_tables :
    (parse d.text).tables[d.position]? = some (.ofDefinition d.name d.columns d.constraints) := by
  obtain ⟨block, hblock, hparts⟩ := d.getElem?_occurrences
  have hname : block.part .name = d.table.target.text := by
    rw [Occurrence.part_eq, Match.part, Match.part?, hparts]
    rfl
  have hbody : block.part .body = d.table.body.text := by
    rw [Occurrence.part_eq, Match.part, Match.part?, hparts]
    rfl
  rw [getElem?_parse_tables hblock, hname, hbody, d.table.target.normalize_eq, bodyColumns_eq]
  rfl

theorem alterations_text (kind : KeyKind) : PostgreSQL.alterations kind.statement d.text =
    (d.alterations.filter (·.clause.kind = kind)).map (·.addition) := by
  have hstatements : (kind.statement.found none d.text).map (·.parts) =
      (d.front ++ d.back).filterMap (·.2.keyParts kind) := by
    rw [text, CommentedDump.found_keys, dump, List.filterMap_append, List.filterMap_cons, List.filterMap_append]
    rfl
  rw [alterations_parts, hstatements, List.filterMap_filterMap, alterations, List.filter_filterMap, List.map_filterMap]
  refine congrArg (List.filterMap · _) (funext fun s => ?_)
  cases hs : s.2 with
  | table t => simp [CommentedStatement.keyParts, CommentedStatement.alteration?]
  | alteration a =>
      by_cases hkind : a.clause.kind = kind <;>
        simp [CommentedStatement.keyParts, CommentedStatement.alteration?, Option.filter, hkind, a.additionOf_parts]

theorem blockNames_eq : blockNames d.text = d.earlier.map (·.name) ++
    d.name :: (DumpContext.definedTables d.back).map (·.name) := by
  have hname : (tableOf d.table.parts).name = d.name := d.table.target.normalize_eq
  have htables : (tableBlock.found none d.text).map (fun r => tableOf r.parts) =
      d.earlier ++ tableOf d.table.parts :: DumpContext.definedTables d.back := by
    rw [text, CommentedDump.found_tables, dump, List.filterMap_append, List.filterMap_cons]
    rfl
  rw [← map_name_tableOf, htables, List.map_append, List.map_cons, hname]

theorem isFirst_position (hfirst : ∀ t ∈ d.earlier, t.name ≠ d.name) : IsFirst (blockNames d.text) d.position := by
  have hlength : d.position = (d.earlier.map (·.name)).length := by rw [List.length_map]; rfl
  intro i hi
  rw [blockNames_eq, hlength, List.getElem?_append_right (Nat.le_refl _), Nat.sub_self,
    List.getElem?_append_left (hlength ▸ hi), List.getElem?_map]
  intro hname
  obtain ⟨t, ht, hname⟩ := Option.map_eq_some_iff.mp hname
  exact hfirst t (List.mem_of_getElem? ht) hname

/-- What statements of one kind add to the table, if it is the first one of its name. -/
theorem addedTo_eq (kind : KeyKind) : addedTo kind.statement d.text d.position =
    if IsFirst (blockNames d.text) d.position then
      (d.alterations.filter fun a => a.clause.kind = kind ∧ a.target.name.string = d.name).map (·.clause.constraint)
    else [] := by
  have hname : (blockNames d.text).getD d.position "" = d.name := by
    rw [blockNames_eq, position, ← List.length_map (f := (·.name)), List.getD_eq_getElem?_getD,
      List.getElem?_append_right (Nat.le_refl _), Nat.sub_self]
    rfl
  rw [addedTo, hname, alterations_text, alterationsOf_additions, List.filter_filter]
  simp only [Bool.decide_and, Bool.and_comm]

/-- The constraints on the first table of a name: those in its body, and what statements add, primary keys
first. -/
theorem constraints_eq (hfirst : ∀ t ∈ d.earlier, t.name ≠ d.name) :
    d.constraints = definedConstraints .postgresql d.table.body.definitions ++
      ([KeyKind.primaryKey, .foreignKey].flatMap fun kind => (d.alterations.filter fun a =>
        a.clause.kind = kind ∧ a.target.name.string = d.name).map (·.clause.constraint)) := by
  rw [constraints, constraintsOn, bodyConstraints_eq, ← KeyKind.statement_primaryKey, ← KeyKind.statement_foreignKey,
    addedTo_eq, addedTo_eq, if_pos (d.isFirst_position hfirst), if_pos (d.isFirst_position hfirst)]
  simp

/-- The constraints that statements speak of under the name of the table. -/
def additions : List Constraint := (d.alterations.filter (·.target.name.string = d.name)).map (·.clause.constraint)

/-- The constraints on a table are those in its body, and behind them some that statements add. -/
theorem exists_constraints_eq : ∃ added, (∀ k ∈ added, k ∈ d.additions) ∧
    d.constraints = definedConstraints .postgresql d.table.body.definitions ++ added := by
  refine ⟨addedTo alterPrimaryKey d.text d.position ++ addedTo alterForeignKey d.text d.position, ?_, ?_⟩
  · have hadded : ∀ kind : KeyKind, ∀ k ∈ addedTo kind.statement d.text d.position, k ∈ d.additions := by
      intro kind k hk
      rw [addedTo_eq] at hk
      split at hk
      · obtain ⟨a, ha, rfl⟩ := List.mem_map.mp hk
        obtain ⟨hmem, hkeeps⟩ := List.mem_filter.mp ha
        exact List.mem_map_of_mem (List.mem_filter.mpr ⟨hmem, decide_eq_true (of_decide_eq_true hkeeps).2⟩)
      · cases hk
    intro k hk
    rcases List.mem_append.mp hk with hk | hk
    · exact hadded .primaryKey k hk
    · exact hadded .foreignKey k hk
  · rw [constraints, constraintsOn, bodyConstraints_eq]

/-- What a statement adds to the first table of a name is a constraint on it. -/
theorem mem_constraints_of_addition (hfirst : ∀ t ∈ d.earlier, t.name ≠ d.name) {a : Alteration}
    (ha : a ∈ d.alterations) (hname : a.target.name.string = d.name) : a.clause.constraint ∈ d.constraints := by
  have hkind : a.clause.kind ∈ [KeyKind.primaryKey, .foreignKey] := by cases a.clause.kind <;> decide
  rw [d.constraints_eq hfirst]
  refine List.mem_append_right _ (List.mem_flatMap.mpr ⟨_, hkind, List.mem_map_of_mem ?_⟩)
  exact List.mem_filter.mpr ⟨ha, decide_eq_true ⟨rfl, hname⟩⟩

end PlacedTable

end SchemaDump.PostgreSQL
