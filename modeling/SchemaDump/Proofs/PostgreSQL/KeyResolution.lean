import SchemaDump.Proofs.PostgreSQL.Alteration
import SchemaDump.Proofs.PostgreSQL.Table
/- Where the keys of a column come from. A column is marked on its own definition, by the
constraints of its table and by statements that alter the table. Marks of a primary key add up;
of several foreign keys the last one stands, and statements come after the table. Constraints
reach the first column of a name in the first table of a name. -/
namespace SchemaDump.PostgreSQL
open SqlPattern Pattern

/-- The names of the tables that a dump defines, in their order. -/
def blockNames (sql : Text) : List String :=
  (tableBlock.occurrences sql).map fun o => Dialect.postgresql.normalizeName (o.part .name)

/-- The constraints that statements of one form add to the table at a position. -/
def addedTo (statement : SqlPattern) (sql : Text) (position : Nat) : List Constraint :=
  if IsFirst (blockNames sql) position then
    SchemaDraft.alterationsOf (alterations statement sql) ((blockNames sql).getD position "")
  else []

/-- How a column comes out of its definition: `own` are the constraints of its table, `primary`
and `foreign` those that statements add to the table, and `first` tells whether no earlier column
has its name. -/
structure Resolves (own primary foreign : List Constraint) (first : Prop) (defined column : Column) :
    Prop where
  name : column.name = defined.name
  declaredType : column.declaredType = defined.declaredType
  isNullable : column.isNullable = defined.isNullable
  defaultValue : column.defaultValue = defined.defaultValue
  isPrimaryKey : first →
    (column.isPrimaryKey ↔ defined.isPrimaryKey ∨ (∃ k ∈ own, defined.name ∈ k.primaryColumns) ∨
      ∃ k ∈ primary, defined.name ∈ k.primaryColumns)
  foreignKey : first → column.foreignKey =
    (lastForeignKey (foreign.flatMap (·.foreignKeys)) defined.name).or
      ((lastForeignKey (own.flatMap (·.foreignKeys)) defined.name).or defined.foreignKey)
  later : ¬first → column = defined

variable {own primary foreign : List Constraint} {first : Prop} {c : Column}

theorem resolves_under (hprimary : ∀ k ∈ primary, k.foreignKeys = [])
    (hforeign : ∀ k ∈ foreign, k.primaryColumns = []) (hfirst : first) :
    Resolves own primary foreign first c (c.under (own ++ (primary ++ foreign))) where
  name := rfl
  declaredType := rfl
  isNullable := rfl
  defaultValue := rfl
  isPrimaryKey _ := by
    have hnil : foreign.flatMap (·.primaryColumns) = [] := List.flatMap_eq_nil_iff.mpr hforeign
    simp only [Column.under, List.flatMap_append, hnil, List.append_nil, Bool.or_eq_true,
      List.contains_iff_mem, List.mem_append, List.mem_flatMap]
  foreignKey _ := by
    have hnil : primary.flatMap (·.foreignKeys) = [] := List.flatMap_eq_nil_iff.mpr hprimary
    simp only [Column.under, List.flatMap_append, hnil, List.nil_append, lastForeignKey_append,
      Option.or_assoc]
  later h := absurd hfirst h

theorem resolves_self (hfirst : ¬first) : Resolves own primary foreign first c c where
  name := rfl
  declaredType := rfl
  isNullable := rfl
  defaultValue := rfl
  isPrimaryKey h := absurd h hfirst
  foreignKey h := absurd h hfirst
  later _ := rfl

theorem mem_addedTo {statement : SqlPattern} {sql : Text} {position : Nat} {k : Constraint}
    (h : k ∈ addedTo statement sql position) : ∃ name, (name, k) ∈ alterations statement sql := by
  rw [addedTo] at h
  split at h
  · exact ⟨_, SchemaDraft.mem_alterationsOf h⟩
  · cases h

theorem map_name_tableOf (sql : Text) :
    ((tableBlock.found none sql).map fun r => tableOf r.parts).map (·.name) = blockNames sql := by
  rw [show tableBlock.found none sql = _ from (tableBlock.occurrences_reading sql).symm,
    List.map_map, List.map_map, blockNames]
  apply List.map_congr_left
  intro o _
  rw [Occurrence.part_eq]
  rfl

theorem map_name_parse (sql : Text) : (parse sql).tables.map (·.name) = blockNames sql := by
  have hname : ∀ t : Table, (t.under (SchemaDraft.alterationsOf (allAlterations sql))).name = t.name :=
    fun _ => rfl
  rw [parse_tables, map_key_mapFirst hname, map_name_tableOf]

/-- The table at a position is defined by its block and by what statements add to it. -/
theorem getElem?_parse_tables {sql : Text} {position : Nat} {block : Occurrence Part}
    (hblock : (tableBlock.occurrences sql)[position]? = some block) :
    (parse sql).tables[position]? =
      some (.ofDefinition (Dialect.postgresql.normalizeName (block.part .name))
        (bodyColumns (block.part .body))
        (bodyConstraints (block.part .body) ++
          (addedTo alterPrimaryKey sql position ++ addedTo alterForeignKey sql position))) := by
  have hnames := map_name_tableOf sql
  have htable : ((tableBlock.found none sql).map fun r => tableOf r.parts)[position]? =
      some (.ofDefinition (Dialect.postgresql.normalizeName (block.part .name))
        (bodyColumns (block.part .body)) (bodyConstraints (block.part .body))) := by
    rw [show tableBlock.found none sql = _ from (tableBlock.occurrences_reading sql).symm,
      List.map_map, List.getElem?_map, hblock, Option.map_some, Occurrence.part_eq,
      Occurrence.part_eq]
    rfl
  have hname : (blockNames sql).getD position "" =
      Dialect.postgresql.normalizeName (block.part .name) := by
    rw [blockNames, List.getD_eq_getElem?_getD, List.getElem?_map, hblock]
    rfl
  rw [parse_tables, addedTo, addedTo, hname]
  by_cases hfirst : IsFirst (blockNames sql) position
  · rw [getElem?_mapFirst_of_first htable List.not_mem_nil (hnames ▸ hfirst),
      Table.under_ofDefinition, if_pos hfirst, if_pos hfirst, allAlterations,
      SchemaDraft.alterationsOf_append]
  · rw [getElem?_mapFirst_of_not_first (hnames ▸ hfirst), htable, if_neg hfirst, if_neg hfirst,
      List.append_nil, List.append_nil]

/-- Every table has the columns of its body in their order, with the keys that the definitions,
the constraints of the table and the statements that alter it give to them. -/
theorem parse_resolves_keys (sql : Text) :
    (parse sql).tables.length = (tableBlock.occurrences sql).length ∧
      ∀ position block, (tableBlock.occurrences sql)[position]? = some block →
        ∃ table, (parse sql).tables[position]? = some table ∧
          table.name = Dialect.postgresql.normalizeName (block.part .name) ∧
          table.columns.length = (bodyColumns (block.part .body)).length ∧
          ∀ i defined, (bodyColumns (block.part .body))[i]? = some defined →
            ∃ column, table.columns[i]? = some column ∧
              Resolves (bodyConstraints (block.part .body)) (addedTo alterPrimaryKey sql position)
                (addedTo alterForeignKey sql position)
                (IsFirst ((bodyColumns (block.part .body)).map (·.name)) i) defined column := by
  refine ⟨?_, ?_⟩
  · rw [parse_tables, length_mapFirst, List.length_map,
      show tableBlock.found none sql = _ from (tableBlock.occurrences_reading sql).symm,
      List.length_map]
  · intro position block hblock
    refine ⟨_, getElem?_parse_tables hblock, rfl, length_mapFirst, ?_⟩
    intro i defined hdefined
    by_cases hfirst : IsFirst ((bodyColumns (block.part .body)).map (·.name)) i
    · refine ⟨_, getElem?_mapFirst_of_first hdefined List.not_mem_nil hfirst,
        resolves_under ?_ ?_ hfirst⟩
      · intro k hk
        obtain ⟨name, hk⟩ := mem_addedTo hk
        exact foreignKeys_of_mem_alterations hk
      · intro k hk
        obtain ⟨name, hk⟩ := mem_addedTo hk
        exact primaryColumns_of_mem_alterations hk
    · exact ⟨defined, (getElem?_mapFirst_of_not_first hfirst).trans hdefined, resolves_self hfirst⟩

end SchemaDump.PostgreSQL
