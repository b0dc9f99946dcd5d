import SchemaDump.Proofs.PostgreSQL.Statement
import SchemaDump.Proofs.Schema.Application
/- A dump gives back what it declares: every statement is found and nothing else is taken for one, each
table has the columns of its lines, and the keys reach their columns wherever they are declared. -/
namespace SchemaDump.PostgreSQL
open SqlPattern Pattern

theorem statementAhead_text (s : Statement) (v : Text) : StatementAhead (s.text ++ v) := by
  cases s with
  | table t =>
      rw [Statement.text, t.text_eq]
      exact statementAhead_creation
  | alteration a => exact a.statementAhead

def Statement.read : Statement → Text
  | table t => t.text
  | alteration a => a.opening ++ a.clause.keyText

theorem foundIn_tableBlock (s : Statement) :
    FoundIn tableBlock s.text s.read
      (s.table?.map fun t => [(Part.body, t.body), (Part.name, t.target.text)]) := by
  cases s with
  | table t =>
      rw [Statement.text, Statement.read, t.text_eq]
      exact foundIn_creation fun _ v => t.silent_body (';' :: v)
  | alteration a => exact fun _ _ => Form.opens_tableBlock.silent_alteration a

theorem foundIn_statement (kind : KeyKind) (s : Statement) :
    FoundIn kind.statement s.text s.read ((s.alteration?.filter (·.clause.kind = kind)).map (·.parts)) := by
  cases s with
  | table t => exact fun _ _ => kind.opens_statement.silent_tableStatement t
  | alteration a => exact a.foundIn_statement kind

theorem Alteration.additionOf_parts (a : Alteration) : additionOf a.parts = some a.addition := by
  have hconstraint : additionOf a.parts =
      (Constraint.parse? .postgresql a.clause.keyText).map
        (Dialect.postgresql.normalizeName a.target.text, ·) := rfl
  rw [hconstraint, a.clause.parse?_keyText, a.target.normalize_eq, Option.map_some, Alteration.addition]

theorem alterations_text (kind : KeyKind) (d : Dump) :
    alterations kind.statement d.text =
      (d.alterations.filter (·.clause.kind = kind)).map (·.addition) := by
  have hfound := found_statements kind.opens_statement (consumes_of_not_nullable rfl) statementAhead_text
    (foundIn_statement kind) d.statements none d.trailer
  rw [alterations_parts, Dump.text, hfound, List.filterMap_filterMap, Dump.alterations,
    List.filter_filterMap, List.map_filterMap]
  refine congrArg (List.filterMap · d.statements) (funext fun s => ?_)
  cases hs : s.2.alteration?.filter (·.clause.kind = kind) with
  | none => rfl
  | some a => exact a.additionOf_parts

theorem tableOf_parts (t : TableStatement) :
    tableOf [(Part.body, t.body), (Part.name, t.target.text)] =
      .ofDefinition t.target.name.string (t.readColumns.map fun c => c.definition.under c.constraints)
        (t.clauses.map (·.constraint)) := by
  obtain ⟨hcolumns, hconstraints⟩ := t.bodyParts_body
  rw [← hcolumns, ← hconstraints, ← t.target.normalize_eq]
  rfl

theorem tables_text (d : Dump) :
    (tableBlock.found none d.text).map (fun r => tableOf r.parts) =
      d.tables.map fun t => .ofDefinition t.target.name.string
        (t.readColumns.map fun c => c.definition.under c.constraints)
        (t.clauses.map (·.constraint)) := by
  have hfound := found_statements Form.opens_tableBlock (consumes_of_not_nullable rfl)
    statementAhead_text foundIn_tableBlock d.statements none d.trailer
  have hparts : (tableBlock.found none d.text).map (fun r => tableOf r.parts) =
      ((tableBlock.found none d.text).map (·.parts)).map tableOf := by
    rw [List.map_map]
    rfl
  rw [hparts, Dump.text, hfound, Dump.tables, List.map_filterMap, List.map_filterMap]
  refine congrArg (List.filterMap · d.statements) (funext fun s => ?_)
  cases s.2.table? with
  | none => rfl
  | some t => exact congrArg some (tableOf_parts t)

theorem localColumns_of_mem_constraints {c : ColumnLine} {k : Constraint} (hk : k ∈ c.constraints) :
    k.localColumns = [c.name.string] := by
  obtain ⟨m, -, hm⟩ := List.mem_filterMap.mp hk
  cases m with
  | notNull => cases hm
  | primaryKey => rw [← Option.some.inj hm]; rfl
  | references qualified table column => rw [← Option.some.inj hm]; rfl

/-- Of the keys that are marked on columns each column gets its own. -/
theorem under_columns {columns : List ColumnLine} (hdistinct : (columns.map (·.name.string)).Nodup)
    {c : ColumnLine} (hc : c ∈ columns) :
    c.definition.under (columns.flatMap (·.constraints)) = c.definition.under c.constraints := by
  have hothers : ∀ {l : List ColumnLine} {d : Column}, d.name = c.name.string →
      (∀ b ∈ l, b.name.string ≠ c.name.string) → d.under (l.flatMap (·.constraints)) = d := by
    intro l d hd hl
    apply Column.under_of_not_named
    intro k hk hname
    obtain ⟨b, hb, hk⟩ := List.mem_flatMap.mp hk
    rw [localColumns_of_mem_constraints hk, List.mem_singleton, hd] at hname
    exact hl b hb hname.symm
  obtain ⟨earlier, later, rfl⟩ := List.append_of_mem hc
  rw [List.map_append, List.map_cons] at hdistinct
  obtain ⟨-, hlater, hearlier⟩ := List.nodup_append.mp hdistinct
  have hbefore : ∀ b ∈ earlier, b.name.string ≠ c.name.string := fun b hb =>
    hearlier _ (List.mem_map_of_mem hb) _ List.mem_cons_self
  have hbehind : ∀ b ∈ later, b.name.string ≠ c.name.string := fun b hb hname =>
    (List.nodup_cons.mp hlater).1 (hname ▸ List.mem_map_of_mem hb)
  rw [List.flatMap_append, List.flatMap_cons, ← Column.under_append, hothers rfl hbefore,
    ← Column.under_append]
  exact hothers rfl hbehind

theorem foreignKeys_of_kind {k : KeyClause} (h : k.kind ≠ .foreignKey) :
    k.constraint.foreignKeys = [] := by
  rw [KeyClause.kind] at h
  rw [KeyClause.constraint]
  cases hkey : k.key with
  | primaryKey => rfl
  | foreignKey =>
      rw [hkey] at h
      exact absurd rfl h

theorem alterationsOf_additions (l : List Alteration) (table : String) :
    SchemaDraft.alterationsOf (l.map (·.addition)) table =
      (l.filter (·.target.name.string = table)).map (·.clause.constraint) := by
  simp only [SchemaDraft.alterationsOf, List.filter_map, List.map_map]
  rfl

/-- The foreign keys that some statements add come from those for foreign keys. -/
theorem foreignKeys_additions (l : List Alteration) (table : String) :
    (SchemaDraft.alterationsOf ((l.filter (·.clause.kind = .foreignKey)).map (·.addition)) table).flatMap
        (·.foreignKeys) =
      (SchemaDraft.alterationsOf (l.map (·.addition)) table).flatMap (·.foreignKeys) := by
  rw [alterationsOf_additions, alterationsOf_additions, List.flatMap_map, List.flatMap_map,
    flatMap_filter_of_nil (fun a : Alteration => a.clause.kind = .foreignKey)
      (l.filter (·.target.name.string = table)), List.filter_filter, List.filter_filter]
  · simp only [Bool.and_comm]
  · intro a _ hkind
    exact foreignKeys_of_kind (by simpa using hkind)

/-- The kinds of the keys that a dump adds may be told apart first. -/
theorem under_allAlterations (d : Dump) (table : String) (c : Column) :
    c.under (SchemaDraft.alterationsOf (allAlterations d.text) table) =
      c.under (SchemaDraft.alterationsOf (d.alterations.map (·.addition)) table) := by
  have hsplit : allAlterations d.text =
      (d.alterations.filter (·.clause.kind = .primaryKey)).map (·.addition) ++
        (d.alterations.filter (·.clause.kind = .foreignKey)).map (·.addition) := by
    rw [allAlterations, ← KeyKind.statement_primaryKey, ← KeyKind.statement_foreignKey,
      alterations_text, alterations_text]
  have hother : ∀ a : Alteration, decide (a.clause.kind = .foreignKey) =
      !decide (a.clause.kind = .primaryKey) := by
    intro a
    cases a.clause.kind <;> rfl
  have hperm : (allAlterations d.text).Perm (d.alterations.map (·.addition)) := by
    rw [hsplit, ← List.map_append, funext hother]
    exact (List.filter_append_perm _ _).map _
  have hprimary : (SchemaDraft.alterationsOf ((d.alterations.filter
      (·.clause.kind = .primaryKey)).map (·.addition)) table).flatMap (·.foreignKeys) = [] := by
    rw [alterationsOf_additions, List.flatMap_map, List.flatMap_eq_nil_iff]
    intro a ha
    have hkind := of_decide_eq_true (List.mem_filter.mp (List.mem_filter.mp ha).1).2
    exact foreignKeys_of_kind (by rw [hkind]; decide)
  refine Column.under_eq_of_perm ((hperm.filter _).map _) (congrArg (List.filter _) ?_)
  rw [hsplit, SchemaDraft.alterationsOf_append, List.flatMap_append, hprimary, List.nil_append,
    foreignKeys_additions]

theorem nodup_readColumns (t : TableStatement) : (t.readColumns.map (·.name.string)).Nodup :=
  t.distinct.sublist (List.filter_sublist.map _)

/-- A table with all keys of a dump on it, wherever they are declared. -/
theorem under_keys {d : Dump} {t : TableStatement} (ht : t ∈ d.tables) {c : ColumnLine}
    (hc : c ∈ t.readColumns) :
    (c.definition.under c.constraints).under (t.clauses.map (·.constraint) ++
        SchemaDraft.alterationsOf (allAlterations d.text) t.target.name.string) =
      c.definition.under (SchemaDraft.alterationsOf d.keys t.target.name.string) := by
  have hown : SchemaDraft.alterationsOf d.keys t.target.name.string = t.constraints ++
      SchemaDraft.alterationsOf (d.alterations.map (·.addition)) t.target.name.string := by
    have htables : (d.tables.map (·.target.name.string)).Nodup := d.distinct
    rw [Dump.keys, SchemaDraft.alterationsOf_append,
      SchemaDraft.alterationsOf_flatMap (·.target.name.string) (·.constraints) htables ht]
  have hmarked := under_columns t.distinct (List.mem_of_mem_filter hc)
  rw [hown, TableStatement.constraints, ← Column.under_append, under_allAlterations, ← Column.under_append,
    ← Column.under_append, hmarked]

theorem under_readDefinition {d : Dump} {t : TableStatement} (ht : t ∈ d.tables) :
    (Table.ofDefinition t.target.name.string (t.readColumns.map fun c => c.definition.under c.constraints)
        (t.clauses.map (·.constraint))).under (SchemaDraft.alterationsOf (allAlterations d.text)) =
      t.readDefinition.under (SchemaDraft.alterationsOf d.keys) := by
  have hmarked : ((t.readColumns.map fun c => c.definition.under c.constraints).map (·.name)).Nodup := by
    rw [List.map_map]
    exact nodup_readColumns t
  have hdefined : ((t.readColumns.map (·.definition)).map (·.name)).Nodup := by
    rw [List.map_map]
    exact nodup_readColumns t
  rw [Table.under_ofDefinition, Table.ofDefinition, mapFirst_of_nodup hmarked, Table.under,
    TableStatement.readDefinition, mapFirst_of_nodup hdefined, List.map_map, List.map_map]
  exact congrArg (Table.mk _) (List.map_congr_left fun c hc => under_keys ht hc)

/-- What is read from a dump: its tables with the columns that are read and all keys on them. -/
theorem parse_text (d : Dump) :
    parse d.text =
      ⟨d.tables.map fun t => t.readDefinition.under (SchemaDraft.alterationsOf d.keys)⟩ := by
  have htables : (parse d.text).tables =
      d.tables.map fun t => t.readDefinition.under (SchemaDraft.alterationsOf d.keys) := by
    have hnames : ((d.tables.map fun t => Table.ofDefinition t.target.name.string
        (t.readColumns.map fun c => c.definition.under c.constraints)
        (t.clauses.map (·.constraint))).map (·.name)).Nodup := by
      rw [List.map_map]
      exact d.distinct
    rw [parse_tables, tables_text, mapFirst_of_nodup hnames, List.map_map]
    exact List.map_congr_left fun t ht => under_readDefinition ht
  rw [← htables]

/-- Whatever a dump declares is what is read from it, as long as no column is taken for an exclusion
constraint because of its name. -/
theorem parse_text_eq_schema (d : Dump)
    (h : ∀ t ∈ d.tables, ∀ c ∈ t.columns, c.opensExclusion = false) : parse d.text = d.schema := by
  have hdefinition : ∀ t ∈ d.tables, t.readDefinition = t.definition := by
    intro t ht
    have hcolumns : t.readColumns = t.columns := by
      rw [TableStatement.readColumns, List.filter_eq_self]
      intro c hc
      rw [h t ht c hc]
      rfl
    rw [TableStatement.readDefinition, hcolumns, TableStatement.definition]
  rw [parse_text, Dump.schema, Dump.definitions, List.map_map]
  exact congrArg Schema.mk (List.map_congr_left fun t ht => by
    rw [Function.comp_apply, hdefinition t ht])

def Word.ofString (s : String) (h : s.toList ≠ [] ∧ ∀ c ∈ s.toList, isWordChar c) : Word :=
  ⟨s.toList, h.1, h.2⟩

/-- A table with a default and a key that another statement adds. -/
def people : Dump where
  statements :=
    [(.nothing, .table
        { kind := .permanent
          ifNotExists := false
          target := ⟨true, .bare (.ofString "people" (by decide))⟩
          columns :=
            [{ name := .bare (.ofString "id" (by decide))
               nameFree := by decide +kernel
               type := ⟨(⟨.ofString "integer" (by decide), by decide +kernel⟩, .none), []⟩
               marks := []
               distinct := List.nodup_nil
               default := none
               notNull := true
               settled := fun _ h => nomatch h },
             { name := .quoted "full name".toList (by decide) (by decide) ⟨by decide, by decide⟩
               nameFree := by decide
               type := ⟨(⟨.ofString "character" (by decide), by decide +kernel⟩, .none),
                 [(⟨.ofString "varying" (by decide), by decide +kernel⟩,
                   ⟨some (⟨"20".toList, by decide, by decide⟩, none), 0⟩)]⟩
               marks := []
               distinct := List.nodup_nil
               default := some
                 ⟨⟨"NOT NULL, (x".toList, by decide, by decide +kernel, by decide +kernel⟩,
                  [⟨⟨.ofString "text" (by decide), by decide +kernel⟩, [], .none⟩]⟩
               notNull := false
               settled := fun h => nomatch h }]
          nonempty := List.cons_ne_nil _ _
          distinct := by decide +kernel
          clauses := []
          first := ⟨"\n    ".toList, by decide⟩
          indent := ⟨"    ".toList, by decide⟩ }),
     (.lineBreak, .alteration
        { ifExists := false
          only := true
          target := ⟨true, .bare (.ofString "people" (by decide))⟩
          space := ⟨"\n    ".toList, by decide⟩
          spaceNonempty := by decide
          clause := ⟨some (.bare (.ofString "people_pkey" (by decide))),
            .primaryKey true [.bare (.ofString "id" (by decide))] (List.cons_ne_nil _ _)⟩ })]
  trailer := .lineBreak
  distinct := by decide +kernel

theorem parse_people : (∀ t ∈ people.tables, ∀ c ∈ t.columns, c.opensExclusion = false) ∧
    parse people.text = people.schema := by
  have h : ∀ t ∈ people.tables, ∀ c ∈ t.columns, c.opensExclusion = false := by
    decide +kernel
  exact ⟨h, parse_text_eq_schema people h⟩

end SchemaDump.PostgreSQL
