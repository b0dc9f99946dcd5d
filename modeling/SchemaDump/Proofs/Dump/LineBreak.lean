import Mathlib.Data.List.Basic
import SchemaDump.Dump.Extract
import SchemaDump.Proofs.Definition.LineBreak
import SchemaDump.Proofs.MySQL.Table
import SchemaDump.Proofs.PostgreSQL.Table
/- A dump is read in the same way whether its lines end with a line feed or with a carriage
return and a line feed. Only a name in quotes could carry a line break into the schema. -/
namespace SchemaDump
open Text Pattern

variable {sql : Text}

/-- The form of the line breaks does not count among the signs of a dialect. -/
theorem detect_withReturns (h : '\r' ∉ sql) :
    Dialect.detect sql.withReturns = Dialect.detect sql := by
  have hblind : ∀ p ∈ [SqlPattern.createTable, SqlPattern.storageEngine, SqlPattern.ownerTo,
      SqlPattern.searchPath, SqlPattern.publicQualified],
      p.occursIn sql.withReturns = p.occursIn sql := by
    have hcheck : ∀ p ∈ [SqlPattern.createTable, SqlPattern.storageEngine, SqlPattern.ownerTo,
        SqlPattern.searchPath, SqlPattern.publicQualified], p.LineBlind := by
      simp only [List.forall_mem_cons]
      decide
    exact fun p hp => (hcheck p hp).occursIn_withReturns h
  simp only [List.forall_mem_cons] at hblind
  obtain ⟨hcreate, hengine, howner, hpath, hpublic, -⟩ := hblind
  simp only [Dialect.detect, hcreate, hengine, howner, hpath, hpublic]

/-- Blocks whose names are not broken define the same tables in either form. -/
theorem tables_withReturns {p : SqlPattern} (hp : p.LineBlind) (h : '\r' ∉ sql)
    (hnames : ∀ o ∈ p.occurrences sql, '\n' ∉ o.part .name) (table : Text → Text → Table)
    (htable : ∀ name body, '\r' ∉ body → table name (withReturns body) = table name body) :
    (p.found none sql.withReturns).map (fun r => table (r.part .name) (r.part .body)) =
      (p.found none sql).map fun r => table (r.part .name) (r.part .body) := by
  rw [hp.found_withReturns none h, List.map_map]
  apply List.map_congr_left
  intro r hr
  have hname : '\n' ∉ r.part .name := by
    rw [show p.found none sql = _ from (p.occurrences_reading sql).symm] at hr
    obtain ⟨o, ho, rfl⟩ := List.mem_map.mp hr
    exact o.part_eq .name ▸ hnames o ho
  have hbody : '\r' ∉ r.part .body := by
    obtain ⟨u, v, rfl, hread⟩ := exists_of_mem_found hr
    exact Match.not_mem_part (fun hv => h (List.mem_append_right u hv)) hread .body
  simp only [Function.comp_apply, Match.part_withReturns, withReturns_eq_self hname,
    htable _ _ hbody]

namespace MySQL

theorem bodyColumns_withReturns {body : Text} (h : '\r' ∉ body) :
    bodyColumns body.withReturns = bodyColumns body := by
  rw [bodyColumns, splitDefinitions_withReturns h, bodyColumns]

theorem bodyConstraints_withReturns {body : Text} (h : '\r' ∉ body) :
    bodyConstraints body.withReturns = bodyConstraints body := by
  rw [bodyConstraints, splitDefinitions_withReturns h, bodyConstraints]

theorem parse_withReturns (h : '\r' ∉ sql)
    (hnames : ∀ o ∈ tableBlock.occurrences sql, '\n' ∉ o.part .name) :
    parse sql.withReturns = parse sql := by
  have htables := tables_withReturns (by decide) h hnames
    (fun name body => .ofDefinition (Dialect.mysql.normalizeName name) (bodyColumns body)
      (bodyConstraints body))
    fun name body hbody => by rw [bodyColumns_withReturns hbody, bodyConstraints_withReturns hbody]
  have hparse : (parse sql.withReturns).tables = (parse sql).tables := by
    rw [parse_tables, parse_tables]
    exact htables
  exact congrArg Schema.mk hparse

end MySQL

namespace PostgreSQL

theorem bodyColumns_withReturns {body : Text} (h : '\r' ∉ body) :
    bodyColumns body.withReturns = bodyColumns body := by
  rw [bodyColumns, splitDefinitions_withReturns h, bodyColumns]

theorem bodyConstraints_withReturns {body : Text} (h : '\r' ∉ body) :
    bodyConstraints body.withReturns = bodyConstraints body := by
  rw [bodyConstraints, splitDefinitions_withReturns h, bodyConstraints]

/-- The statements of a text add the same constraints in either form, with the line breaks that
stand in their names. -/
theorem alterations_withReturns {statement : SqlPattern} (hblind : statement.LineBlind)
    (h : '\r' ∉ sql) :
    alterations statement sql.withReturns =
      (alterations statement sql).map fun a => (nameWithReturns a.1, a.2.withReturns) := by
  rw [alterations_eq, alterations_eq, hblind.found_withReturns none h, List.filterMap_map,
    List.map_filterMap]
  apply List.filterMap_congr
  intro r hr
  obtain ⟨u, v, rfl, hread⟩ := exists_of_mem_found hr
  have hreturn : '\r' ∉ r.part .constraint :=
    Match.not_mem_part (fun hv => h (List.mem_append_right u hv)) hread .constraint
  rw [Function.comp_apply, Match.part_withReturns, Match.part_withReturns,
    Constraint.parse?_withReturns _ hreturn, normalizeName_withReturns, Option.map_map,
    Option.map_map]
  rfl

/-- No table name and no name in an altering statement contains a line break. -/
structure NamesUnbroken (sql : Text) : Prop where
  tables : ∀ o ∈ tableBlock.occurrences sql, '\n' ∉ o.part .name
  alterations : ∀ a ∈ allAlterations sql, '\n' ∉ a.1.toList ∧ ∀ name ∈ a.2.names, '\n' ∉ name.toList

theorem allAlterations_withReturns (h : '\r' ∉ sql)
    (hnames : ∀ a ∈ allAlterations sql,
      '\n' ∉ a.1.toList ∧ ∀ name ∈ a.2.names, '\n' ∉ name.toList) :
    allAlterations sql.withReturns = allAlterations sql := by
  have hprimary : alterPrimaryKey.LineBlind := by decide
  have hforeign : alterForeignKey.LineBlind := by decide
  rw [allAlterations, alterations_withReturns hprimary h, alterations_withReturns hforeign h,
    ← List.map_append, ← allAlterations]
  conv => rhs; rw [← List.map_id (allAlterations sql)]
  apply List.map_congr_left
  intro a ha
  obtain ⟨htable, hconstraint⟩ := hnames a ha
  rw [nameWithReturns_eq_self htable, Constraint.withReturns_eq_self hconstraint, id]

theorem parse_withReturns (h : '\r' ∉ sql) (hnames : NamesUnbroken sql) :
    parse sql.withReturns = parse sql := by
  have htables := tables_withReturns (by decide) h hnames.tables
    (fun name body => .ofDefinition (Dialect.postgresql.normalizeName name)
      (bodyColumns body) (bodyConstraints body))
    fun name body hbody => by rw [bodyColumns_withReturns hbody, bodyConstraints_withReturns hbody]
  have hparse : (parse sql.withReturns).tables = (parse sql).tables := by
    rw [parse_tables, parse_tables, allAlterations_withReturns h hnames.alterations]
    exact congrArg (mapFirst _ _ []) htables
  exact congrArg Schema.mk hparse

end PostgreSQL

/-- No name that is read directly from a statement of a dialect contains a line break. -/
def Dialect.NamesUnbroken : Dialect → Text → Prop
  | .mysql, sql => ∀ o ∈ MySQL.tableBlock.occurrences sql, '\n' ∉ o.part .name
  | .postgresql, sql => PostgreSQL.NamesUnbroken sql

/-- Line ends do not matter: with a carriage return in front of every line feed a text has the
same dialect and, as long as no name is broken over lines, the same schema. -/
theorem extract_withReturns (sql : Text) (h : '\r' ∉ sql) :
    Dialect.detect sql.withReturns = Dialect.detect sql ∧
      (∀ d : Dialect, d.NamesUnbroken sql → d.extract sql.withReturns = d.extract sql) ∧
      ((∀ d ∈ Dialect.detect sql, d.NamesUnbroken sql) →
        Schema.ofDump sql.withReturns = Schema.ofDump sql) := by
  have hextract : ∀ d : Dialect, d.NamesUnbroken sql → d.extract sql.withReturns = d.extract sql := by
    intro d hnames
    cases d with
    | mysql => exact MySQL.parse_withReturns h hnames
    | postgresql => exact PostgreSQL.parse_withReturns h hnames
  refine ⟨detect_withReturns h, hextract, ?_⟩
  intro hnames
  rw [Schema.ofDump, detect_withReturns h, Schema.ofDump]
  cases hd : Dialect.detect sql with
  | none => rfl
  | some d => exact hextract d (hnames d hd)

/-- A statement over several lines, and a key that is added to its table by another. -/
def brokenLines : Text :=
  "CREATE TABLE t (\n -- key\n id int\n  NOT NULL\n);\nALTER TABLE t\n ADD PRIMARY KEY (\n id);".toList

theorem extract_withReturns_brokenLines :
    '\r' ∉ brokenLines ∧ Dialect.postgresql.NamesUnbroken brokenLines ∧
      Dialect.postgresql.extract brokenLines.withReturns = Dialect.postgresql.extract brokenLines := by
  have hreturn : '\r' ∉ brokenLines := by decide
  have hnames : Dialect.postgresql.NamesUnbroken brokenLines :=
    ⟨by decide, by decide⟩
  exact ⟨hreturn, hnames, (extract_withReturns brokenLines hreturn).2.1 .postgresql hnames⟩

end SchemaDump
