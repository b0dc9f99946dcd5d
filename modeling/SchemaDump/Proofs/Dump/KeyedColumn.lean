import SchemaDump.Dump.Extract
import SchemaDump.Proofs.Dump.KeyLine
import SchemaDump.Proofs.MySQL.CommentedTable
import SchemaDump.Proofs.MySQL.NamedColumn
import SchemaDump.Proofs.PostgreSQL.PlacedTable
/- Keys and the columns that they name. A column gets its name from its own line and a key finds it under the name
in its list; both are the same for every identifier that the two ways of reading agree on. -/
namespace SchemaDump
open SqlPattern Pattern
open PostgreSQL (Spacing)

/-- The characters that the type of a column may start with. -/
def Dialect.startsType : Dialect → Char → Bool
  | .postgresql, c => !isBlank c
  | .mysql, c => isWordChar c

/-- A line that starts with an identifier and with a type behind it. -/
structure NamedLine (d : Dialect) where
  name : Identifier d
  behind : Spacing
  first : Char
  startsType : d.startsType first
  rest : Text

def NamedLine.text {d : Dialect} (line : NamedLine d) : Text :=
  line.name.text ++ (line.behind.text ++ line.first :: line.rest)

/-- In a table with some definitions, and constraints from elsewhere, every key reaches the columns that it lists:
a primary key marks them, and a foreign key leads each of them to the column in the same place of its other list, as
long as nothing gives the column another foreign key later. -/
structure ReachesColumns (d : Dialect) (definitions : List Text) (additions : List Constraint) (t : Table) : Prop where
  primary : ∀ line : NamedLine d, line.text ∈ definitions → opensConstraint d line.text = false →
    ∀ k : PrimaryKeyLine d, k.text ∈ definitions → line.name.string ∈ k.names →
      ∃ column, t.column? line.name.string = some column ∧ column.isPrimaryKey
  foreign : ∀ line : NamedLine d, line.text ∈ definitions → opensConstraint d line.text = false →
    ∀ (k : ForeignKeyLine d) (above below : List Text), definitions = above ++ k.text :: below →
      ∀ i target, k.list.columns[i]? = some line.name.string → k.list.referencesColumns[i]? = some target →
        (∀ key ∈ k.list.decompose.drop (i + 1) ++ (definedConstraints d below ++ additions).flatMap (·.foreignKeys),
          key.column ≠ line.name.string) →
        ∃ column, t.column? line.name.string = some column ∧
          column.foreignKey = some ⟨line.name.string, d.normalizeName k.table, target⟩

section Definition

variable {d : Dialect} {parseColumn? : Text → Option Column} {name : String} {definitions : List Text}
  {added additions : List Constraint}

theorem definedConstraints_split {above below : List Text} {definition : Text} {k : Constraint}
    (hopens : opensConstraint d definition.trim = true) (hparse : Constraint.parse? d definition.trim = some k) :
    definedConstraints d (above ++ definition :: below) =
      definedConstraints d above ++ k :: definedConstraints d below := by
  simp [definedConstraints, hopens, hparse]

/-- It is enough that every such line that opens no constraint defines a column of its name. -/
theorem reachesColumns_ofDefinition (hadded : ∀ k ∈ added, k ∈ additions)
    (hnamed : ∀ line : NamedLine d, line.text ∈ definitions → opensConstraint d line.text = false →
      line.name.string ∈ (definedColumns d parseColumn? definitions).map (·.name)) :
    ReachesColumns d definitions additions (.ofDefinition name (definedColumns d parseColumn? definitions)
      (definedConstraints d definitions ++ added)) where
  primary line hline hopens k hk hlisted := by
    obtain ⟨above, below, rfl⟩ := List.append_of_mem hk
    refine Table.exists_isPrimaryKey (k := .primaryKey k.names) (hnamed line hline hopens) ?_ hlisted
    rw [definedConstraints_split k.opensConstraint_trim k.parse?_trim]
    simp
  foreign line hline hopens k above below hsplit i target hcolumn htarget hlater := by
    have hne : target ≠ "" := by
      obtain ⟨item, -, rfl⟩ := List.mem_map.mp (List.mem_of_getElem? htarget)
      exact item.column.string_ne_empty
    obtain ⟨hlt, hkey⟩ := List.getElem?_eq_some_iff.mp (ForeignKeyList.getElem?_decompose hcolumn htarget hne)
    have hkeys : (definedConstraints d definitions ++ added).flatMap (·.foreignKeys) =
        ((definedConstraints d above).flatMap (·.foreignKeys) ++ k.list.decompose.take i) ++
          k.list.decompose[i] :: (k.list.decompose.drop (i + 1) ++
            (definedConstraints d below ++ added).flatMap (·.foreignKeys)) := by
      have hlist : (Constraint.foreignKey k.list).foreignKeys =
          k.list.decompose.take i ++ k.list.decompose[i] :: k.list.decompose.drop (i + 1) := by
        rw [← List.drop_eq_getElem_cons, List.take_append_drop]
        rfl
      rw [hsplit, definedConstraints_split k.opensConstraint_trim k.parse?_trim, List.append_assoc, List.flatMap_append,
        List.cons_append, List.flatMap_cons, hlist]
      simp only [List.append_assoc, List.cons_append]
    refine Table.exists_foreignKey (hnamed line hline hopens) ?_
    rw [hkeys, hkey]
    refine lastForeignKey_append_cons rfl fun other hother => hlater other ?_
    rcases List.mem_append.mp hother with h | h
    · exact List.mem_append_left _ h
    · obtain ⟨constraint, hconstraint, hmem⟩ := List.mem_flatMap.mp h
      refine List.mem_append_right _ (List.mem_flatMap.mpr ⟨constraint, ?_, hmem⟩)
      rcases List.mem_append.mp hconstraint with h | h
      · exact List.mem_append_left _ h
      · exact List.mem_append_right _ (hadded _ h)

end Definition

namespace PostgreSQL

def columnNameOf : Identifier .postgresql → ColumnName
  | .bare word => .bare word
  | .quoted text nonempty closed _ _ => .quoted text nonempty closed

theorem columnNameOf_eq (n : Identifier .postgresql) :
    (columnNameOf n).text = n.text ∧ (columnNameOf n).content = n.content := by
  cases n <;> exact ⟨rfl, rfl⟩

theorem PlacedTable.reachesColumns (d : PlacedTable) : ReachesColumns .postgresql d.table.body.definitions d.additions
    (.ofDefinition d.name d.columns d.constraints) := by
  obtain ⟨added, hadded, hconstraints⟩ := d.exists_constraints_eq
  rw [hconstraints]
  refine reachesColumns_ofDefinition hadded fun line hline hopens => ?_
  obtain ⟨htext, hcontent⟩ := columnNameOf_eq line.name
  have hdefinition := d.table.definitions _ hline
  have hfirst : isBlank line.first = false := by simpa [Dialect.startsType] using line.startsType
  rw [NamedLine.text, ← htext] at hdefinition hopens hline
  obtain ⟨column, hdefines, hname⟩ := (columnNameOf line.name).exists_definesColumn line.behind (List.cons_ne_nil _ _)
    (stops_cons.mpr hfirst) hdefinition hopens
  rw [Identifier.string, ← hcontent, ← hname]
  exact List.mem_map_of_mem (hdefines.mem_definedColumns hline)

end PostgreSQL

namespace MySQL

theorem CommentedTable.reachesColumns (t : CommentedTable) :
    ReachesColumns .mysql t.body.definitions [] (tableOf t.parts) := by
  have htable : tableOf t.parts = .ofDefinition (Dialect.mysql.normalizeName t.name.quoted)
      (definedColumns .mysql parseColumn? t.body.definitions) (definedConstraints .mysql t.body.definitions ++ []) := by
    rw [t.tableOf_parts, List.append_nil, definedTable]
  rw [htable]
  refine reachesColumns_ofDefinition (by simp) fun line hline hopens => ?_
  have hdefinition := t.definitions _ hline
  have hhead : ∀ c ∈ line.text.head?, isBlank c = false := by
    cases hname : line.name with
    | bare word =>
        rw [NamedLine.text, hname]
        exact word.stops (fun _ => isBlank_eq_false_of_isWordChar) _
    | quoted text _ _ _ _ =>
        rw [NamedLine.text, hname]
        exact stops_cons.mpr (by decide)
  have htrim : line.text.trim = line.text := (hdefinition.endsSolid.trimmed hhead).trim_eq
  obtain ⟨column, hparse, hname⟩ := exists_parseColumn? line.name line.behind line.startsType line.rest
  have hdefines : DefinesColumn .mysql parseColumn? line.text column := ⟨by rw [htrim, hopens], by rw [htrim]; exact hparse⟩
  rw [← hname]
  exact List.mem_map_of_mem (hdefines.mem_definedColumns hline)

end MySQL

/-- A table in its place in a dump of a dialect. -/
inductive TablePlace : Dialect → Type
  | postgresql (table : PostgreSQL.PlacedTable) : TablePlace .postgresql
  | mysql (dump : MySQL.CommentedDump) (i : Fin dump.statements.length) : TablePlace .mysql

namespace TablePlace

def text : {d : Dialect} → TablePlace d → Text
  | _, postgresql table => table.text
  | _, mysql dump _ => dump.text

/-- The position of the table among the tables of its dump. -/
def position : {d : Dialect} → TablePlace d → Nat
  | _, postgresql table => table.position
  | _, mysql _ i => i

def name : {d : Dialect} → TablePlace d → String
  | _, postgresql table => table.name
  | _, mysql dump i => dump.statements[i].2.name.string

def definitions : {d : Dialect} → TablePlace d → List Text
  | _, postgresql table => table.table.body.definitions
  | _, mysql dump i => dump.statements[i].2.body.definitions

/-- The constraints that statements of the dump add under the name of the table. -/
def additions : {d : Dialect} → TablePlace d → List Constraint
  | _, postgresql table => table.additions
  | _, mysql _ _ => []

end TablePlace

/-- Every constraint reaches the columns that it names, in each table of a dump of either dialect, for all identifiers
that a column line and a list of columns agree on. -/
theorem extract_reachesColumns {d : Dialect} (p : TablePlace d) : ∃ t, (d.extract p.text).tables[p.position]? = some t ∧
    t.name = p.name ∧ ReachesColumns d p.definitions p.additions t := by
  cases p with
  | postgresql table => exact ⟨_, table.getElem?_tables, rfl, table.reachesColumns⟩
  | mysql dump i =>
      have htables : (Dialect.mysql.extract dump.text).tables = _ := dump.tables_text
      refine ⟨MySQL.tableOf dump.statements[i].2.parts, ?_, ?_, dump.statements[i].2.reachesColumns⟩
      · rw [TablePlace.text, htables, TablePlace.position, List.getElem?_map, List.getElem?_eq_getElem i.isLt,
          Option.map_some]
        rfl
      · rw [MySQL.CommentedTable.tableOf_parts, TablePlace.name, ← MySQL.Name.normalize_eq]
        rfl

/-! A table in both dialects, with a primary key and a foreign key over two columns:
```
CREATE TABLE lines (
  "the item" text,
  number integer,
  PRIMARY KEY (number, "the item"),
  FOREIGN KEY (number, "the item") REFERENCES items (no, "the item")
);
```
-/

section Lines

variable (d : Dialect)

def itemName : Identifier d :=
  .quoted "the item".toList (by decide) (by cases d <;> decide) (by decide) fun _ => by decide

def numberName : Identifier d := .bare (.ofString "number" (by decide))

def itemLine : NamedLine d where
  name := itemName d
  behind := .single
  first := 't'
  startsType := by cases d <;> decide
  rest := "ext".toList

def numberLine : NamedLine d where
  name := numberName d
  behind := .single
  first := 'i'
  startsType := by cases d <;> decide
  rest := "nteger".toList

def lineKey : PrimaryKeyLine d where
  opening := ⟨none, .plain _, .plain _, .single⟩
  method := none
  columns := [.plain ⟨[], blank_nil⟩ (numberName d), .plain .single (itemName d)]
  nonempty := List.cons_ne_nil _ _
  tail := []

def lineReference : ForeignKeyLine d where
  opening := ⟨none, .plain _, .plain _, .single⟩
  index := none
  columns := [.plain ⟨[], blank_nil⟩ (numberName d), .plain .single (itemName d)]
  nonempty := List.cons_ne_nil _ _
  columnsFlat := by simp [ListedColumn.plain]
  gap := .single
  word := .plain _
  behind := .single
  table := "items".toList
  isTable := PostgreSQL.Spelling.isQualified ⟨none, .bare "items".toList (by decide) (by decide)⟩
  space := .single
  references := [.plain ⟨[], blank_nil⟩ (.bare (.ofString "no" (by decide))), .plain .single (itemName d)]
  referencesNonempty := List.cons_ne_nil _ _
  referencesFlat := by simp [ListedColumn.plain]
  tail := []

def lineBody : Body where
  entries := [(itemLine d).text, (numberLine d).text, (lineKey d).text, (lineReference d).text].map fun text =>
    ⟨[], ⟨List.replicate 2 ' ', by decide⟩, text⟩
  comments := []
  margin := ⟨[], blank_nil⟩

end Lines

open PostgreSQL in
def linesTable : PlacedTable where
  front := []
  filler := .nothing
  table :=
    { kind := .permanent
      ifNotExists := false
      target := ⟨false, .bare (.ofString "lines" (by decide))⟩
      body := lineBody .postgresql
      definitions := by decide +kernel
      comments := nofun }
  back := []
  trailer := .nothing

open MySQL in
def linesDump : CommentedDump where
  statements := [(⟨[], by decide, PostgreSQL.Filler.nothing.detached⟩,
    { temporary := false
      ifNotExists := false
      name := ⟨"lines".toList, by decide, by decide, by decide, by decide⟩
      body := lineBody .mysql
      definitions := by decide +kernel
      comments := nofun
      options := " COMMENT='Lines'".toList
      optionsPlain := by decide })]
  trailer := ⟨[], by decide, PostgreSQL.Filler.nothing.detached⟩

theorem extract_lines :
    (linesTable.text = ("CREATE TABLE lines (\n  \"the item\" text,\n  number integer,\n" ++
        "  PRIMARY KEY (number, \"the item\"),\n" ++
        "  FOREIGN KEY (number, \"the item\") REFERENCES items (no, \"the item\")\n);").toList ∧
      ∃ t, (Dialect.postgresql.extract linesTable.text).tables[0]? = some t ∧
        (∃ column, t.column? "the item" = some column ∧ column.isPrimaryKey) ∧
        ∃ column, t.column? "the item" = some column ∧ column.foreignKey = some ⟨"the item", "items", "the item"⟩) ∧
    (linesDump.text = ("CREATE TABLE \x60lines\x60 (\n  \x60the item\x60 text,\n  number integer,\n" ++
        "  PRIMARY KEY (number, \x60the item\x60),\n" ++
        "  FOREIGN KEY (number, \x60the item\x60) REFERENCES items (no, \x60the item\x60)\n) ENGINE=InnoDB COMMENT='Lines';").toList ∧
      ∃ t, (Dialect.mysql.extract linesDump.text).tables[0]? = some t ∧
        (∃ column, t.column? "the item" = some column ∧ column.isPrimaryKey) ∧
        ∃ column, t.column? "the item" = some column ∧ column.foreignKey = some ⟨"the item", "items", "the item"⟩) := by
  obtain ⟨t, ht, -, hreaches⟩ := extract_reachesColumns (.postgresql linesTable)
  obtain ⟨u, hu, -, hreachesMySQL⟩ := extract_reachesColumns (.mysql linesDump ⟨0, by decide⟩)
  refine ⟨⟨by decide +kernel, t, ht, ?_, ?_⟩, by decide +kernel, u, hu, ?_, ?_⟩
  · exact hreaches.primary (itemLine _) (by decide +kernel) (by decide +kernel) (lineKey _) (by decide +kernel) (by decide)
  · exact hreaches.foreign (itemLine _) (by decide +kernel) (by decide +kernel) (lineReference _)
      [(itemLine _).text, (numberLine _).text, (lineKey _).text] [] rfl 1 "the item" rfl rfl (by decide)
  · exact hreachesMySQL.primary (itemLine _) (by decide +kernel) (by decide +kernel) (lineKey _) (by decide +kernel)
      (by decide)
  · exact hreachesMySQL.foreign (itemLine _) (by decide +kernel) (by decide +kernel) (lineReference _)
      [(itemLine _).text, (numberLine _).text, (lineKey _).text] [] rfl 1 "the item" rfl rfl (by decide)

end SchemaDump
