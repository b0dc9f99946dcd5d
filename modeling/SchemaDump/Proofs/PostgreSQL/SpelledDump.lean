import Mathlib.Data.List.Forall2
import SchemaDump.Proofs.PostgreSQL.KeyResolution
import SchemaDump.Proofs.PostgreSQL.ReferencingColumn
import SchemaDump.Proofs.PostgreSQL.SpelledStatement
import SchemaDump.Proofs.Schema.Construction
import SchemaDump.Proofs.Schema.WellFormed
/- Dumps that write one table in several ways. References and statements reach the first table of the
schema and the name that they mean, however they spell it. -/
namespace SchemaDump.PostgreSQL
open SqlPattern Pattern

variable {sql body : Text} {heads : List CreationHead} {position i : Nat} {key : ForeignKey} {s : Spelling}
  {constraint : Constraint} {constraints : List Constraint} {columns : List Column} {defined : Column}

/-- A block is opened by a head and closed behind it. -/
def Opens (sql : Text) (block : Occurrence Part) (head : CreationHead) : Prop :=
  ∃ v, sql = block.before ++ (head.text ++ v) ∧ bodyEnd.occursIn v

/-- The blocks of a dump have these heads, one after the other. -/
def DefinesTables (sql : Text) (heads : List CreationHead) : Prop :=
  List.Forall₂ (Opens sql) (tableBlock.occurrences sql) heads

/-- Where the first table with the schema and the name of a spelling stands. -/
def firstAt (heads : List CreationHead) (s : Spelling) : Option Nat :=
  heads.findIdx? (·.name.address = s.address)

def bodyAt? (sql : Text) (position : Nat) : Option Text :=
  (tableBlock.occurrences sql)[position]?.map (·.part .body)

theorem part_name_of_opens {block : Occurrence Part} {head : CreationHead}
    (hblock : block ∈ tableBlock.occurrences sql) (h : Opens sql block head) :
    block.part .name = head.name.text := by
  obtain ⟨v, hsql, hclosed⟩ := h
  obtain ⟨w, hw, hread⟩ := exists_of_mem_occurrences hblock
  obtain rfl := List.append_cancel_left (hw.symm.trans hsql)
  rw [Occurrence.part_eq]
  exact head.part_name hread hclosed

theorem blockNames_eq (h : DefinesTables sql heads) :
    blockNames sql = heads.map fun head => Dialect.postgresql.normalizeName head.name.text := by
  obtain ⟨hlength, hopens⟩ := List.forall₂_iff_zip.mp h
  rw [blockNames, ← List.forall₂_eq_eq_eq, List.forall₂_map_left_iff, List.forall₂_map_right_iff]
  refine List.forall₂_iff_zip.mpr ⟨hlength, fun hmem => ?_⟩
  rw [part_name_of_opens (List.of_mem_zip hmem).1 (hopens hmem)]

/-- A table is found by its normalized name where the first one of its address stands. -/
theorem findIdx?_blockNames (h : DefinesTables sql heads) (s : Spelling) :
    (blockNames sql).findIdx? (· = Dialect.postgresql.normalizeName s.text) = firstAt heads s := by
  rw [blockNames_eq h, List.findIdx?_map, firstAt]
  congr 1
  funext head
  exact decide_eq_decide.mpr (head.name.normalizeName_eq_iff s)

theorem isFirst_of_firstAt (h : DefinesTables sql heads) (hs : firstAt heads s = some position) :
    IsFirst (blockNames sql) position ∧
      (blockNames sql).getD position "" = Dialect.postgresql.normalizeName s.text := by
  rw [← findIdx?_blockNames h] at hs
  obtain ⟨hfirst, hname⟩ := isFirst_of_findIdx? hs
  rw [List.getD_eq_getElem?_getD, hname]
  exact ⟨hfirst, rfl⟩

/-- The table that a key refers to is the first one with the schema and the name that it means. -/
theorem referencedTable?_of_spelling (h : DefinesTables sql heads)
    (hkey : key.referencesTable = Dialect.postgresql.normalizeName s.text) :
    (parse sql).referencedTable? key = (firstAt heads s).bind ((parse sql).tables[·]?) := by
  have hnames : (parse sql).tables.map (·.name) = blockNames sql := map_name_parse sql
  rw [← findIdx?_blockNames h, ← hnames, ← hkey]
  exact findIdx?_bind_getElem?.symm

/-- The constraints on a table: those in its body and those that statements add to it. -/
def constraintsOn (sql : Text) (position : Nat) (body : Text) : List Constraint :=
  bodyConstraints body ++ (addedTo alterPrimaryKey sql position ++ addedTo alterForeignKey sql position)

/-- The foreign keys that are declared for a column, in their order: the one on the column, and those in
constraints if it is the first column of its name. -/
def declaredKeys (constraints : List Constraint) (columns : List Column) (i : Nat) (defined : Column) :
    List ForeignKey :=
  defined.foreignKey.toList ++ if IsFirst (columns.map (·.name)) i then
    (constraints.flatMap (·.foreignKeys)).filter (·.column = defined.name) else []

/-- A key reaches the table at a position: it is declared for a column there, which has the key that is
declared for it last. -/
def Reaches (sql : Text) (position : Nat) (key : ForeignKey) : Prop :=
  ∃ body table i defined column, bodyAt? sql position = some body ∧
    (parse sql).tables[position]? = some table ∧ (bodyColumns body)[i]? = some defined ∧
      table.columns[i]? = some column ∧ column.name = key.column ∧
        key ∈ declaredKeys (constraintsOn sql position body) (bodyColumns body) i defined ∧
          column.foreignKey =
            (declaredKeys (constraintsOn sql position body) (bodyColumns body) i defined).getLast?

theorem exists_table (hbody : bodyAt? sql position = some body) :
    ∃ table, (parse sql).tables[position]? = some table ∧ table.columns =
      mapFirst (·.name) (·.under (constraintsOn sql position body)) [] (bodyColumns body) := by
  obtain ⟨block, hblock, rfl⟩ := Option.map_eq_some_iff.mp hbody
  exact ⟨_, getElem?_parse_tables hblock, rfl⟩

theorem exists_bodyAt? {table : Table} (htable : (parse sql).tables[position]? = some table) :
    ∃ body, bodyAt? sql position = some body := by
  have hname : (blockNames sql)[position]? = some table.name := by
    rw [← map_name_parse, List.getElem?_map, htable]
    rfl
  rw [blockNames, List.getElem?_map] at hname
  obtain ⟨block, hblock, -⟩ := Option.map_eq_some_iff.mp hname
  exact ⟨_, Option.map_eq_some_iff.mpr ⟨block, hblock, rfl⟩⟩

theorem exists_column (hdefined : columns[i]? = some defined) :
    ∃ column, (mapFirst (·.name) (·.under constraints) [] columns)[i]? = some column ∧
      column.name = defined.name ∧ column.foreignKey = (declaredKeys constraints columns i defined).getLast? := by
  have hown : defined.foreignKey.toList.getLast? = defined.foreignKey := by
    cases defined.foreignKey <;> rfl
  by_cases hfirst : IsFirst (columns.map (·.name)) i
  · refine ⟨_, getElem?_mapFirst_of_first hdefined List.not_mem_nil hfirst, rfl, ?_⟩
    rw [declaredKeys, if_pos hfirst, List.getLast?_append, hown]
    rfl
  · refine ⟨_, (getElem?_mapFirst_of_not_first hfirst).trans hdefined, rfl, ?_⟩
    rw [declaredKeys, if_neg hfirst, List.append_nil, hown]

theorem reaches_of_mem (hbody : bodyAt? sql position = some body)
    (hdefined : (bodyColumns body)[i]? = some defined) (hname : defined.name = key.column)
    (hkey : key ∈ declaredKeys (constraintsOn sql position body) (bodyColumns body) i defined) :
    Reaches sql position key := by
  obtain ⟨table, htable, hcolumns⟩ := exists_table hbody
  obtain ⟨column, hcolumn, hcolumnName, hlast⟩ := exists_column hdefined
  exact ⟨body, table, i, defined, column, hbody, htable, hdefined, hcolumns ▸ hcolumn,
    hcolumnName.trans hname, hkey, hlast⟩

/-- A key in a constraint on a table reaches the first column of its name. -/
theorem reaches_of_constraint (hbody : bodyAt? sql position = some body)
    (hconstraint : constraint ∈ constraintsOn sql position body) (hkey : key ∈ constraint.foreignKeys)
    (hcolumn : key.column ∈ (bodyColumns body).map (·.name)) : Reaches sql position key := by
  obtain ⟨i, hi⟩ := exists_findIdx?_of_mem hcolumn
  obtain ⟨hfirst, hname⟩ := isFirst_of_findIdx? hi
  rw [List.getElem?_map] at hname
  obtain ⟨defined, hdefined, hname⟩ := Option.map_eq_some_iff.mp hname
  refine reaches_of_mem hbody hdefined hname ?_
  rw [declaredKeys, if_pos hfirst]
  have hmem := List.mem_flatMap.mpr ⟨constraint, hconstraint, hkey⟩
  exact List.mem_append_right _ (List.mem_filter.mpr ⟨hmem, decide_eq_true hname.symm⟩)

/-- A statement that adds something to a table stands in a dump and does not start within another one. -/
def Adds (kind : KeyKind) (sql : Text) (head : AlterationHead) (added : Text) : Prop :=
  ∃ front rest, sql = front ++ (head.text ++ (added ++ rest)) ∧
    ∀ o ∈ kind.statement.occurrences sql, ¬o.Covers front.length

/-- What a statement adds comes to the first table with the schema and the name that it means. -/
theorem Adds.mem_addedTo {kind : KeyKind} {head : AlterationHead} {added : Text} (hadds : Adds kind sql head added)
    (h : DefinesTables sql heads) (htable : firstAt heads head.target = some position)
    (hread : ∀ v, (alterTable ++ part .constraint kind.pattern).Reads (head.text ++ added) v
      [(.constraint, added), (.table, head.target.text)])
    (hparse : Constraint.parse? .postgresql added = some constraint) :
    constraint ∈ addedTo kind.statement sql position := by
  obtain ⟨front, rest, hsql, hcovers⟩ := hadds
  have hstatement := hread rest (lastOf none front)
  rw [List.append_assoc] at hstatement
  rw [hsql] at hcovers
  have hconsumes : kind.statement.Consumes := by cases kind <;> exact consumes_of_not_nullable rfl
  obtain ⟨o, ho, hreading, -⟩ := exists_mem_occurrences hconsumes hstatement hcovers
  have hpart : o.part .constraint = added ∧ o.part .table = head.target.text := by
    rw [Occurrence.part_eq, Occurrence.part_eq, hreading]
    exact ⟨rfl, rfl⟩
  have hmem : (Dialect.postgresql.normalizeName head.target.text, constraint) ∈ alterations kind.statement sql := by
    refine List.mem_filterMap.mpr ⟨o, hsql ▸ ho, ?_⟩
    rw [hpart.1, hpart.2, hparse]
    rfl
  obtain ⟨hfirst, hname⟩ := isFirst_of_firstAt h htable
  rw [addedTo, if_pos hfirst, hname]
  exact List.mem_map.mpr ⟨_, List.mem_filter.mpr ⟨hmem, decide_eq_true rfl⟩, rfl⟩

/-- A foreign key that a dump declares in the table at a position, with the table that it refers to. -/
inductive DeclaresKey (sql : Text) (heads : List CreationHead) : Nat → ForeignKey → Spelling → Prop
  | column {position : Nat} {body : Text} (c : ReferencingColumn) : bodyAt? sql position = some body →
      c.text ∈ splitDefinitions body → opensConstraint .postgresql c.text = false →
        DeclaresKey sql heads position c.key c.reference.target
  | constraint {position : Nat} {body : Text} {key : ForeignKey} (k : DeclaredKey) (rest : Text) :
      bodyAt? sql position = some body → k.text ++ rest ∈ splitDefinitions body →
        key ∈ k.list.decompose → key.column ∈ (bodyColumns body).map (·.name) →
          DeclaresKey sql heads position key k.reference.target
  | statement {position : Nat} {body : Text} {key : ForeignKey} (head : AlterationHead) (k : DeclaredKey) :
      Adds .foreignKey sql head k.text → (∀ c ∈ k.columns.text, c ≠ ';') →
        (∀ c ∈ k.reference.columns.text, c ≠ ';') → firstAt heads head.target = some position →
          bodyAt? sql position = some body → key ∈ k.list.decompose →
            key.column ∈ (bodyColumns body).map (·.name) → DeclaresKey sql heads position key k.reference.target

/-- A primary key that a dump adds to a table, with the names of its columns. -/
inductive AddsPrimaryKey (sql : Text) : Spelling → List String → Prop
  | statement (head : AlterationHead) (k : DeclaredPrimaryKey) : Adds .primaryKey sql head k.text →
      AddsPrimaryKey sql head.target (splitIdentifiers k.columns.text)

theorem DeclaresKey.reaches (h : DefinesTables sql heads) (hkey : DeclaresKey sql heads position key s) :
    Reaches sql position key := by
  cases hkey with
  | column c hbody hline hcolumn =>
      obtain ⟨defined, hparse, hname, hforeign⟩ := c.parseColumn?_text
      have hmem : defined ∈ bodyColumns _ := List.mem_filterMap.mpr
        ⟨c.text, List.mem_filter.mpr ⟨hline, by rw [hcolumn]; rfl⟩, hparse⟩
      obtain ⟨i, hi⟩ := List.getElem?_of_mem hmem
      refine reaches_of_mem hbody hi hname ?_
      rw [declaredKeys, hforeign]
      exact List.mem_append_left _ (List.mem_singleton.mpr rfl)
  | constraint k rest hbody hline hkey hcolumn =>
      have hmem : Constraint.foreignKey k.list ∈ bodyConstraints _ := List.mem_filterMap.mpr
        ⟨k.text ++ rest, List.mem_filter.mpr ⟨hline, k.opensConstraint_text rest⟩, k.parse?_text rest⟩
      exact reaches_of_constraint hbody (List.mem_append_left _ hmem) hkey hcolumn
  | statement head k hadds hcolumns hreferences htable hbody hkey hcolumn =>
      have hread := fun v => head.reads (k.reads_added hcolumns hreferences v) (k.stops_blank v) (k.rejects_add v)
      have hparse := k.parse?_text []
      rw [List.append_nil] at hparse
      have hmem := hadds.mem_addedTo h htable hread hparse
      exact reaches_of_constraint hbody (List.mem_append_right _ (List.mem_append_right _ hmem)) hkey hcolumn

theorem DeclaresKey.referencesTable_eq (hkey : DeclaresKey sql heads position key s) :
    key.referencesTable = Dialect.postgresql.normalizeName s.text := by
  cases hkey with
  | column c => rfl
  | constraint k rest hbody hline hkey => exact ForeignKeyList.referencesTable_of_mem_decompose hkey
  | statement head k hadds hcolumns hreferences htable hbody hkey =>
      exact ForeignKeyList.referencesTable_of_mem_decompose hkey

/-- A primary key that is added to a table marks the first column of each name that it lists. -/
theorem AddsPrimaryKey.isPrimaryKey {names : List String} {table : Table} {name : String} {column : Column}
    (hadds : AddsPrimaryKey sql s names) (h : DefinesTables sql heads) (hs : firstAt heads s = some position)
    (htable : (parse sql).tables[position]? = some table) (hname : name ∈ names)
    (hcolumn : table.column? name = some column) : column.isPrimaryKey := by
  cases hadds with
  | statement head k hadds =>
      have hread := fun v => head.reads (k.reads_added v) (k.stops_blank v) (k.rejects_add v)
      have hmem := hadds.mem_addedTo h hs hread k.parse?_text
      obtain ⟨body, hbody⟩ := exists_bodyAt? htable
      obtain ⟨_, hother, hcolumns⟩ := exists_table hbody
      obtain rfl := Option.some.inj (htable.symm.trans hother)
      have hunder : ∀ c : Column, (c.under (constraintsOn sql position body)).name = c.name := fun _ => rfl
      rw [Table.column?, hcolumns, find?_mapFirst hunder] at hcolumn
      obtain ⟨defined, hdefined, rfl⟩ := Option.map_eq_some_iff.mp hcolumn
      have hfound := List.find?_some hdefined
      obtain rfl : defined.name = name := of_decide_eq_true hfound
      exact Column.isPrimaryKey_under (List.mem_append_right _ (List.mem_append_left _ hmem)) hname

namespace SpelledDump

variable (d : SpelledDump) {t : SpelledTable} {filler : Filler} {a : SpelledAddition}

theorem definesTables : DefinesTables d.text d.heads := by
  have hread := d.map_reading_occurrences
  rw [← List.forall₂_eq_eq_eq, List.forall₂_map_left_iff, List.forall₂_map_right_iff] at hread
  obtain ⟨hlength, hpairs⟩ := List.forall₂_iff_zip.mp hread
  rw [DefinesTables, heads, List.forall₂_map_right_iff]
  refine List.forall₂_iff_zip.mpr ⟨hlength, ?_⟩
  intro block t hmem
  obtain ⟨v, hsql, hblock⟩ := exists_of_mem_occurrences (List.of_mem_zip hmem).1
  obtain ⟨htext, -⟩ := Prod.mk.inj (hpairs hmem)
  refine ⟨t.body.text ++ ([')', ';'] ++ block.reading.rest), ?_, ?_⟩
  · rw [hsql, ← read?_text hblock, htext, SpelledTable.text]
    simp only [List.append_assoc]
  · refine occursIn_iff.mpr ⟨_, _, rfl, ?_⟩
    rw [reads_bodyEnd]
    exact Option.some_ne_none _

theorem bodyAt?_text (ht : d.tables[position]? = some t) : bodyAt? d.text position = some t.body.text := by
  have hparts := congrArg (·[position]?) d.map_reading_occurrences
  simp only [List.getElem?_map, ht, Option.map_some] at hparts
  obtain ⟨block, hblock, hreading⟩ := Option.map_eq_some_iff.mp hparts
  obtain ⟨-, hparts⟩ := Prod.mk.inj hreading
  rw [bodyAt?, hblock, Option.map_some, Occurrence.part_eq, Match.part, Match.part?, hparts]
  rfl

theorem adds (ha : (filler, .addition a) ∈ d.statements) : Adds a.key.kind d.text a.head a.key.text := by
  obtain ⟨front, back, hd⟩ := List.append_of_mem ha
  refine ⟨textOf front ++ filler.text, a.suffix ++ [';'] ++ (textOf back ++ d.trailer.text), ?_,
    fun o ho => d.not_covers hd _ ho⟩
  rw [text, hd, textOf, List.flatMap_append, List.flatMap_cons]
  simp only [textOf, SpelledStatement.text, SpelledAddition.text, additionText, List.append_assoc]

/-- A foreign key in a dump: on a column, in the body of a table, or in a statement. -/
inductive Declares : Nat → ForeignKey → Spelling → Prop
  | column {position : Nat} {t : SpelledTable} (c : ReferencingColumn) : d.tables[position]? = some t →
      c.text ∈ t.body.definitions → opensConstraint .postgresql c.text = false →
        Declares position c.key c.reference.target
  | constraint {position : Nat} {t : SpelledTable} {key : ForeignKey} (k : DeclaredKey) (rest : Text) :
      d.tables[position]? = some t → k.text ++ rest ∈ t.body.definitions → key ∈ k.list.decompose →
        key.column ∈ (bodyColumns t.body.text).map (·.name) → Declares position key k.reference.target
  | statement {position : Nat} {t : SpelledTable} {key : ForeignKey} {filler : Filler} {a : SpelledAddition}
      (k : DeclaredKey) (hcolumns : ∀ c ∈ k.columns.text, c ≠ ';')
      (hreferences : ∀ c ∈ k.reference.columns.text, c ≠ ';') : (filler, .addition a) ∈ d.statements →
        a.key = .foreignKey k hcolumns hreferences → firstAt d.heads a.head.target = some position →
          d.tables[position]? = some t → key ∈ k.list.decompose →
            key.column ∈ (bodyColumns t.body.text).map (·.name) → Declares position key k.reference.target

variable {d}

theorem Declares.declaresKey (h : d.Declares position key s) : DeclaresKey d.text d.heads position key s := by
  cases h with
  | column c ht hline hcolumn =>
      rw [← SpelledTable.splitDefinitions_body] at hline
      exact .column c (d.bodyAt?_text ht) hline hcolumn
  | constraint k rest ht hline hkey hcolumn =>
      rw [← SpelledTable.splitDefinitions_body] at hline
      exact .constraint k rest (d.bodyAt?_text ht) hline hkey hcolumn
  | statement k hcolumns hreferences ha hforeign hfirst ht hkey hcolumn =>
      have hadds := d.adds ha
      rw [hforeign] at hadds
      exact .statement _ k hadds hcolumns hreferences hfirst (d.bodyAt?_text ht) hkey hcolumn

theorem addsPrimaryKey {k : DeclaredPrimaryKey} (ha : (filler, .addition a) ∈ d.statements)
    (hk : a.key = .primaryKey k) :
    AddsPrimaryKey d.text a.head.target (splitIdentifiers k.columns.text) := by
  have hadds := d.adds ha
  rw [hk] at hadds
  exact .statement _ k hadds

end SpelledDump

/-- Two ways to write a table have the same normalized name if and only if they mean the same schema and the
same name. A dump that defines tables in some spellings has them in their order, every key that it declares
reaches its table and refers to the first table with the schema and the name that it means, and a primary key
that is added to a table marks its columns in the first table of that schema and name. -/
theorem parse_resolves_spellings (sql : Text) (heads : List CreationHead) :
    (∀ s t : Spelling, Dialect.postgresql.normalizeName s.text = Dialect.postgresql.normalizeName t.text ↔
      s.address = t.address) ∧
    (DefinesTables sql heads →
      (parse sql).tables.map (·.name) = heads.map (fun head => .ofList (Spelling.shortName head.name.address)) ∧
      (∀ position key s, DeclaresKey sql heads position key s → Reaches sql position key ∧
        (parse sql).referencedTable? key = (firstAt heads s).bind ((parse sql).tables[·]?)) ∧
      ∀ s names position table, AddsPrimaryKey sql s names → firstAt heads s = some position →
        (parse sql).tables[position]? = some table →
          ∀ name ∈ names, ∀ column, table.column? name = some column → column.isPrimaryKey) := by
  refine ⟨fun s t => s.normalizeName_eq_iff t, fun h => ⟨?_, ?_, ?_⟩⟩
  · rw [map_name_parse, blockNames_eq h]
    exact List.map_congr_left fun head _ => head.name.normalizeName_text
  · intro position key s hkey
    exact ⟨hkey.reaches h, referencedTable?_of_spelling h hkey.referencesTable_eq⟩
  · intro s names position table hadds hs htable name hname column hcolumn
    exact hadds.isPrimaryKey h hs htable hname hcolumn

/-! A table that is defined, referred to and altered in different spellings:
```
CREATE TABLE public."t" (
 a int,
 b int REFERENCES "public".t(a),
 c int,
 d int,
 FOREIGN KEY (c) REFERENCES "t" (a)
);
ALTER TABLE "t" ADD FOREIGN KEY (d) REFERENCES public.t(a);
ALTER TABLE "public".t ADD PRIMARY KEY (a);
```
-/

def bareT : NamePart := .bare ['t'] (by decide) (by decide)

def quotedT : NamePart := .quoted ['t'] (by decide) (by decide)

def quotedPublic : NamePart := .quoted "public".toList public_ne_nil (by decide)

def selfHead : CreationHead := ⟨.plain _, .permanent, .plain _, none, ⟨some barePublic, quotedT⟩, .single⟩

def selfBody : Text :=
  "\n a int,\n b int REFERENCES \"public\".t(a),\n".toList ++ " c int,\n d int,\n".toList ++
    " FOREIGN KEY (c) REFERENCES \"t\" (a)\n".toList

def columnsOf (name : Char) (h : name ≠ ')' ∧ splitIdentifiers [name] ≠ []) : ColumnList :=
  ⟨[name], fun _ hc => List.mem_singleton.mp hc ▸ h.1, h.2⟩

def toSelf (target : Spelling) (space : Indent) : ReferenceClause :=
  ⟨.plain _, .single, target, space, columnsOf 'a' (by decide)⟩

def plainOpening (kind : KeyKind) : KeyOpening kind := ⟨none, .plain _, .plain _, .single⟩

def alterSelf (target : Spelling) : AlterationHead := ⟨.plain _, .plain _, none, none, target, .single, .plain _⟩

def selfColumn : ReferencingColumn where
  name := .bare ⟨['b'], by decide, by decide⟩
  behind := .single
  type := ⟨"int".toList, by decide, ⟨by decide, by decide⟩, rfl⟩
  default := none
  gap := .single
  naming := none
  reference := toSelf ⟨some quotedPublic, bareT⟩ ⟨[], blank_nil⟩
  tail := []
  oneLine := by decide +kernel
  noDefault := by decide +kernel
  noReference := by decide +kernel
  closedNames := by decide +kernel

def bodyKey : DeclaredKey := ⟨plainOpening _, columnsOf 'c' (by decide), .single, toSelf ⟨none, quotedT⟩ .single⟩

def addedKey : DeclaredKey :=
  ⟨plainOpening _, columnsOf 'd' (by decide), .single, toSelf ⟨some barePublic, bareT⟩ ⟨[], blank_nil⟩⟩

def addedPrimary : DeclaredPrimaryKey := ⟨plainOpening _, columnsOf 'a' (by decide), by decide⟩

def selfTable : Text := selfHead.text ++ (selfBody ++ [')', ';', '\n'])

def selfKey : Text := (alterSelf ⟨none, quotedT⟩).text ++ (addedKey.text ++ [';', '\n'])

def selfPrimary : Text := (alterSelf ⟨some quotedPublic, bareT⟩).text ++ (addedPrimary.text ++ [';', '\n'])

def selfSql : Text := selfTable ++ (selfKey ++ selfPrimary)

def selfLines : List Text :=
  ["a int".toList, selfColumn.text, "c int".toList, "d int".toList, bodyKey.text]

def selfDump : SpelledDump where
  statements :=
    [(.nothing, .table {
        head := selfHead
        body := ⟨selfLines.map fun line => ⟨[], ⟨[' '], Indent.single.blank⟩, line⟩, [], ⟨[], blank_nil⟩⟩
        inert := ⟨by decide +kernel, by decide +kernel⟩
        noAlteration := by decide +kernel }),
      (.lineBreak, .addition {
        head := alterSelf ⟨none, quotedT⟩
        key := .foreignKey addedKey (by decide) (by decide)
        suffix := []
        noCreation := by decide +kernel
        noOther := by decide +kernel }),
      (.lineBreak, .addition {
        head := alterSelf ⟨some quotedPublic, bareT⟩
        key := .primaryKey addedPrimary
        suffix := []
        noCreation := by decide +kernel
        noOther := by decide +kernel })]
  trailer := .lineBreak

theorem text_selfDump : selfDump.text = selfSql := by
  decide +kernel

theorem definesTables_self : DefinesTables selfSql [selfHead] :=
  text_selfDump ▸ selfDump.definesTables

theorem declaresKey_self : DeclaresKey selfSql [selfHead] 0 ⟨"b", "t", "a"⟩ ⟨some quotedPublic, bareT⟩ ∧
    DeclaresKey selfSql [selfHead] 0 ⟨"c", "t", "a"⟩ ⟨none, quotedT⟩ ∧
      DeclaresKey selfSql [selfHead] 0 ⟨"d", "t", "a"⟩ ⟨some barePublic, bareT⟩ := by
  have hcolumns : ∀ name ∈ ["c", "d"], name ∈ (bodyColumns selfBody).map (·.name) := by decide +kernel
  have hkey : selfColumn.key = ⟨"b", "t", "a"⟩ := by decide
  have hmem : selfDump.statements[1]? = some (.lineBreak, .addition _) := rfl
  rw [← text_selfDump]
  refine ⟨hkey ▸ SpelledDump.Declares.declaresKey ?_, SpelledDump.Declares.declaresKey ?_,
    SpelledDump.Declares.declaresKey ?_⟩
  · exact .column selfColumn rfl (by decide +kernel) (by decide +kernel)
  · exact .constraint bodyKey [] rfl (by decide +kernel) (by decide) (hcolumns "c" (by decide))
  · exact .statement addedKey (by decide) (by decide) (List.mem_of_getElem? hmem) rfl (by decide) rfl (by decide)
      (hcolumns "d" (by decide))

theorem addsPrimaryKey_self : AddsPrimaryKey selfSql ⟨some quotedPublic, bareT⟩ ["a"] := by
  have hmem : selfDump.statements[2]? = some (.lineBreak, .addition _) := rfl
  rw [← text_selfDump]
  exact SpelledDump.addsPrimaryKey (List.mem_of_getElem? hmem) rfl

/-- All keys lead to the table, and the last statement gives it a primary key. -/
theorem parse_self :
    DefinesTables selfSql [selfHead] ∧
    (∀ column s, (column, s) ∈ [("b", ⟨some quotedPublic, bareT⟩), ("c", ⟨none, quotedT⟩),
        ("d", (⟨some barePublic, bareT⟩ : Spelling))] →
      DeclaresKey selfSql [selfHead] 0 ⟨column, "t", "a"⟩ s ∧ Reaches selfSql 0 ⟨column, "t", "a"⟩ ∧
        (parse selfSql).referencedTable? ⟨column, "t", "a"⟩ = (parse selfSql).tables[0]?) ∧
    AddsPrimaryKey selfSql ⟨some quotedPublic, bareT⟩ ["a"] ∧
      ∀ table, (parse selfSql).tables[0]? = some table →
        ∀ column, table.column? "a" = some column → column.isPrimaryKey := by
  obtain ⟨-, hkeys, hprimary⟩ := (parse_resolves_spellings selfSql [selfHead]).2 definesTables_self
  have hfirst : ∀ s ∈ [⟨some quotedPublic, bareT⟩, ⟨none, quotedT⟩, (⟨some barePublic, bareT⟩ : Spelling)],
      firstAt [selfHead] s = some 0 := by decide
  have hreach : ∀ {column s}, DeclaresKey selfSql [selfHead] 0 ⟨column, "t", "a"⟩ s →
      firstAt [selfHead] s = some 0 → DeclaresKey selfSql [selfHead] 0 ⟨column, "t", "a"⟩ s ∧
        Reaches selfSql 0 ⟨column, "t", "a"⟩ ∧
          (parse selfSql).referencedTable? ⟨column, "t", "a"⟩ = (parse selfSql).tables[0]? := by
    intro column s hdeclares hs
    obtain ⟨hreaches, htable⟩ := hkeys _ _ _ hdeclares
    rw [hs, Option.bind_some] at htable
    exact ⟨hdeclares, hreaches, htable⟩
  obtain ⟨hb, hc, hd⟩ := declaresKey_self
  refine ⟨definesTables_self, ?_, addsPrimaryKey_self, ?_⟩
  · intro column s hmem
    simp only [List.mem_cons, List.not_mem_nil, or_false, Prod.mk.injEq] at hmem
    rcases hmem with ⟨rfl, rfl⟩ | ⟨rfl, rfl⟩ | ⟨rfl, rfl⟩
    · exact hreach hb (hfirst _ (by simp))
    · exact hreach hc (hfirst _ (by simp))
    · exact hreach hd (hfirst _ (by simp))
  · intro table htable column hcolumn
    exact hprimary _ _ 0 table addsPrimaryKey_self (hfirst _ (by simp)) htable "a" (List.mem_singleton.mpr rfl)
      column hcolumn

end SchemaDump.PostgreSQL
