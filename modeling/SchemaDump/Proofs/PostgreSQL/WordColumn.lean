import SchemaDump.Proofs.PostgreSQL.ClauseTable
import SchemaDump.Proofs.PostgreSQL.PlacedTable
/- Columns that are named by a word. Few words open a constraint where a type follows them, and a line that
starts with any other one defines a column of this name, whatever its type is. -/
namespace SchemaDump.PostgreSQL
open SqlPattern Pattern

/-- The words that open a constraint in front of a type, `EXCLUDE` and `USING` in one of them. -/
def openingWords : List String := constraintWords ++ ["EXCLUDEUSING"]

/-- A name without quotes and what stands behind it: a word that starts a type, and anything else. -/
structure WordColumn where
  name : Word
  type : Word
  notUsing : type.isOneOf ["USING"] = false
  rest : Text
  apart : Stops isWordChar rest

namespace WordColumn

variable (c : WordColumn)

def definition : Text := c.type.text ++ c.rest

def text : Text := c.name.text ++ ' ' :: c.definition

theorem stops_definition : Stops isBlank c.definition :=
  c.type.stops (fun _ => isBlank_eq_false_of_isWordChar) _

theorem isOneOf_eq_false {words : List String} (h : c.name.isOneOf openingWords = false)
    (hwords : ∀ word ∈ words, word ∈ openingWords) : c.name.isOneOf words = false := by
  rw [Word.isOneOf, List.any_eq_false]
  exact fun word hword => Bool.eq_false_iff.mp (Word.spells_eq_false h (hwords word hword))

/-- In front of its type, even a column that is called `EXCLUDE` opens no exclusion constraint. -/
theorem rejects_exclusion (hname : c.name.isOneOf ["EXCLUDEUSING"] = false) :
    (keyword "EXCLUDE" ++ (gap ++ exclusionTail) : SqlPattern).Rejects c.text := by
  cases hexclude : c.name.isOneOf ["EXCLUDE"] with
  | false =>
      refine PostgreSQL.rejects_exclusion ?_ c.definition
      simp only [Word.isOneOf, List.any_cons, List.any_nil, Bool.or_false] at hname hexclude ⊢
      rw [hname, hexclude]
      rfl
  | true =>
      have hspells : spells sameLetter "EXCLUDE".toList c.name.text := by
        simpa [Word.isOneOf] using hexclude
      have husing : (keyword "USING" ++ wordEdge : SqlPattern).Rejects c.definition :=
        read?_keyword_seq_eq_none (by decide) (by decide) endsWord_wordEdge c.type.chars c.apart
          (.inl (Word.spells_eq_false c.notUsing (by decide)))
      have hparen : (literal "(" : SqlPattern).Rejects c.definition := .of_starts rfl (c.type.stops
        (fun d hd => by simp [literal, ne_of_isWordChar (d := '(') (by decide) hd]) _)
      have hgap : (gap ++ exclusionTail : SqlPattern).Rejects ([' '] ++ c.definition) := by
        refine .gap (by decide) c.stops_definition rfl (fun d hd => ?_) (husing.alt hparen)
        have hmark : (literal "(" : SqlPattern).starts d = false := by
          cases hstarts : (literal "(" : SqlPattern).starts d with
          | false => rfl
          | true =>
              obtain rfl : d = '(' := by simpa [literal] using hstarts
              exact absurd hd (by decide)
        exact Bool.or_eq_false_iff.mpr ⟨starts_keyword_seq_of_blank rfl (by decide) d hd, hmark⟩
      exact .behind (fun before => readings_spelled hspells) hgap

/-- In front of a type, these words open a constraint and no others. -/
theorem opensConstraint_text : opensConstraint .postgresql c.text = c.name.isOneOf openingWords := by
  cases hname : c.name.isOneOf openingWords with
  | true =>
      obtain ⟨word, hword, hspells⟩ := List.any_eq_true.mp hname
      rcases List.mem_append.mp hword with hword | hword
      · exact opensConstraint_spelled hword hspells (stops_cons.mpr (by decide))
      · obtain rfl := List.mem_singleton.mp hword
        exact opensConstraint_exclusion (by simpa [Word.isOneOf] using hspells) _
  | false =>
      have hopens : Stops isBlank c.text := c.name.stops (fun _ => isBlank_eq_false_of_isWordChar) _
      refine (opensConstraint_eq_false_iff hopens).mpr ⟨fun word hword => ?_,
        c.rejects_exclusion (c.isOneOf_eq_false hname (by decide)) none⟩
      obtain ⟨hne, hletters, -⟩ := constraintWords_letters word (List.mem_append_left _ hword)
      exact read?_keyword_seq_eq_none hletters hne endsWord_wordEdge c.name.chars (stops_cons.mpr (by decide))
        (.inl (Word.spells_eq_false hname (List.mem_append_left _ hword))) none

/-- The line as a definition: it ends with something, and no body ends and no table is altered in it. -/
theorem isDefinition (hname : c.name.isOneOf ["TABLE"] = false) (hline : '\n' ∉ c.rest)
    (hsolid : EndsSolid c.definition) (hinert : Inert c.text) : IsDefinition c.text where
  toInert := hinert
  unbroken hmem := by
    rcases List.mem_append.mp hmem with h | h
    · exact absurd (c.name.chars _ h) (by decide)
    · rcases List.mem_append.mp (List.mem_of_ne_of_mem (by decide) h) with h | h
      · exact absurd (c.type.chars _ h) (by decide)
      · exact hline h
  opens := by
    obtain ⟨d, rest, hd⟩ := List.exists_cons_of_ne_nil c.name.nonempty
    have hword : isWordChar d := c.name.chars d (hd ▸ List.mem_cons_self)
    exact ⟨d, rest ++ ' ' :: c.definition, by rw [text, hd, List.cons_append],
      isBlank_eq_false_of_isWordChar hword, ne_of_isWordChar (by decide) hword⟩
  endsSolid := by
    have hne : c.definition ≠ [] := List.append_ne_nil_of_left_ne_nil c.type.nonempty _
    have htext : c.text = (c.name.text ++ [' ']) ++ c.definition := List.append_cons _ _ _
    exact htext ▸ hsolid.behind hne _
  starts := c.name.stops (fun d hd => by
    simp [ne_of_isWordChar (d := ';') (by decide) hd, ne_of_isWordChar (d := '(') (by decide) hd]) _
  noSequel := by
    have htext : c.text ++ ['\n'] = (Name.bare c.name).text ++ ' ' :: (c.type.text ++ (c.rest ++ ['\n'])) := by
      simp [text, definition, Name.text]
    rw [htext]
    exact at?_eq_none_iff.mpr (rejects_sequel (.bare c.name) hname c.type _ _)

theorem exists_definesColumn (hname : c.name.isOneOf openingWords = false) (h : IsDefinition c.text) :
    ∃ column, DefinesColumn .postgresql parseColumn? c.text column ∧ column.name = .ofList c.name.text :=
  (ColumnName.bare c.name).exists_definesColumn .single (List.append_ne_nil_of_left_ne_nil c.type.nonempty _)
    c.stops_definition h (c.opensConstraint_text.trans hname)

theorem map_name_definedColumns {columns : List WordColumn}
    (h : ∀ c ∈ columns, c.name.isOneOf openingWords = false ∧ IsDefinition c.text) :
    (definedColumns .postgresql parseColumn? (columns.map (·.text))).map (·.name) =
      columns.map fun c => .ofList c.name.text := by
  induction columns with
  | nil => rfl
  | cons c columns ih =>
      obtain ⟨hname, hline⟩ := h c List.mem_cons_self
      obtain ⟨column, hdefines, hcolumn⟩ := c.exists_definesColumn hname hline
      have hrest := ih fun c hc => h c (List.mem_cons_of_mem _ hc)
      rw [definedColumns] at hrest
      simp only [definedColumns, List.map_cons, List.filter_cons, hdefines.opensNone, Bool.not_false, if_true,
        List.filterMap_cons, hdefines.parses, hcolumn, hrest]

end WordColumn

/-- In front of a type, a word opens a constraint if and only if it is one of a few. A table of lines that start
with other words has a column for each of them, and a primary key that a statement adds to the first table of the
name marks the columns that it lists. -/
theorem parse_wordColumns (d : PlacedTable) (columns : List WordColumn)
    (hbody : d.table.body.definitions = columns.map (·.text)) :
    (∀ c : WordColumn, opensConstraint .postgresql c.text = c.name.isOneOf openingWords) ∧
      ((∀ c ∈ columns, c.name.isOneOf openingWords = false) →
        ∃ t, (parse d.text).tables[d.position]? = some t ∧ t.name = d.name ∧
          t.columnNames = columns.map (fun c => .ofList c.name.text) ∧
          ((∀ earlier ∈ d.earlier, earlier.name ≠ d.name) → ∀ a ∈ d.alterations, ∀ names,
            a.addition = (d.name, .primaryKey names) → ∀ c ∈ columns, .ofList c.name.text ∈ names →
              ∃ column, t.column? (.ofList c.name.text) = some column ∧ column.isPrimaryKey)) := by
  refine ⟨fun c => c.opensConstraint_text, fun hwords => ?_⟩
  have hdefinitions : ∀ c ∈ columns, c.name.isOneOf openingWords = false ∧ IsDefinition c.text := fun c hc =>
    ⟨hwords c hc, d.table.definitions _ (hbody ▸ List.mem_map_of_mem hc)⟩
  have hnames : d.columns.map (·.name) = columns.map fun c => .ofList c.name.text := by
    rw [PlacedTable.columns, hbody]
    exact WordColumn.map_name_definedColumns hdefinitions
  refine ⟨_, d.getElem?_tables, rfl, Table.columnNames_ofDefinition.trans hnames, ?_⟩
  intro hfirst a ha names haddition c hc hlisted
  obtain ⟨hname, hkey⟩ := Prod.mk.inj haddition
  refine Table.exists_isPrimaryKey (hnames ▸ List.mem_map_of_mem hc) (d.mem_constraints_of_addition hfirst ha hname) ?_
  rw [hkey]
  exact hlisted

/-! A table with columns that are called like words of constraints, one of them its primary key:
```
CREATE TABLE parts (
    exclude date NOT NULL,
    index smallint DEFAULT 0
);

ALTER TABLE parts ADD PRIMARY KEY (exclude);
```
-/

def excludeColumn : WordColumn where
  name := .ofString "exclude" (by decide)
  type := .ofString "date" (by decide)
  notUsing := by decide
  rest := " NOT NULL".toList
  apart := by decide

def indexColumn : WordColumn where
  name := .ofString "index" (by decide)
  type := .ofString "smallint" (by decide)
  notUsing := by decide
  rest := " DEFAULT 0".toList
  apart := by decide

def partsBody : Body where
  entries := [excludeColumn, indexColumn].map fun c => ⟨[], ⟨List.replicate 4 ' ', by decide⟩, c.text⟩
  comments := []
  margin := ⟨[], blank_nil⟩

theorem isDefinition_parts : ∀ d ∈ partsBody.definitions, IsDefinition d := by
  have hinert : ∀ c ∈ [excludeColumn, indexColumn], Inert c.text := by
    rintro c (_ | ⟨_, _ | ⟨_, hc⟩⟩)
    · decide +kernel
    · decide +kernel
    · cases hc
  intro d hd
  rw [Body.definitions, partsBody, List.map_map] at hd
  obtain ⟨c, hc, rfl⟩ := List.mem_map.mp hd
  exact c.isDefinition (by revert c; decide) (by revert c; decide) (by revert c; decide) (hinert c hc)

def partsTable : PlacedTable where
  front := []
  filler := .nothing
  table :=
    { kind := .permanent
      ifNotExists := false
      target := ⟨false, .bare (.ofString "parts" (by decide))⟩
      body := partsBody
      definitions := isDefinition_parts
      comments := nofun }
  back := [(⟨"\n\n".toList, by decide +kernel, by decide +kernel, by decide⟩, .alteration
    { ifExists := false
      only := false
      target := ⟨false, .bare (.ofString "parts" (by decide))⟩
      space := .single
      spaceNonempty := List.cons_ne_nil _ _
      clause := ⟨none, .primaryKey false [.bare (.ofString "exclude" (by decide))] (List.cons_ne_nil _ _)⟩ })]
  trailer := .nothing

theorem parse_partsTable : partsTable.text = ("CREATE TABLE parts (\n    exclude date NOT NULL,\n" ++
      "    index smallint DEFAULT 0\n);\n\nALTER TABLE parts ADD PRIMARY KEY (exclude);").toList ∧
    ∃ t, (parse partsTable.text).tables[0]? = some t ∧ t.columnNames = ["exclude", "index"] ∧
      ∃ column, t.column? "exclude" = some column ∧ column.isPrimaryKey := by
  have hbody : partsTable.table.body.definitions = [excludeColumn, indexColumn].map (·.text) := rfl
  obtain ⟨t, ht, -, hnames, hmarks⟩ := (parse_wordColumns partsTable _ hbody).2 (by decide)
  exact ⟨by decide +kernel, t, ht, hnames, hmarks nofun _ List.mem_cons_self ["exclude"] (by decide) excludeColumn
    List.mem_cons_self (by decide)⟩

end SchemaDump.PostgreSQL
