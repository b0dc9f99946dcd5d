import SchemaDump.Proofs.MySQL.OptionTable
/- Columns with any attributes in a dump. The attributes say the same in every order, and they say the same without
what a reference says to happen to a row. -/
namespace SchemaDump.MySQL
open SqlPattern Pattern

variable {a : Attribute} {attributes : List Attribute}

namespace Attribute

/-- An attribute that reads the same wherever it stands: no comment opens in a reference or in a default, no default
opens in a reference, and no literal ends with the opening of a comment. -/
def isPlain : Attribute → Bool
  | option (.default (.literal l)) => !(commentOpening ++ textEnd).occursIn l.text
  | references r =>
      !commentQuote.occursIn (references r).text && !defaultOpening.occursIn ((references r).text ++ [' '])
  | default d => !commentQuote.occursIn (default d).text
  | _ => true

theorem isQuiet_of_isPlain (h : a.isPlain) : a.isQuiet := by
  cases a with
  | references r => exact (Bool.and_eq_true_iff.mp h).1
  | default d => exact h
  | _ => rfl

theorem allows_of_isPlain (h : a.isPlain) (next : Attribute) : a.allows next := by
  cases hliteral : a.literal? with
  | some l =>
      obtain rfl := eq_of_literal? hliteral
      exact Bool.or_eq_true_iff.mpr (.inl h)
  | none =>
      cases a with
      | option o =>
          cases o with
          | default d =>
              cases d with
              | literal => cases hliteral
              | bare => rfl
          | _ => rfl
      | _ => rfl

end Attribute

theorem opensWith_defaultOpening : OpensWith ["DEFAULT"] (fun _ => True) defaultOpening := by
  rw [defaultOpening, opensWith_assoc]
  refine opensWith_edge (by decide) (by decide) fun t before hread => ?_
  obtain ⟨e, w, ht, hspells, hblank⟩ := exists_of_read?_keyword_seq hread
  obtain ⟨b, w, rfl, hb⟩ := needsBlank_one _ _ hblank
  exact ⟨e, b :: w, ht, hspells, stops_cons.mpr (isWordChar_eq_false_of_isBlank hb), trivial⟩

/-- No default opens in a plain attribute that is neither a default nor a comment. -/
theorem Attribute.no_defaultOpening (h : a.isPlain) (hcomment : a.kind ≠ .option .comment) :
    a.kind = .option .default ∨ defaultOpening.occursIn (a.text ++ [' ']) = false := by
  cases a with
  | option o =>
      cases o with
      | default => exact .inl rfl
      | comment => exact absurd rfl hcomment
      | _ => exact .inr (by decide)
  | null => exact .inr (by decide)
  | references r =>
      have hno := (Bool.and_eq_true_iff.mp h).2
      exact .inr (by simpa using hno)
  | default => exact .inl rfl
  | collate word plain =>
      have hword : spells sameLetter "DEFAULT".toList word.text = false := by
        simpa using List.any_eq_false.mp plain "DEFAULT" (by decide)
      have hkeyword : ∀ before w, defaultOpening.Silent before " COLLATE".toList (' ' :: w) := fun before w =>
        opensWith_defaultOpening.silent_blank_word (by decide) (by decide) (stops_cons.mpr (by decide))
          (.inl (by decide))
      have hname : ∀ before, defaultOpening.Silent before (' ' :: word.text) [' '] := fun before =>
        opensWith_defaultOpening.silent_blank_word word.chars word.nonempty (stops_cons.mpr (by decide))
          (.inl fun w hw => List.mem_singleton.mp hw ▸ hword)
      have hend : ∀ before, defaultOpening.Silent before [' '] [] := fun before =>
        opensWith_defaultOpening.silent_blanks (by decide) (by decide) (stops_nil _)
      have hsplit : (collate word plain).text ++ [' '] = (" COLLATE".toList ++ ' ' :: word.text) ++ [' '] := rfl
      rw [hsplit]
      refine .inr (occursIn_eq_false_of_silent (consumes_of_not_nullable rfl) ?_)
      exact ((hkeyword none _).append (hname _)).append (hend _)

namespace AttributeLine

variable {c : AttributeLine}

theorem readable_of_isPlain (hclosed : ∀ l ∈ c.type.contents, ')' ∉ l.text) (hplain : ∀ a ∈ c.attributes, a.isPlain) :
    c.Readable where
  closed := hclosed
  quiet a ha := Attribute.isQuiet_of_isPlain (hplain a ha)
  settled := List.Pairwise.imp_of_mem (fun ha _ _ => Attribute.allows_of_isPlain (hplain _ ha) _)
    (List.pairwise_of_forall fun _ _ => trivial)
  plain := noEarlyDefault_of_forall fun a ha =>
    Attribute.no_defaultOpening (hplain a (c.mem_others.mp ha).1) (c.mem_others.mp ha).2

/-- The line with its attributes in another order. -/
def reordered (c : AttributeLine) (horder : attributes.Perm c.attributes) : AttributeLine where
  name := c.name
  type := c.type
  attributes := attributes
  distinct := ((horder.map (·.kind)).filter _).nodup_iff.mpr c.distinct

variable (horder : attributes.Perm c.attributes)

theorem column_reordered : (c.reordered horder).column = c.column := by
  have hkinds : ∀ k, (attributes.map (·.kind)).contains k = (c.attributes.map (·.kind)).contains k := fun k =>
    (horder.map (·.kind)).contains_eq
  have hvalue : attributes.findSome? (·.value?) = c.attributes.findSome? (·.value?) :=
    findSome?_perm Attribute.kind_of_value? (c.count_kind_le_one (by decide)) horder
  have hreference : attributes.findSome? (·.reference?) = c.attributes.findSome? (·.reference?) :=
    findSome?_perm Attribute.kind_of_reference? (c.count_kind_le_one (by decide)) horder
  simp only [column, reordered, hkinds, hvalue, hreference]

theorem Fits.reordered (h : c.Fits) : (c.reordered horder).Fits := by
  intro t ht
  refine h t (List.mem_cons.mpr ((List.mem_cons.mp ht).imp_right fun ht => ?_))
  exact List.mem_append.mpr ((List.mem_append.mp ht).imp_right fun ht => (horder.flatMap_right _).mem_iff.mp ht)

end AttributeLine

theorem ColumnReference.text_withoutActions (r : ColumnReference) : r.withoutActions.text = r.front := List.append_nil _

namespace Attribute

theorem kind_withoutActions (a : Attribute) : a.withoutActions.kind = a.kind := by cases a <;> rfl

theorem kinds_withoutActions (attributes : List Attribute) :
    (attributes.map (·.withoutActions)).map (·.kind) = attributes.map (·.kind) := by
  rw [List.map_map]
  exact List.map_congr_left fun a _ => a.kind_withoutActions

theorem value?_withoutActions (a : Attribute) : a.withoutActions.value? = a.value? := by cases a <;> rfl

theorem reference?_withoutActions (a : Attribute) :
    a.withoutActions.reference? = a.reference?.map (·.withoutActions) := by cases a <;> rfl

theorem opaqueTexts_withoutActions (a : Attribute) : a.withoutActions.opaqueTexts = a.opaqueTexts := by cases a <;> rfl

theorem exists_text_withoutActions (a : Attribute) :
    ∃ actions, a.text = a.withoutActions.text ++ actionText actions := by
  cases a with
  | references r =>
      refine ⟨r.actions, ?_⟩
      have hbare : (references r).withoutActions.text = ' ' :: r.front := congrArg _ r.text_withoutActions
      rw [hbare]
      rfl
  | _ => exact ⟨[], (List.append_nil _).symm⟩

theorem isQuiet_withoutActions (h : a.isQuiet) : a.withoutActions.isQuiet := by
  cases a with
  | references r =>
      obtain ⟨actions, htext⟩ := exists_text_withoutActions (references r)
      rw [isQuiet, htext, Bool.not_eq_eq_eq_not, Bool.not_true] at h
      have hno : commentQuote.occursIn (references r).withoutActions.text = false :=
        occursIn_eq_false_of_isInfix (x := []) (z := actionText actions) rfl h
      exact congrArg not hno
  | _ => exact h

theorem allows_withoutActions {next : Attribute} (h : a.allows next) : a.withoutActions.allows next.withoutActions := by
  obtain ⟨actions, htext⟩ := exists_text_withoutActions next
  have hquote : next.text.contains '\'' = false → next.withoutActions.text.contains '\'' = false := by
    simp only [htext, List.contains_eq_mem, decide_eq_false_iff_not, List.mem_append, not_or]
    exact And.left
  cases hliteral : a.literal? with
  | none =>
      cases a with
      | option o =>
          cases o with
          | default d =>
              cases d with
              | literal => cases hliteral
              | bare => rfl
          | _ => rfl
      | _ => rfl
  | some l =>
      obtain rfl := eq_of_literal? hliteral
      simp only [allows, withoutActions, Bool.or_eq_true, Bool.not_eq_true'] at h ⊢
      exact h.imp_right hquote

end Attribute

theorem attributesText_withoutActions_take (attributes : List Attribute) :
    (attributesText (attributes.map (·.withoutActions))).take 1 = (attributesText attributes).take 1 := by
  cases attributes with
  | nil => rfl
  | cons a attributes =>
      obtain ⟨d, u, htext, -⟩ := a.exists_text_eq
      obtain ⟨e, w, hbare, -⟩ := a.withoutActions.exists_text_eq
      rw [List.map_cons, attributesText_cons, attributesText_cons, htext, hbare]
      rfl

theorem NoEarlyDefault.withoutActions (h : NoEarlyDefault attributes) :
    NoEarlyDefault (attributes.map (·.withoutActions)) := by
  induction attributes with
  | nil => trivial
  | cons a attributes ih =>
      rcases h with h | ⟨hno, h⟩
      · exact .inl (a.kind_withoutActions.trans h)
      · refine .inr ⟨?_, ih h⟩
        obtain ⟨actions, htext⟩ := a.exists_text_withoutActions
        rw [attributesText_withoutActions_take]
        cases actions with
        | nil =>
            have hsame : a.withoutActions.text = a.text := by rw [htext, actionText, List.flatMap_nil, List.append_nil]
            rwa [hsame]
        | cons action actions =>
            -- the actions go on with the blank that the next attribute starts with
            obtain ⟨rest, hrest⟩ : ∃ rest, actionText (action :: actions) = ' ' :: rest := ⟨_, rfl⟩
            refine defaultOpening_take (defaultOpening_of_append
              (w := rest ++ (attributesText attributes).take 1) ?_) attributes
            rw [htext, hrest] at hno
            simpa using hno

namespace AttributeLine

variable (c : AttributeLine)

/-- The line without the actions of its reference. -/
def withoutActions : AttributeLine where
  name := c.name
  type := c.type
  attributes := c.attributes.map (·.withoutActions)
  distinct := (Attribute.kinds_withoutActions c.attributes).symm ▸ c.distinct

theorem column_withoutActions : c.withoutActions.column = c.column := by
  have hvalue : (c.attributes.map (·.withoutActions)).findSome? (·.value?) = c.attributes.findSome? (·.value?) := by
    rw [List.findSome?_map]
    exact congrArg (List.findSome? · c.attributes) (funext Attribute.value?_withoutActions)
  have hreference : (c.attributes.map (·.withoutActions)).findSome? (·.reference?) =
      (c.attributes.findSome? (·.reference?)).map (·.withoutActions) := by
    rw [List.findSome?_map, List.map_findSome?]
    exact congrArg (List.findSome? · c.attributes) (funext Attribute.reference?_withoutActions)
  rw [column, withoutActions, Attribute.kinds_withoutActions, hvalue, hreference, Option.map_map]
  rfl

theorem others_withoutActions : c.withoutActions.others = c.others.map (·.withoutActions) := by
  rw [others, others, withoutActions, List.filter_map]
  exact congrArg _ (List.filter_congr fun a _ => by simp [Attribute.kind_withoutActions])

variable {c}

theorem Fits.withoutActions (h : c.Fits) : c.withoutActions.Fits := by
  have htexts : (c.attributes.map (·.withoutActions)).flatMap (·.opaqueTexts) =
      c.attributes.flatMap (·.opaqueTexts) := by
    rw [List.flatMap_map]
    exact congrArg (List.flatMap · c.attributes) (funext Attribute.opaqueTexts_withoutActions)
  intro t ht
  rw [opaqueTexts, AttributeLine.withoutActions, htexts] at ht
  exact h t ht

theorem Readable.withoutActions (h : c.Readable) : c.withoutActions.Readable where
  closed := h.closed
  quiet a ha := by
    obtain ⟨b, hb, rfl⟩ := List.mem_map.mp ha
    exact Attribute.isQuiet_withoutActions (h.quiet b hb)
  settled := List.pairwise_map.mpr (h.settled.imp fun h => Attribute.allows_withoutActions h)
  plain := c.others_withoutActions ▸ h.plain.withoutActions

end AttributeLine

namespace DumpContext

variable (d : DumpContext)

/-- In a table without constraints a definition stands for its column. -/
theorem parse_definesColumn {line : Text} {column : Column} (h : IsDefinition line)
    (hdefines : DefinesColumn .mysql parseColumn? line column)
    (hkeys : definedConstraints .mysql (d.table.body.definitionsAbove ++ d.table.body.definitionsBelow) = []) :
    parse (d.fill h).text =
      ⟨definedTables d.front ++
        ⟨d.table.name.string, definedColumns .mysql parseColumn? d.table.body.definitionsAbove ++
          column :: definedColumns .mysql parseColumn? d.table.body.definitionsBelow⟩ :: definedTables d.back⟩ := by
  have hconstraints : definedConstraints .mysql d.table.body.definitionsAbove ++
      definedConstraints .mysql d.table.body.definitionsBelow = [] := by
    rw [← hkeys]
    simp only [definedConstraints, List.map_append, List.filter_append, List.filterMap_append]
  rw [parse_fill, TableContext.tableOf_fill, definedTable_split _ _ _ hdefines, hconstraints, Table.ofDefinition_nil,
    d.table.name.normalize_eq]

theorem parse_congr {line other : Text} {column : Column} (h : IsDefinition line) (hother : IsDefinition other)
    (hdefines : DefinesColumn .mysql parseColumn? line column)
    (hsame : DefinesColumn .mysql parseColumn? other column) :
    parse (d.fill h).text = parse (d.fill hother).text := by
  rw [parse_fill, parse_fill, TableContext.tableOf_fill, TableContext.tableOf_fill, definedTable_congr hsame hdefines]

/-- In a table without constraints a line of plain attributes stands for its column, in whatever order they stand. -/
theorem extract_permuted (c : AttributeLine) (hfits : c.Fits) (hclosed : ∀ l ∈ c.type.contents, ')' ∉ l.text)
    (hplain : ∀ a ∈ c.attributes, a.isPlain)
    (hkeys : definedConstraints .mysql (d.table.body.definitionsAbove ++ d.table.body.definitionsBelow) = [])
    {attributes : List Attribute} (horder : attributes.Perm c.attributes) :
    Dialect.mysql.extract (d.fill (hfits.reordered horder).isDefinition).text =
      ⟨definedTables d.front ++
        ⟨d.table.name.string, definedColumns .mysql parseColumn? d.table.body.definitionsAbove ++
          c.column :: definedColumns .mysql parseColumn? d.table.body.definitionsBelow⟩ :: definedTables d.back⟩ := by
  have hread : (c.reordered horder).Readable :=
    AttributeLine.readable_of_isPlain hclosed fun a ha => hplain a (horder.mem_iff.mp ha)
  have hdefines := hread.definesColumn
  rw [AttributeLine.column_reordered] at hdefines
  exact d.parse_definesColumn _ hdefines hkeys

end DumpContext

/-- A dump with a table of orders, and a column of it. -/
def orderDump : DumpContext where
  front := []
  filler := ⟨"-- Orders\n\n".toList, by decide, by decide⟩
  table :=
    { temporary := false
      ifNotExists := false
      name := ⟨"orders".toList, by decide, by decide, by decide, by decide⟩
      body :=
        { above := []
          comments := []
          margin := ⟨"\n  ".toList, by decide⟩
          below := []
          lastComments := []
          lastMargin := ⟨"\n ".toList, by decide⟩ }
      definitions := by decide
      comments := by decide
      options := " DEFAULT CHARSET=utf8mb4".toList
      optionsPlain := by decide }
  back := []
  trailer := ⟨"\n\n-- Orders\n".toList, by decide, by decide⟩

/-- A reference to a table with the words of other attributes in its name. -/
def placedReference : ColumnReference where
  table := .quoted ⟨"NOT NULL, PRIMARY KEY".toList, by decide, by decide⟩
  spaced := true
  column := .quoted ⟨['i', 'd'], by decide, by decide⟩
  listed := by decide
  actions := [⟨.delete, .setNull⟩, ⟨.update, .cascade⟩]

@[inherit_doc orderDump]
def placedLine : AttributeLine where
  name := .quoted ⟨"placed by".toList, by decide, by decide⟩
  type :=
    { word := "timestamp".toList
      wordNonempty := by decide
      wordChars := by decide
      arguments := some (.plain ['6'] (by decide))
      modifiers := [] }
  attributes :=
    [.option .notNull,
      .references placedReference,
      .default (.token "CURRENT_TIMESTAMP(6)".toList (by decide) (by decide) (by decide)),
      .collate ⟨"utf8mb4_bin".toList, by decide, by decide⟩ (by decide),
      .option (.comment ⟨"DEFAULT NULL".toList, by decide⟩)]
  distinct := by decide

theorem extract_orderDump :
    ∃ hfits : placedLine.Fits, (∀ a ∈ placedLine.attributes, a.isPlain) ∧
      (placedLine.reordered placedLine.attributes.reverse_perm).text =
        ("\x60placed by\x60 timestamp(6) COMMENT 'DEFAULT NULL' COLLATE utf8mb4_bin" ++
          " DEFAULT CURRENT_TIMESTAMP(6) REFERENCES \x60NOT NULL, PRIMARY KEY\x60 (\x60id\x60)" ++
          " ON DELETE SET NULL ON UPDATE CASCADE NOT NULL").toList ∧
      Dialect.mysql.extract (orderDump.fill (hfits.reordered placedLine.attributes.reverse_perm).isDefinition).text =
        ⟨[⟨"orders", [
          { name := "placed by"
            declaredType := "timestamp(6)"
            isPrimaryKey := false
            isNullable := false
            defaultValue := some "CURRENT_TIMESTAMP(6)"
            foreignKey := some ⟨"placed by", "NOT NULL, PRIMARY KEY", "id"⟩ }]⟩]⟩ := by
  have hfits : placedLine.Fits := by decide
  have hplain : ∀ a ∈ placedLine.attributes, a.isPlain := by decide
  refine ⟨hfits, hplain, by decide +kernel, ?_⟩
  rw [orderDump.extract_permuted placedLine hfits (by decide) hplain (by decide) placedLine.attributes.reverse_perm]
  decide

end SchemaDump.MySQL
