import SchemaDump.Proofs.MySQL.Line
import SchemaDump.Proofs.MySQL.Table
/- The body of a table falls apart into its lines, and each line gives back the column or the
constraint it was written for. -/
namespace SchemaDump.MySQL
open SqlPattern Pattern

variable {pad : Text}

theorem bodyColumns_append (a b : Text) :
    bodyColumns (a ++ ',' :: '\n' :: b) = bodyColumns a ++ bodyColumns b := by
  simp only [bodyColumns, splitDefinitions_append, List.filter_append, List.filterMap_append]

theorem bodyConstraints_append (a b : Text) :
    bodyConstraints (a ++ ',' :: '\n' :: b) = bodyConstraints a ++ bodyConstraints b := by
  simp only [bodyConstraints, splitDefinitions_append, List.filter_append, List.filterMap_append]

theorem bodyParts_constraint {body fragment : Text} (h : splitDefinitions body = [fragment])
    (hopens : opensConstraint .mysql fragment = true) :
    bodyColumns body = [] ∧ bodyConstraints body = (Constraint.parse? .mysql fragment).toList := by
  simp only [bodyColumns, bodyConstraints, h, List.filter_cons, hopens, Bool.not_true,
    Bool.false_eq_true, if_false, if_true, List.filter_nil, List.filterMap_nil, List.filterMap_cons]
  cases Constraint.parse? .mysql fragment <;> simp

theorem bodyParts_column {body fragment : Text} (h : splitDefinitions body = [fragment])
    (hopens : opensConstraint .mysql fragment = false) :
    bodyColumns body = (parseColumn? fragment).toList ∧ bodyConstraints body = [] := by
  simp only [bodyColumns, bodyConstraints, h, List.filter_cons, hopens, Bool.not_false,
    Bool.false_eq_true, if_false, if_true, List.filter_nil, List.filterMap_nil, List.filterMap_cons]
  cases parseColumn? fragment <;> simp

theorem opensConstraint_quoted (name : QuotedName) (t : Text) : opensConstraint .mysql (name.quoted ++ t) = false := by
  have hrejects : (constraintOpening .mysql).Rejects (name.quoted ++ t) :=
    .of_starts (by decide) (stops_cons.mpr (by decide))
  have hstart : Text.trimStart (name.quoted ++ t) = name.quoted ++ t :=
    dropWhile_eq_self fun d hd => Option.some.inj hd ▸ by decide
  have hnone : (constraintOpening .mysql).opening? (name.quoted ++ t) = none := at?_eq_none_iff.mpr (hrejects none)
  rw [opensConstraint, hstart, hnone]
  rfl

/-- Neither is what starts with a word that opens none. -/
theorem opensConstraint_columnName (name : ColumnName) (t : Text) :
    opensConstraint .mysql (name.text ++ ' ' :: t) = false := by
  cases name with
  | quoted name => exact opensConstraint_quoted name _
  | bare word plain =>
      have hletters : ∀ keyword ∈ constraintWords, (∀ c ∈ keyword.toList, c.isAlpha) ∧ keyword.toList ≠ [] := by decide
      have hrejects : (constraintOpening .mysql).Rejects (word.text ++ ' ' :: t) := by
        refine Rejects.anyOf_seq fun p hp => ?_
        obtain ⟨keyword, hkeyword, rfl⟩ := List.mem_map.mp hp
        exact read?_keyword_seq_eq_none (hletters keyword hkeyword).1 (hletters keyword hkeyword).2 endsWord_wordEdge
          word.chars (stops_cons.mpr (by decide)) (.inl (word.spells_eq_false plain hkeyword))
      have hstart : Text.trimStart (word.text ++ ' ' :: t) = word.text ++ ' ' :: t :=
        dropWhile_eq_self (word.stops (fun _ => isBlank_eq_false_of_isWordChar) _)
      have hnone : (constraintOpening .mysql).opening? (word.text ++ ' ' :: t) = none :=
        at?_eq_none_iff.mpr (hrejects none)
      rw [opensConstraint, ColumnName.text, ColumnName.target, TargetName.text, hstart, hnone]
      rfl

theorem opensConstraint_attributeLine (c : AttributeLine) : opensConstraint .mysql c.text = false :=
  opensConstraint_columnName c.name _

theorem opensConstraint_optionLine (c : OptionLine) : opensConstraint .mysql c.text = false :=
  c.text_line ▸ opensConstraint_attributeLine c.line

theorem opensConstraint_columnLine (c : ColumnLine) : opensConstraint .mysql c.text = false :=
  c.free_text ▸ c.free.text_line ▸ opensConstraint_optionLine c.free.line

theorem bodyParts_of_split {body : Text} (l : Line) (h : splitDefinitions body = [l.text.trim]) :
    bodyColumns body = l.columns ∧ bodyConstraints body = l.constraints := by
  cases l with
  | column line =>
      have htrim : Trimmed line.text :=
        line.endsSolid_text.trimmed fun c hc => Option.some.inj hc ▸ by decide
      rw [Line.text, htrim.trim_eq] at h
      have hparts := bodyParts_column h (opensConstraint_columnLine line)
      rw [line.parseColumn?_text] at hparts
      exact hparts
  | key line =>
      rw [Line.text] at h
      have hparts := bodyParts_constraint h line.opensConstraint_text
      rw [line.parse?_text] at hparts
      exact hparts

theorem bodyParts_line (hpad : ∀ c ∈ pad, isBlank c) (l : Line) :
    bodyColumns (pad ++ l.text) = l.columns ∧ bodyConstraints (pad ++ l.text) = l.constraints :=
  bodyParts_of_split l (splitDefinitions_line hpad l.isLine)

theorem bodyParts_inert {body : Text} (opening : InertOpening) (rest : Text)
    (h : splitDefinitions body = [Text.trim (spacedWords opening.words ++ ' ' :: rest)]) :
    bodyColumns body = [] ∧ bodyConstraints body = [] := by
  have hparts := bodyParts_constraint h (opensConstraint_inert opening rest)
  rw [parse?_inert_trim] at hparts
  exact hparts

/-- An inert line declares nothing, even where a comma at its end leaves an empty definition. -/
theorem bodyParts_lastInert (hpad : ∀ c ∈ pad, isBlank c) (opening : InertOpening) {rest : Text}
    (hrest : ∀ c ∈ rest, c ≠ '\n' ∧ c ≠ '\r') :
    bodyColumns (pad ++ ((spacedWords opening.words ++ ' ' :: rest) ++ ['\n'])) = [] ∧
      bodyConstraints (pad ++ ((spacedWords opening.words ++ ' ' :: rest) ++ ['\n'])) = [] := by
  have hline : ∀ r : Text, (∀ c ∈ r, c ≠ '\n' ∧ c ≠ '\r') →
      IsLine (spacedWords opening.words ++ ' ' :: r) :=
    fun r hr => isLine_inert opening fun h => (hr _ h).1 rfl
  by_cases hcomma : rest.getLast? = some ','
  · obtain ⟨r, rfl⟩ := List.getLast?_eq_some_iff.mp hcomma
    have hr : ∀ c ∈ r, c ≠ '\n' ∧ c ≠ '\r' := fun c hc => hrest c (List.mem_append_left _ hc)
    have hsplit : pad ++ ((spacedWords opening.words ++ ' ' :: (r ++ [','])) ++ ['\n']) =
        (pad ++ (spacedWords opening.words ++ ' ' :: r)) ++ ',' :: '\n' :: [] := by simp
    obtain ⟨hcolumns, hconstraints⟩ :=
      bodyParts_inert opening r (splitDefinitions_line hpad (hline r hr))
    rw [hsplit, bodyColumns_append, bodyConstraints_append, hcolumns, hconstraints]
    exact ⟨rfl, rfl⟩
  · apply bodyParts_inert opening rest
    apply splitDefinitions_lastLine hpad (hline rest hrest)
    intro c hc
    cases hlast : rest.getLast? with
    | none =>
        rw [List.getLast?_eq_none_iff.mp hlast, List.getLast?_concat] at hc
        rw [← Option.some.inj hc]
        decide
    | some d =>
        rw [List.getLast?_append, List.getLast?_cons, hlast] at hc
        obtain rfl := Option.some.inj hc
        refine ⟨?_, (hrest d (List.mem_of_getLast? hlast)).2⟩
        rintro rfl
        exact hcomma hlast

theorem bodyParts_lastLine (hpad : ∀ c ∈ pad, isBlank c) (l : Line) :
    bodyColumns (pad ++ (l.text ++ ['\n'])) = l.columns ∧
      bodyConstraints (pad ++ (l.text ++ ['\n'])) = l.constraints := by
  have hsolid : EndsSolid l.text → splitDefinitions (pad ++ (l.text ++ ['\n'])) = [l.text.trim] := by
    intro hend
    refine splitDefinitions_lastLine hpad l.isLine fun c hc => ⟨(hend c hc).2, ?_⟩
    rintro rfl
    exact absurd (hend _ hc).1 (by decide)
  cases l with
  | column line => exact bodyParts_of_split _ (hsolid line.endsSolid_text)
  | key line =>
      cases line with
      | primaryKey spaced columns hne => exact bodyParts_of_split _ (hsolid endsSolid_primaryKeyText)
      | foreignKey key =>
          exact bodyParts_of_split _ (hsolid (endsSolid_foreignKeyText.append
            (endsSolid_actionText key.actions)))
      | inert opening rest hchars hengine =>
          exact bodyParts_lastInert hpad opening fun c hc => (hchars c hc).2

theorem bodyParts_joinLines (first indent : Indent) {lines : List Line} (hne : lines ≠ []) :
    bodyColumns (first.text ++ (TableStatement.joinLines indent.text (lines.map (·.text)) ++ ['\n'])) =
        lines.flatMap (·.columns) ∧
      bodyConstraints (first.text ++
          (TableStatement.joinLines indent.text (lines.map (·.text)) ++ ['\n'])) =
        lines.flatMap (·.constraints) := by
  induction lines generalizing first with
  | nil => exact absurd rfl hne
  | cons l lines ih =>
      cases lines with
      | nil => simpa [TableStatement.joinLines] using bodyParts_lastLine first.blank l
      | cons next lines =>
          have hline := bodyParts_line first.blank l
          have hrest := ih indent (List.cons_ne_nil next lines)
          have hsplit : first.text ++ (TableStatement.joinLines indent.text
              ((l :: next :: lines).map (·.text)) ++ ['\n']) = (first.text ++ l.text) ++ ',' :: '\n' ::
                (indent.text ++ (TableStatement.joinLines indent.text
                  ((next :: lines).map (·.text)) ++ ['\n'])) := by
            simp [TableStatement.joinLines]
          rw [hsplit, bodyColumns_append, bodyConstraints_append, hline.1, hline.2, hrest.1, hrest.2]
          exact ⟨rfl, rfl⟩

namespace TableStatement

variable (t : TableStatement)

theorem bodyParts_body :
    bodyColumns t.body = t.columns.map (·.column) ∧
      bodyConstraints t.body = t.keys.flatMap (·.constraint?.toList) := by
  have hne : t.lineList ≠ [] := by simp [lineList, t.nonempty]
  have hcolumns : t.lineList.flatMap (·.columns) = t.columns.map (·.column) := by
    simp only [lineList, List.flatMap_append, List.flatMap_map, Line.columns]
    rw [← List.map_eq_flatMap]
    simp
  have hconstraints : t.lineList.flatMap (·.constraints) = t.keys.flatMap (·.constraint?.toList) := by
    simp [lineList, List.flatMap_append, List.flatMap_map, Line.constraints]
  rw [← hcolumns, ← hconstraints, body, ← lineList_text]
  exact bodyParts_joinLines t.first t.indent hne

/-- The definitions of a body make up the table that its statement creates. -/
theorem table_eq :
    Table.ofDefinition t.name.string (bodyColumns t.body) (bodyConstraints t.body) = t.table := by
  have hnames : ((t.columns.map (·.column)).map (·.name)).Nodup := by
    rw [List.map_map]
    exact t.distinct
  have hprimary : (t.keys.flatMap (·.constraint?.toList)).flatMap (·.primaryColumns) =
      t.keys.flatMap (·.primaryColumns) := by
    simp only [List.flatMap_assoc, KeyLine.primaryColumns_constraint?]
  have hforeign : (t.keys.flatMap (·.constraint?.toList)).flatMap (·.foreignKeys) =
      t.keys.flatMap (·.foreignKeys) := by
    simp only [List.flatMap_assoc, KeyLine.foreignKeys_constraint?]
  obtain ⟨hcolumns, hconstraints⟩ := t.bodyParts_body
  rw [hcolumns, hconstraints, Table.ofDefinition, mapFirst_of_nodup hnames, List.map_map, table]
  congr 1
  apply List.map_congr_left
  intro c _
  simp only [Function.comp_apply, Column.under, ColumnLine.column, hprimary, hforeign, Bool.false_or,
    Option.or_none]

end TableStatement

end SchemaDump.MySQL
