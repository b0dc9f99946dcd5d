import SchemaDump.Proofs.PostgreSQL.ColumnLine
import SchemaDump.Proofs.PostgreSQL.Table
/- The body of a table falls apart into its lines, and each line gives back the column or the key it
was written for. -/
namespace SchemaDump.PostgreSQL
open SqlPattern Pattern

variable {pad : Text}

/-- A line of a body. -/
inductive Line
  | column (line : ColumnLine)
  | key (clause : KeyClause)

namespace Line

def text : Line → Text
  | column line => line.text
  | key clause => clause.text

def columns : Line → List Column
  | column line => if line.opensExclusion then [] else [line.definition.under line.constraints]
  | key _ => []

def constraints : Line → List Constraint
  | column _ => []
  | key clause => [clause.constraint]

end Line

theorem unbroken_suffix (s : Suffix) : Unbroken s.text := by
  intro c hc
  rcases s.chars c hc with h | rfl
  · exact unbroken_wordChar h
  · decide

theorem unbroken_namedText (name : Option Name) : Unbroken (namedText (name.map (·.text))) := by
  cases name with
  | none => decide
  | some n =>
      have hkeyword : Unbroken "CONSTRAINT".toList := by decide
      exact hkeyword.append (.cons (by decide) ((unbroken_name n).append (by decide)))

theorem unbroken_nameList (spaced : Bool) (names : List Name) :
    Unbroken (KeyClause.nameList spaced names) := by
  apply unbroken_commaJoin
  intro item hitem
  obtain ⟨n, -, rfl⟩ := List.mem_map.mp hitem
  exact unbroken_name n

theorem unbroken_keyText (k : KeyClause) : Unbroken k.keyText := by
  have hname := unbroken_namedText k.constraintName
  have hlist := unbroken_nameList
  rw [KeyClause.keyText]
  cases k.key with
  | primaryKey spaced columns _ =>
      have hwords : Unbroken (spacedWords ["PRIMARY", "KEY"]) := by decide
      exact hname.append (hwords.append (.cons (by decide) (.cons (by decide)
        ((hlist spaced columns).append (by decide)))))
  | foreignKey spaced columns _ table space references _ suffix =>
      have hwords : Unbroken (spacedWords ["FOREIGN", "KEY"]) := by decide
      have hreferences : Unbroken "REFERENCES".toList := by decide
      have hspace : Unbroken (KeyClause.spaceText space) := by cases space <;> decide
      exact hname.append (hwords.append (.cons (by decide) (.cons (by decide)
        ((hlist spaced columns).append (.cons (by decide) (.cons (by decide)
          (hreferences.append (.cons (by decide) ((unbroken_target table).append (hspace.append
            (.cons (by decide) ((hlist spaced references).append (by decide)))))))))))))

theorem unbroken_keyClause (k : KeyClause) : Unbroken k.text := by
  refine (unbroken_keyText k).append ?_
  rw [KeyClause.suffixText]
  cases k.key with
  | primaryKey => exact (by decide : Unbroken [])
  | foreignKey spaced columns _ table space references _ suffix => exact unbroken_suffix suffix

theorem endsSolid_keyClause (k : KeyClause) : EndsSolid k.text := by
  rw [KeyClause.text, KeyClause.keyText, KeyClause.suffixText]
  cases k.key with
  | primaryKey spaced columns _ =>
      rw [List.append_nil]
      exact endsSolid_primaryKeyText
  | foreignKey spaced columns _ table space references _ suffix =>
      exact endsSolid_foreignKeyText.append suffix.solid

theorem isLine_keyClause (k : KeyClause) : IsLine k.text := by
  refine ⟨fun h => (unbroken_keyClause k _ h).2 rfl, ?_⟩
  rw [KeyClause.text, KeyClause.keyText]
  cases k.constraintName with
  | none =>
      cases k.key with
      | primaryKey => exact ⟨'P', _, rfl, by decide, by decide⟩
      | foreignKey => exact ⟨'F', _, rfl, by decide, by decide⟩
  | some n =>
      cases k.key with
      | primaryKey => exact ⟨'C', _, rfl, by decide, by decide⟩
      | foreignKey => exact ⟨'C', _, rfl, by decide, by decide⟩

namespace Line

theorem unbroken (l : Line) : Unbroken l.text := by
  cases l with
  | column line => exact line.unbroken_text
  | key clause => exact unbroken_keyClause clause

theorem endsSolid (l : Line) : EndsSolid l.text := by
  cases l with
  | column line => exact line.endsSolid_text
  | key clause => exact endsSolid_keyClause clause

theorem trimmed (l : Line) : Trimmed l.text := by
  cases l with
  | column line => exact line.trimmed_text
  | key clause => exact clause.trimmed_text

theorem isLine (l : Line) : IsLine l.text := by
  cases l with
  | column line => exact line.isLine_text
  | key clause => exact isLine_keyClause clause

end Line

theorem bodyColumns_append (a b : Text) :
    bodyColumns (a ++ ',' :: '\n' :: b) = bodyColumns a ++ bodyColumns b := by
  simp only [bodyColumns, splitDefinitions_append, List.filter_append, List.filterMap_append]

theorem bodyConstraints_append (a b : Text) :
    bodyConstraints (a ++ ',' :: '\n' :: b) = bodyConstraints a ++ bodyConstraints b := by
  simp only [bodyConstraints, splitDefinitions_append, List.filter_append, List.filterMap_append]

/-- A body of one definition declares a constraint or a column. -/
theorem bodyParts_of_singleton {body fragment : Text} (h : splitDefinitions body = [fragment]) :
    bodyColumns body =
        (if opensConstraint .postgresql fragment then [] else (parseColumn? fragment).toList) ∧
      bodyConstraints body =
        (if opensConstraint .postgresql fragment then
          (Constraint.parse? .postgresql fragment).toList else []) := by
  have hlist : ∀ {α : Type} (f : Text → Option α), [fragment].filterMap f = (f fragment).toList := by
    intro α f
    cases hf : f fragment <;> simp [hf]
  rw [bodyColumns, bodyConstraints, h]
  cases hopens : opensConstraint .postgresql fragment with
  | true => simp [hopens, hlist]
  | false => simp [hopens, hlist]

theorem bodyParts_of_split {body : Text} (l : Line) (h : splitDefinitions body = [l.text.trim]) :
    bodyColumns body = l.columns ∧ bodyConstraints body = l.constraints := by
  rw [l.trimmed.trim_eq] at h
  obtain ⟨hcolumns, hconstraints⟩ := bodyParts_of_singleton h
  rw [hcolumns, hconstraints]
  cases l with
  | key clause =>
      simp only [Line.text, clause.opensConstraint_text, clause.parse?_text, if_true]
      exact ⟨rfl, rfl⟩
  | column line =>
      simp only [Line.text, opensConstraint_column, Line.columns, Line.constraints,
        line.parseColumn?_text]
      cases hopens : line.opensExclusion with
      | false => exact ⟨rfl, rfl⟩
      | true =>
          have hnone := (parse?_exclusion (c := line.free) hopens).2
          rw [line.free_text] at hnone
          rw [hnone]
          exact ⟨rfl, rfl⟩

theorem bodyParts_line (hpad : ∀ c ∈ pad, isBlank c) (l : Line) :
    bodyColumns (pad ++ l.text) = l.columns ∧ bodyConstraints (pad ++ l.text) = l.constraints :=
  bodyParts_of_split l (splitDefinitions_line hpad l.isLine)

theorem bodyParts_lastLine (hpad : ∀ c ∈ pad, isBlank c) (l : Line) :
    bodyColumns (pad ++ (l.text ++ ['\n'])) = l.columns ∧
      bodyConstraints (pad ++ (l.text ++ ['\n'])) = l.constraints := by
  refine bodyParts_of_split l (splitDefinitions_lastLine hpad l.isLine fun c hc => ?_)
  obtain ⟨hblank, hcomma⟩ := l.endsSolid c hc
  refine ⟨hcomma, ?_⟩
  rintro rfl
  exact absurd hblank (by decide)

theorem bodyParts_joinLines (first indent : Indent) {lines : List Line} (hne : lines ≠ []) :
    bodyColumns (first.text ++ (TableStatement.joinLines indent.text (lines.map (·.text)) ++ ['\n'])) =
        lines.flatMap (·.columns) ∧
      bodyConstraints (first.text ++
          (TableStatement.joinLines indent.text (lines.map (·.text)) ++ ['\n'])) =
        lines.flatMap (·.constraints) := by
  induction lines generalizing first with
  | nil => exact absurd rfl hne
  | cons l lines ih =>
      cases lines with
      | nil => simpa [TableStatement.joinLines] using bodyParts_lastLine first.blank l
      | cons next lines =>
          have hline := bodyParts_line first.blank l
          have hrest := ih indent (List.cons_ne_nil next lines)
          have hsplit : first.text ++ (TableStatement.joinLines indent.text
              ((l :: next :: lines).map (·.text)) ++ ['\n']) = (first.text ++ l.text) ++ ',' :: '\n' ::
                (indent.text ++ (TableStatement.joinLines indent.text
                  ((next :: lines).map (·.text)) ++ ['\n'])) := by
            simp [TableStatement.joinLines]
          rw [hsplit, bodyColumns_append, bodyConstraints_append, hline.1, hline.2, hrest.1, hrest.2]
          exact ⟨rfl, rfl⟩

namespace TableStatement

variable (t : TableStatement)

def lines : List Line := t.columns.map Line.column ++ t.clauses.map Line.key

theorem lines_text :
    t.lines.map (·.text) = t.columns.map (·.text) ++ t.clauses.map (·.text) := by
  simp only [lines, List.map_append, List.map_map]
  rfl

/-- The columns that are not taken for constraints because of their names. -/
def readColumns : List ColumnLine := t.columns.filter fun c => !c.opensExclusion

/-- The table of a statement as far as it is read, as long as no key takes its columns. -/
def readDefinition : Table := ⟨t.target.name.string, t.readColumns.map (·.definition)⟩

theorem bodyParts_body :
    bodyColumns t.body = t.readColumns.map (fun c => c.definition.under c.constraints) ∧
      bodyConstraints t.body = t.clauses.map (·.constraint) := by
  have hne : t.lines ≠ [] := by simp [lines, t.nonempty]
  have hcolumn : ∀ columns : List ColumnLine, columns.flatMap (fun c => (Line.column c).columns) =
      (columns.filter fun c => !c.opensExclusion).map fun c => c.definition.under c.constraints := by
    intro columns
    induction columns with
    | nil => rfl
    | cons c columns ih =>
        rw [List.flatMap_cons, ih, Line.columns]
        cases hopens : c.opensExclusion <;> simp [hopens]
  have hcolumns : t.lines.flatMap (·.columns) =
      t.readColumns.map fun c => c.definition.under c.constraints := by
    simp only [lines, List.flatMap_append, List.flatMap_map, hcolumn]
    simp [Line.columns, readColumns]
  have hconstraints : t.lines.flatMap (·.constraints) = t.clauses.map (·.constraint) := by
    simp only [lines, List.flatMap_append, List.flatMap_map, Line.constraints]
    simp [← List.map_eq_flatMap]
  rw [← hcolumns, ← hconstraints, body, ← lines_text]
  exact bodyParts_joinLines t.first t.indent hne

end TableStatement

end SchemaDump.PostgreSQL
