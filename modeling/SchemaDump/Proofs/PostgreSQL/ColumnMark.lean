import SchemaDump.Proofs.Definition.Marker
import SchemaDump.Proofs.PostgreSQL.ColumnDefinition
/- The marks of a column are found behind its type and told apart. A marker opens with its own word,
so it is neither read within a type nor within a mark of another kind. -/
namespace SchemaDump.PostgreSQL
open SqlPattern Pattern

variable {before : Option Char} {p q : SqlPattern} {t u v w : Text} {ps : List (Part × Text)}

namespace MarkKind

/-- The pattern that finds the marks of a kind. -/
def marker : MarkKind → SqlPattern
  | notNull => notNullMarker
  | primaryKey => primaryKeyMarker
  | reference => referenceMarker

def words : MarkKind → List String
  | notNull => ["NOT"]
  | primaryKey => ["CONSTRAINT", "PRIMARY"]
  | reference => ["CONSTRAINT", "REFERENCES"]

theorem consumes_marker (k : MarkKind) : k.marker.Consumes := by
  cases k <;> exact consumes_of_not_nullable rfl

end MarkKind

theorem opensWith_marker (k : MarkKind) : OpensWith k.words BlankAhead k.marker := by
  cases k with
  | notNull => exact opensWith_notNullMarker
  | primaryKey => exact opensWith_primaryKeyMarker
  | reference => exact opensWith_referenceMarker

theorem reserved_words (k : MarkKind) : ∀ word ∈ k.words, word ∈ reservedWords := by
  cases k <;> decide

theorem lettered_words (k : MarkKind) : Lettered k.words := by
  cases k <;> decide

theorem silent_marker_type (k : MarkKind) (type : ColumnType) (hv : Stops isWordChar v) :
    k.marker.Silent before type.text v :=
  (SilentInTypes.of_opensWith (opensWith_marker k) (reserved_words k)).type type trivial hv

theorem silent_nullMarker_type (type : ColumnType) : nullMarker.Silent before type.text [] :=
  (SilentInTypes.of_opensWith opensWith_nullMarker (by decide)).type type trivial (stops_nil _)

theorem not_blankAhead_cons {c : Char} (h : isBlank c = false) : ¬BlankAhead (c :: t) :=
  fun hblank => hblank (stops_cons.mpr h)

theorem silent_marker_target (k : MarkKind) (qualified : Bool) (table : Word) :
    k.marker.Silent before (' ' :: (Target.mk qualified (.bare table)).text) ('(' :: v) := by
  have hopens := opensWith_marker k
  have htable : ∀ before, k.marker.Silent before table.text ('(' :: v) := fun before =>
    hopens.silent_word table.chars (stops_cons.mpr (by decide)) (.inr (not_blankAhead_cons (by decide)))
  cases qualified with
  | false =>
      exact hopens.silent_blank_word table.chars table.nonempty (stops_cons.mpr (by decide))
        (.inr (not_blankAhead_cons (by decide)))
  | true =>
      have hschema : k.marker.Silent before (' ' :: "public".toList)
          (['.'] ++ table.text ++ '(' :: v) :=
        hopens.silent_blank_word (by decide) (by decide) (stops_cons.mpr (by decide))
          (.inr (not_blankAhead_cons (by decide)))
      have hdot : ∀ before, k.marker.Silent before ['.'] (table.text ++ '(' :: v) := fun before =>
        hopens.silent_marks (lettered_words k) (by decide)
      exact hschema.append ((hdot _).append (htable _))

theorem silent_marker_mark {k : MarkKind} {m : Mark} (hm : m.kind ≠ k) (hv : Stops isWordChar v) :
    k.marker.Silent before m.text v := by
  have hopens := opensWith_marker k
  have hblank : ∀ {t : Text}, Stops isWordChar (' ' :: t) := stops_cons.mpr (by decide)
  cases m with
  | notNull =>
      have hwords : ∀ word ∈ k.words, spells sameLetter word.toList "NOT".toList = false ∧
          spells sameLetter word.toList "NULL".toList = false := by
        cases k with
        | notNull => exact absurd rfl hm
        | primaryKey => decide
        | reference => decide
      have hfirst : k.marker.Silent before (' ' :: "NOT".toList) (' ' :: "NULL".toList ++ v) :=
        hopens.silent_blank_word (by decide) (by decide) hblank (.inl fun word h => (hwords word h).1)
      exact hfirst.append (hopens.silent_blank_word (w := "NULL".toList) (by decide) (by decide) hv
        (.inl fun word h => (hwords word h).2))
  | primaryKey =>
      have hwords : ∀ word ∈ k.words, spells sameLetter word.toList "PRIMARY".toList = false ∧
          spells sameLetter word.toList "KEY".toList = false := by
        cases k with
        | primaryKey => exact absurd rfl hm
        | notNull => decide
        | reference => decide
      have hfirst : k.marker.Silent before (' ' :: "PRIMARY".toList) (' ' :: "KEY".toList ++ v) :=
        hopens.silent_blank_word (by decide) (by decide) hblank (.inl fun word h => (hwords word h).1)
      exact hfirst.append (hopens.silent_blank_word (w := "KEY".toList) (by decide) (by decide) hv
        (.inl fun word h => (hwords word h).2))
  | references qualified table column =>
      have hwords : ∀ word ∈ k.words, spells sameLetter word.toList "REFERENCES".toList = false := by
        cases k with
        | reference => exact absurd rfl hm
        | notNull => decide
        | primaryKey => decide
      have hfirst : k.marker.Silent before (' ' :: "REFERENCES".toList)
          (' ' :: ((Target.mk qualified (.bare table)).text ++ '(' :: (column.text ++ [')'])) ++ v) :=
        hopens.silent_blank_word (by decide) (by decide) hblank (.inl hwords)
      have htarget : ∀ before, k.marker.Silent before
          (' ' :: (Target.mk qualified (.bare table)).text) ('(' :: (column.text ++ [')']) ++ v) :=
        fun before => silent_marker_target k qualified table
      have hmark : ∀ before (c : Char) w, isBlank c = false ∧ (isWordChar c = false ∨ c.isDigit) →
          k.marker.Silent before [c] w := fun before c w hc =>
        hopens.silent_marks (lettered_words k) fun d hd => List.mem_singleton.mp hd ▸ hc
      have hcolumn : ∀ before, k.marker.Silent before column.text (')' :: v) := fun before =>
        hopens.silent_word column.chars (stops_cons.mpr (by decide))
          (.inr (not_blankAhead_cons (by decide)))
      have hlist : ∀ before, k.marker.Silent before ('(' :: (column.text ++ [')'])) v := fun before =>
        (hmark before '(' (column.text ++ [')'] ++ v) (by decide)).append (w := column.text ++ [')'])
          (Silent.append (by simpa using hcolumn _) (hmark _ ')' v (by decide)))
      have hall := hfirst.append ((htarget _).append (hlist _))
      exact hall

theorem silent_marker_marks {k : MarkKind} {marks : List Mark} (hmarks : ∀ m ∈ marks, m.kind ≠ k)
    (hv : Stops isWordChar v) : k.marker.Silent before (ColumnLine.markText marks) v := by
  induction marks generalizing before with
  | nil => exact silent_nil v
  | cons m marks ih =>
      have hmark : k.marker.Silent before m.text (ColumnLine.markText marks ++ v) :=
        silent_marker_mark (hmarks m List.mem_cons_self) (stops_markText marks hv)
      exact hmark.append (ih fun n hn => hmarks n (List.mem_cons_of_mem m hn))

def Mark.parts : Mark → List (Part × Text)
  | .references qualified table column =>
      [(.columns, column.text), (.table, (Target.mk qualified (.bare table)).text)]
  | _ => []

theorem rejects_markText {word : String} (h : ∀ next ∈ ["NOT", "PRIMARY", "REFERENCES"],
    clashes word.toList next.toList) (q : SqlPattern) (marks : List Mark) :
    (blanks ++ (keyword word ++ q)).Rejects (ColumnLine.markText marks) := by
  have hword : ∀ next ∈ ["NOT", "PRIMARY", "REFERENCES"], ∀ t, Stops isBlank (next.toList ++ t) →
      (blanks ++ (keyword word ++ q)).Rejects (' ' :: (next.toList ++ t)) := fun next hnext t ht =>
    .blanks ht ((Rejects.of_clash (h next hnext) t).seq q)
  cases marks with
  | nil => exact rejects_blanks (stops_nil _)
  | cons m marks =>
      cases m with
      | notNull => exact hword "NOT" (by simp) _ (stops_cons.mpr (by decide))
      | primaryKey => exact hword "PRIMARY" (by simp) _ (stops_cons.mpr (by decide))
      | references qualified table column =>
          have htext : ColumnLine.markText (.references qualified table column :: marks) =
              ' ' :: ("REFERENCES".toList ++ (' ' :: ((Target.mk qualified (.bare table)).text ++
                '(' :: (column.text ++ [')'])) ++ ColumnLine.markText marks)) := by
            simp [ColumnLine.markText, Mark.text]
          rw [htext]
          exact hword "REFERENCES" (by simp) _ (stops_cons.mpr (by decide))

/-- What may be said behind a reference is not said by the marks of a column. -/
theorem reads_referenceEnd (marks : List Mark) :
    (maybe (blanks ++ keyword "MATCH" ++ blanks ++
      anyOf [keyword "FULL", keyword "PARTIAL", keyword "SIMPLE"]) ++ many referenceAction :
        SqlPattern).Reads [] (ColumnLine.markText marks) [] := by
  have hmatch : (blanks ++ keyword "MATCH" ++ blanks ++
      anyOf [keyword "FULL", keyword "PARTIAL", keyword "SIMPLE"] : SqlPattern).Rejects
        (ColumnLine.markText marks) := by
    simp only [rejects_assoc]
    exact rejects_markText (by decide) _ marks
  have haction : referenceAction.Rejects (ColumnLine.markText marks) := by
    simp only [referenceAction, rejects_assoc]
    exact rejects_markText (by decide) _ marks
  have hmissing : (maybe (blanks ++ keyword "MATCH" ++ blanks ++ anyOf [keyword "FULL",
      keyword "PARTIAL", keyword "SIMPLE"]) : SqlPattern).Reads [] ([] ++ ColumnLine.markText marks) [] :=
    reads_missing hmatch
  have hactions : (many referenceAction).Reads [] (ColumnLine.markText marks) [] :=
    reads_rounds_none (consumes_of_not_nullable rfl) haction
  have hall := hmissing.seq hactions
  exact hall

theorem reads_notNullMark (hv : Stops isWordChar v) : notNullMarker.Reads Mark.notNull.text v [] :=
  reads_notNullMarker (g := [' ']) (by decide) (by decide) hv

theorem reads_primaryKeyMark (hv : Stops isWordChar v) : primaryKeyMarker.Reads Mark.primaryKey.text v [] :=
  reads_primaryKeyMarker (g := [' ']) (by decide) (by decide) hv

theorem reads_marker (m : Mark) (marks : List Mark) :
    m.kind.marker.Reads m.text (ColumnLine.markText marks) m.parts := by
  have hstops : Stops isWordChar (ColumnLine.markText marks) := by
    have h := stops_markText marks (stops_nil isWordChar)
    rwa [List.append_nil] at h
  cases m with
  | notNull => exact reads_notNullMark hstops
  | primaryKey => exact reads_primaryKeyMark hstops
  | references qualified table column =>
      have hblanks : ∀ w, (blanks : SqlPattern).Reads [' ']
          (((Target.mk qualified (.bare table)).text ++ w) ++ ColumnLine.markText marks) [] := by
        intro w
        apply reads_blanks
        intro c hc
        obtain ⟨d, rest, hd⟩ := List.exists_cons_of_ne_nil (target_ne_nil qualified table)
        rw [hd] at hc
        exact solid_target qualified table c (by rw [hd, ← Option.some.inj hc]; exact List.mem_cons_self)
      have htarget : ∀ w, SqlPattern.qualified.Reads (Target.mk qualified (.bare table)).text
          ('(' :: w) [] :=
        fun w => (Target.mk qualified (.bare table)).isQualified _ (stops_cons.mpr (by decide))
          (stops_cons.mpr (by decide))
      have hgap : ∀ w, (gap : SqlPattern).Reads [] ('(' :: w) [] :=
        fun w => reads_no_gap (stops_cons.mpr (by decide))
      have hcolumns : ∀ w, (run (· != ')') .longest : SqlPattern).Reads column.text (')' :: w) [] :=
        fun w => reads_run (fun c hc => bne_iff_ne.mpr (ne_of_isWordChar (by decide) (column.chars c hc)))
          (stops_cons.mpr (by decide))
      have hend := (reads_literal ")" _).seq (reads_referenceEnd marks)
      have hlist := ((hcolumns _).part Part.columns).seq hend
      have hopen := (hgap _).seq ((reads_literal "(" _).seq hlist)
      have htable := ((htarget _).part Part.table).seq hopen
      have hall := (reads_keyword "REFERENCES" _).seq ((hblanks _).seq htable)
      have hkeyword := reads_unnamed (g := [' ']) (u := "EFERENCES".toList ++ ' ' ::
        ((Target.mk qualified (.bare table)).text ++ '(' :: (column.text ++ [')']))) (c := 'R')
        (by decide) (by decide) (by decide) (by decide) hall
      simp only [Mark.kind, MarkKind.marker, referenceMarker, reads_assoc]
      exact hkeyword

end SchemaDump.PostgreSQL
