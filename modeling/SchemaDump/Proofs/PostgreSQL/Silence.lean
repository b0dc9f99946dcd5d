import SchemaDump.Proofs.Pattern.Seam
import SchemaDump.Proofs.PostgreSQL.Creation
import SchemaDump.Proofs.PostgreSQL.Opening
/- Statements are read where they stand only: neither the text between statements nor a statement of
the other form contains the opening of one. -/
namespace SchemaDump.PostgreSQL
open SqlPattern Pattern

variable {before : Option Char} {p : SqlPattern} {u v : Text}

/-- What may stand behind a text between statements: nothing, or a statement. -/
def StatementAhead (v : Text) : Prop :=
  v = [] ∨ ∃ word ∈ ["CREATE", "ALTER"], ∃ (k : KeywordText word) (w : Text), v = k.text ++ w

namespace StatementAhead

theorem stops (h : StatementAhead v) : Stops isBlank v := by
  rcases h with rfl | ⟨word, hword, k, w, rfl⟩
  · exact stops_nil _
  · simp only [List.mem_cons, List.not_mem_nil, or_false] at hword
    rcases hword with rfl | rfl <;> exact k.stops_blank rfl (by decide) w

/-- A statement starts with none of the words that go on with the opening of one. -/
theorem rejects (h : StatementAhead v) {next : String} (hnext : next ∈ Form.nextWords) :
    (keyword next : SqlPattern).Rejects v := by
  have hclash : ∀ next ∈ Form.nextWords, (∀ c ∈ next.toList, c.isAlpha) ∧ (keyword next : SqlPattern).nullable = false ∧
      ∀ word ∈ ["CREATE", "ALTER"], (∀ c ∈ word.toList, c.isAlpha) ∧ clashes next.toList word.toList := by decide
  obtain ⟨hletters, hnull, hwords⟩ := hclash next hnext
  rcases h with rfl | ⟨word, hword, k, w, rfl⟩
  · exact .of_starts hnull (stops_nil _)
  · exact k.rejects hletters (hwords word hword).1 (hwords word hword).2 w

end StatementAhead

namespace Form.Opens

theorem confined_rest (f : Form) (filler : Filler) (hv : StatementAhead v) :
    f.rest.Confined filler.text v := by
  have hletters : ∀ next ∈ nextWords, ∀ c ∈ next.toList, c.isAlpha := by decide
  have hblanks : (blanks : SqlPattern).Confined filler.text v := confined_run1 hv.stops
  have hkeyword : ∀ next ∈ nextWords, (keyword next : SqlPattern).Confined filler.text v := fun next h =>
    confined_keyword (hletters next h) filler.detached (hv.rejects h)
  have htable := (hkeyword "TABLE" (by decide)).seq hblanks
  cases f with
  | alteration => exact htable
  | creation =>
      have hkind : tableKind.Confined filler.text v :=
        Confined.seq ((hkeyword "UNLOGGED" (by decide)).alt ((hkeyword "TEMPORARY" (by decide)).alt
          (hkeyword "TEMP" (by decide)))) hblanks
      exact hkind.maybe.seq htable

theorem silent_filler {f : Form} (h : f.Opens p) (filler : Filler) (hv : StatementAhead v) :
    p.Silent before filler.text v := by
  have hblanks : (blanks : SqlPattern).Confined filler.text v := confined_run1 hv.stops
  have hstays : f.opening.StaysWithin filler.text v :=
    (staysWithin_keyword f.letters filler.detached).seq (hblanks.seq (confined_rest f filler hv))
  apply h.silent_of_opening
  cases f with
  | creation => exact hstays.silent rfl filler.noCreation
  | alteration => exact hstays.silent rfl filler.noAlteration

end Form.Opens

namespace Form.Heads

theorem silentInTypes (h : alteration.Heads p) :
    SilentInTypes p (fun _ => True) alteration.Apart where
  startsBlank := trivial
  startsColon := trivial
  word w _ _ _ hv := h.silent_word w.chars hv
  extent e _ _ _ := h.silent_marks fun c hc => (Extent.mem_text hc).symm.imp_left fun hmark => by
    have hmarks : ∀ c ∈ extentMarks, isWordChar c = false := by decide
    exact hmarks c hmark
  blank w v _ := h.rejects_cons (.inl (by decide)) _
  colon v := h.rejects_cons (.inl (by decide)) v
  followsExtent e v hv := by
    cases htext : e.text with
    | nil => exact hv
    | cons c rest =>
        have hstops := e.stops (stops_nil _)
        rw [List.append_nil, htext, stops_cons] at hstops
        exact apart_cons (Extent.isBlank_eq_false (by rw [htext]; exact List.mem_cons_self)) hstops _
  followsWord w v hv := by
    refine ⟨stops_cons.mpr (by decide), .blanks (w.stops (fun _ => isBlank_eq_false_of_isWordChar) v) ?_⟩
    exact w.rejects_keyword (by decide) endsWord_blanks hv.stops
  followsColon v := apart_cons (by decide) (by decide) v

theorem silent_quoted (h : alteration.Heads p) {l : Content} (hl : alterOpening.occursIn l.text = false) :
    p.Silent before l.quoted v := by
  have hquote : ∀ before w, p.Silent before ['\''] w := fun before w => h.silent_marks (by decide)
  have hstays : alteration.opening.StaysWithin l.text ('\'' :: v) := staysWithin_of_not_mentioned rfl
  have htext : ∀ before, p.Silent before l.text ('\'' :: v) := fun before =>
    h.silent_of_opening (hstays.silent rfl hl)
  exact (hquote before (l.text ++ ['\''] ++ v)).append (w := l.text ++ ['\''])
    ((htext _).append (hquote _ v))

theorem silent_default (h : alteration.Heads p) {d : FreeDefault}
    (hd : alterOpening.occursIn d.content.text = false) (hv : alteration.Apart v) : p.Silent before d.text v :=
  (h.silent_quoted hd).append (h.silentInTypes.casts d.casts _ hv)

theorem silent_mark (h : alteration.Heads p) (m : Mark) (hv : Stops isWordChar v) :
    p.Silent before m.text v := by
  cases m with
  | notNull => exact h.silent_fixed (by decide) (.inl hv)
  | primaryKey => exact h.silent_fixed (by decide) (.inl hv)
  | references qualified table column =>
      have hkeyword : p.Silent before (' ' :: ("REFERENCES".toList ++ [' ']))
          ((Target.mk qualified (.bare table)).text ++ '(' :: (column.text ++ [')']) ++ v) :=
        h.silent_fixed (by decide) (.inr (by decide))
      have htable : ∀ before, p.Silent before (Target.mk qualified (.bare table)).text
          ('(' :: (column.text ++ [')']) ++ v) := fun before =>
        h.silent_of_name _ fun _ => h.silent_word table.chars (apart_cons (by decide) (by decide) _)
      have hmark : ∀ before (c : Char) w, isWordChar c = false → p.Silent before [c] w :=
        fun before c w hc => h.silent_marks fun d hd => .inl (List.mem_singleton.mp hd ▸ hc)
      have hcolumn : ∀ before, p.Silent before (column.text ++ [')']) v := fun before =>
        (h.silent_word column.chars (apart_cons (by decide) (by decide) _)).append
          (hmark _ ')' v (by decide))
      have hlist : ∀ before, p.Silent before ('(' :: (column.text ++ [')'])) v := fun before =>
        (hmark before '(' (column.text ++ [')'] ++ v) (by decide)).append (hcolumn _)
      have hall := hkeyword.append ((htable _).append (hlist _))
      simpa only [Mark.text, List.cons_append, List.append_assoc, List.nil_append] using hall

theorem apart_spaced (word : String) (hword : word ∈ ["PRIMARY", "FOREIGN", "ADD", "NOT",
    "REFERENCES", "DEFAULT"]) (v : Text) : alteration.Apart (' ' :: (word.toList ++ v)) :=
  apart_word hword (g := [' ']) (by decide) (by decide) v

theorem apart_mark_text (m : Mark) (v : Text) : alteration.Apart (m.text ++ v) := by
  cases m with
  | notNull => exact apart_spaced "NOT" (by decide) (' ' :: "NULL".toList ++ v)
  | primaryKey => exact apart_spaced "PRIMARY" (by decide) (' ' :: "KEY".toList ++ v)
  | references qualified table column =>
      have hapart := apart_spaced "REFERENCES" (by decide)
        (' ' :: ((Target.mk qualified (.bare table)).text ++ '(' :: (column.text ++ [')'])) ++ v)
      simpa only [Mark.text, List.cons_append, List.append_assoc] using hapart

theorem apart_markText (marks : List Mark) (hv : alteration.Apart v) :
    alteration.Apart (ColumnLine.markText marks ++ v) := by
  cases marks with
  | nil => exact hv
  | cons m marks =>
      rw [ColumnLine.markText, List.flatMap_cons, List.append_assoc]
      exact apart_mark_text m _

theorem silent_markText (h : alteration.Heads p) (marks : List Mark) (hv : alteration.Apart v) :
    p.Silent before (ColumnLine.markText marks) v := by
  induction marks generalizing before with
  | nil => exact silent_nil v
  | cons m marks ih => exact (h.silent_mark m (apart_markText marks hv).stops).append ih

theorem apart_notNullText (notNull : Bool) (hv : alteration.Apart v) :
    alteration.Apart (ColumnLine.notNullText notNull ++ v) := by
  cases notNull with
  | false => exact hv
  | true => exact apart_mark_text .notNull v

theorem apart_defaultText (default : Option FreeDefault) (hv : alteration.Apart v) :
    alteration.Apart (FreeLine.defaultText default ++ v) := by
  cases default with
  | none => exact hv
  | some d =>
      have hapart := apart_spaced "DEFAULT" (by decide) (' ' :: d.text ++ v)
      simpa only [FreeLine.defaultText, List.cons_append, List.append_assoc] using hapart

theorem silent_defaultText (h : alteration.Heads p) {default : Option FreeDefault}
    (hd : ∀ d ∈ default, alterOpening.occursIn d.content.text = false) (hv : alteration.Apart v) :
    p.Silent before (FreeLine.defaultText default) v := by
  cases default with
  | none => exact silent_nil v
  | some d =>
      have hkeyword : p.Silent before (' ' :: ("DEFAULT".toList ++ [' '])) (d.text ++ v) :=
        h.silent_fixed (by decide) (.inr (by decide))
      have hall := hkeyword.append (h.silent_default (hd d rfl) hv)
      simpa only [FreeLine.defaultText, List.cons_append, List.append_assoc, List.nil_append] using hall

/-- A line holds what its name and the content of its default hold. -/
theorem silent_freeLine (h : alteration.Heads p) {c : FreeLine}
    (hname : ∀ before w, alteration.Apart w → p.Silent before c.name.text w)
    (hc : ∀ d ∈ c.default, alterOpening.occursIn d.content.text = false) (hv : alteration.Apart v) :
    p.Silent before c.text v := by
  have hnull := apart_notNullText c.notNull hv
  have hdefault := apart_defaultText c.default hnull
  have hmarks := apart_markText c.marks hdefault
  have hfollows := h.silentInTypes.followsWord c.type.first.1 _ (h.silentInTypes.followsExtent
    c.type.first.2 _ (h.silentInTypes.follows_more c.type.more hmarks))
  have hend : ∀ before, p.Silent before (ColumnLine.notNullText c.notNull) v := by
    intro before
    cases c.notNull with
    | false => exact silent_nil v
    | true => exact h.silent_mark .notNull hv.stops
  have htype : ∀ before, p.Silent before (c.type.text ++ ColumnLine.markText c.marks)
      (FreeLine.defaultText c.default ++ ColumnLine.notNullText c.notNull ++ v) := by
    intro before
    rw [List.append_assoc (FreeLine.defaultText c.default)]
    exact (h.silentInTypes.type c.type trivial hmarks).append (h.silent_markText c.marks hdefault)
  have hrest : ∀ before, p.Silent before ((c.type.text ++ ColumnLine.markText c.marks) ++
      (FreeLine.defaultText c.default ++ ColumnLine.notNullText c.notNull)) v := fun before =>
    (htype before).append ((h.silent_defaultText hc hnull).append (hend _))
  have hblank : ∀ before w, p.Silent before [' '] w := fun before w => h.silent_marks (by decide)
  have hfirst : p.Silent before c.name.text ([' '] ++ ((c.type.text ++ ColumnLine.markText c.marks) ++
      (FreeLine.defaultText c.default ++ ColumnLine.notNullText c.notNull)) ++ v) := by
    apply hname
    simpa only [ColumnType.text, ColumnType.wordText, List.append_assoc, List.cons_append,
      List.nil_append] using hfollows
  exact hfirst.append ((hblank _ _).append (hrest _))

end Form.Heads

namespace Form.Opens

theorem silent_columnLine (h : alteration.Opens p) (c : ColumnLine) (hv : alteration.Apart v) :
    p.Silent before c.text v := by
  rw [← c.free_text]
  refine h.silent_freeLine (fun _ _ hw => h.silent_name c.name hw) (fun d hd => ?_) hv
  obtain ⟨default, -, rfl⟩ := Option.map_eq_some_iff.mp hd
  exact default.literal.noAlteration

theorem silent_line (h : alteration.Opens p) (l : Line) (hv : alteration.Apart v) :
    p.Silent before l.text v := by
  cases l with
  | column line => exact h.silent_columnLine line hv
  | key clause => exact h.silent_keyClause clause hv.stops

theorem silent_indent {f : Form} (h : f.Opens p) (i : Indent) : p.Silent before i.text v :=
  h.silent_marks fun c hc => .inl (isWordChar_eq_false_of_isBlank (i.blank c hc))

theorem silent_joinLines (h : alteration.Opens p) (indent : Indent) (lines : List Line)
    (hv : alteration.Apart v) :
    p.Silent before (TableStatement.joinLines indent.text (lines.map (·.text))) v := by
  induction lines generalizing before with
  | nil => exact silent_nil v
  | cons l lines ih =>
      cases lines with
      | nil => exact h.silent_line l hv
      | cons next lines =>
          have hbreak : ∀ before w, p.Silent before [',', '\n'] w := fun before w =>
            h.silent_marks (by decide)
          exact (h.silent_line l (apart_cons (by decide) (by decide) _)).append
            ((hbreak _ (indent.text ++ TableStatement.joinLines indent.text
              ((next :: lines).map (·.text)) ++ v)).append ((h.silent_indent indent).append ih))

theorem silent_lines (h : alteration.Opens p) (first indent : Indent) (lines : List Line) (v : Text) :
    p.Silent before
      (first.text ++ (TableStatement.joinLines indent.text (lines.map (·.text)) ++ ['\n'])) (')' :: v) := by
  have hend : alteration.Apart (['\n'] ++ ')' :: v) :=
    apart_mark (by decide) (by decide) (by decide) (by decide) v
  exact (h.silent_indent first).append ((h.silent_joinLines indent lines hend).append
    (h.silent_marks (by decide)))

theorem no_alteration_opening (kind : TableKind) (ifNotExists : Bool) :
    hasSpelling "ALTER" ("CREATE".toList ++ ' ' :: (kind.text ++
        ("TABLE".toList ++ ' ' :: TableStatement.existsText ifNotExists))) = false ∧
      ∀ c ∈ ("CREATE".toList ++ ' ' :: (kind.text ++
        ("TABLE".toList ++ ' ' :: TableStatement.existsText ifNotExists))).getLast?,
        isWordChar c = false := by
  cases kind <;> cases ifNotExists <;> decide

theorem silent_openingText (h : alteration.Opens p) (kind : TableKind) (ifNotExists : Bool)
    (target : Target) : p.Silent before (openingText kind ifNotExists target) v := by
  obtain ⟨hspelling, hlast⟩ := no_alteration_opening kind ifNotExists
  have htarget : ∀ before, p.Silent before target.text (' ' :: '(' :: v) := fun before =>
    h.silent_target target (apart_mark (g := [' ']) (by decide) (by decide) (by decide) (by decide) v)
  have hnamed : ∀ before, p.Silent before (target.text ++ [' ', '(']) v := fun before =>
    (htarget before).append (h.silent_marks (by decide))
  have hopening : ∀ w, p.Silent before ("CREATE".toList ++ ' ' :: (kind.text ++
      ("TABLE".toList ++ ' ' :: TableStatement.existsText ifNotExists))) w :=
    fun w => h.silent_fixed hspelling (.inr hlast)
  have hall := (hopening _).append (hnamed _)
  simpa only [openingText, List.append_assoc, List.cons_append, List.nil_append] using hall

/-- A statement that creates a table alters none, if nothing in its body does. -/
theorem silent_creation (h : alteration.Opens p) (kind : TableKind) (ifNotExists : Bool) (target : Target)
    {body : Text} (hbody : ∀ before, p.Silent before body (')' :: ';' :: v)) :
    p.Silent before (creationText kind ifNotExists target body) v := by
  rw [creationText_eq]
  exact (h.silent_openingText kind ifNotExists target).append ((hbody _).append (h.silent_marks (by decide)))

theorem silent_tableStatement (h : alteration.Opens p) (t : TableStatement) :
    p.Silent before t.text v := by
  rw [t.text_eq, TableStatement.body, ← t.lines_text]
  exact h.silent_creation t.kind t.ifNotExists t.target fun _ => h.silent_lines t.first t.indent t.lines _

end Form.Opens

namespace Alteration

variable (a : Alteration)

def rest : Text :=
  ' ' :: ("TABLE".toList ++ ' ' :: (existsText a.ifExists ++ onlyText a.only)) ++
    (a.target.text ++ (a.space.text ++ ("ADD".toList ++ ' ' :: (a.clause.text ++ [';']))))

theorem text_eq : a.text = "ALTER".toList ++ a.rest := by
  simp only [text, opening, rest, spacedWords, List.append_assoc, List.cons_append, List.nil_append]

theorem no_statement_rest (f : Form) (ifExists only : Bool) :
    hasSpelling f.word (' ' :: ("TABLE".toList ++ ' ' :: (existsText ifExists ++ onlyText only))) =
        false ∧
      ∀ c ∈ (' ' :: ("TABLE".toList ++ ' ' :: (existsText ifExists ++ onlyText only))).getLast?,
        isWordChar c = false := by
  cases f <;> cases ifExists <;> cases only <;> decide

theorem silent_rest {f : Form} (h : f.Opens p) : p.Silent before a.rest v := by
  obtain ⟨hspelling, hlast⟩ := no_statement_rest f a.ifExists a.only
  have hkeyword : hasSpelling f.word "ADD".toList = false := by cases f <;> decide
  have hblank : ∀ before w, p.Silent before [' '] w := fun before w => h.silent_marks (by decide)
  have hclause : ∀ before, p.Silent before (a.clause.text ++ [';']) v := fun before =>
    (h.silent_keyClause a.clause (stops_cons.mpr (by decide))).append (h.silent_marks (by decide))
  have hadd : ∀ before, p.Silent before ("ADD".toList ++ ' ' :: (a.clause.text ++ [';'])) v :=
    fun before => (h.silent_fixed hkeyword (.inl (stops_cons.mpr (by decide)))).append
      ((hblank _ (a.clause.text ++ [';'] ++ v)).append (hclause _))
  have htarget : ∀ before, p.Silent before a.target.text
      (a.space.text ++ ("ADD".toList ++ ' ' :: (a.clause.text ++ [';'])) ++ v) := by
    intro before
    apply h.silent_target
    rw [List.append_assoc, List.append_assoc]
    exact Form.apart_word (by decide) a.space.blank a.spaceNonempty _
  exact (h.silent_fixed hspelling (.inr hlast)).append ((htarget _).append
    ((h.silent_indent a.space).append (hadd _)))

end Alteration

theorem Form.Opens.silent_alteration (h : Form.creation.Opens p) (a : Alteration) :
    p.Silent before a.text v := by
  rw [a.text_eq]
  have hspelling : hasSpelling Form.creation.word "ALTER".toList = false := by decide
  exact (h.silent_fixed hspelling (.inl (stops_cons.mpr (by decide)))).append (a.silent_rest h)

end SchemaDump.PostgreSQL
