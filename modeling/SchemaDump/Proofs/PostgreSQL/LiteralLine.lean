import SchemaDump.Proofs.PostgreSQL.CommentedTable
/- Literals that a line of a table may hold. The quotes around a literal keep it apart from what stands on
the line besides it, so the line is a definition as soon as neither its name nor the literal, each by itself, ends
a body or alters a table. -/
namespace SchemaDump.PostgreSQL
open SqlPattern Pattern

variable {before : Option Char} {t u v w : Text}

/-- A literal in which no body ends, no list of parent tables is left open and no table is altered. -/
structure Content.Inert (l : Content) : Prop where
  noEnd : bodyEnd.occursIn l.text = false
  noParents : openParents.occursIn l.text = false
  noAlteration : alterOpening.occursIn l.text = false

theorem semicolon_mem_of_mem_readings {r : Match Part} (h : r ∈ bodyEnd.readings before t) : ';' ∈ r.read := by
  obtain ⟨a, -, m, hm, rfl⟩ := mem_readings_seq.mp h
  obtain ⟨b, -, n, hn, rfl⟩ := mem_readings_seq.mp hm
  obtain ⟨g, -, e, he, rfl⟩ := mem_readings_seq.mp hn
  simp [(mem_readings_literal.mp he).2.1]

theorem bodyEnd_occursIn_of_no_semicolon (h : ';' ∉ u) : bodyEnd.occursIn u = false := by
  rw [occursIn_eq_false_iff]
  rintro x y rfl
  rw [← readings_eq_nil_iff, List.eq_nil_iff_forall_not_mem]
  intro r hr
  refine h (List.mem_append_right x ?_)
  rw [← readings_text _ _ _ r hr]
  exact List.mem_append_left _ (semicolon_mem_of_mem_readings hr)

/-- No list of parent tables that is closed in front of a quote reaches over it. -/
theorem silent_bodyEnd_quote (hu : openParents.occursIn u = false) (hend : bodyEnd.occursIn u = false) :
    bodyEnd.Silent before u ('\'' :: v) :=
  (staysWithin_bodyEnd (confined_of_not_mentioned rfl) (confined_of_not_mentioned rfl) hu).silent rfl hend

namespace FreeLine

variable (c : FreeLine)

/-- What stands on a line in front of the content of its default. -/
def front : Text :=
  c.name.text ++ ' ' :: ((c.type.text ++ ColumnLine.markText c.marks) ++ ' ' :: ("DEFAULT".toList ++ [' ']))

/-- What stands behind the content of the default. -/
def back (d : FreeDefault) : Text := d.casts.flatMap (·.text) ++ ColumnLine.notNullText c.notNull

variable {c}

theorem text_split {d : FreeDefault} (hd : c.default = some d) :
    c.text = c.front ++ '\'' :: (d.content.text ++ '\'' :: c.back d) := by
  simp [text, front, back, hd, defaultText, FreeDefault.text, Content.quoted]

theorem guarded_front : Guarded c.front := by
  have hblank : Guarded [' '] := guarded_of_not_mem (by decide)
  have hkeyword : Guarded (' ' :: ("DEFAULT".toList ++ [' '])) := guarded_of_not_mem (by decide)
  exact (guarded_name c.name).append (hblank.append
    (((guarded_type c.type).append (guarded_flatMap guarded_mark c.marks)).append hkeyword))

theorem unbroken_front : Unbroken c.front := by
  have hmarks : Unbroken (ColumnLine.markText c.marks) := unbroken_flatMap unbroken_mark c.marks
  exact (unbroken_name c.name).append (.cons (by decide) (((unbroken_type c.type).append hmarks).append (by decide)))

theorem unbroken_back (d : FreeDefault) : Unbroken (c.back d) := by
  have hnull : Unbroken (ColumnLine.notNullText c.notNull) := by
    cases c.notNull <;> decide
  exact (unbroken_flatMap unbroken_cast d.casts).append hnull

theorem no_bodyEnd (hc : ∀ d ∈ c.default, d.content.Inert) : bodyEnd.occursIn c.text = false := by
  cases hd : c.default with
  | none =>
      refine bodyEnd_occursIn_of_no_semicolon fun hmem => ?_
      rcases c.mem_text hmem with ⟨d, hsome, -⟩ | h
      · rw [hd] at hsome
        cases hsome
      · exact h.1 rfl
  | some d =>
      obtain ⟨hend, hparents, -⟩ := hc d hd
      have hquote : ∀ before w, bodyEnd.Silent before ['\''] w := fun before w =>
        silent_bodyEnd_of_no_paren (by decide)
      have hfront : bodyEnd.Silent none c.front ('\'' :: (d.content.text ++ '\'' :: c.back d) ++ []) :=
        silent_bodyEnd_quote guarded_front.openParents_occursIn
          (bodyEnd_occursIn_of_no_semicolon fun h => (unbroken_front _ h).1 rfl)
      have hcontent : ∀ before, bodyEnd.Silent before d.content.text ('\'' :: c.back d ++ []) := fun before =>
        silent_bodyEnd_quote hparents hend
      have hback : ∀ before, bodyEnd.Silent before ('\'' :: c.back d) [] := by
        have hunbroken : Unbroken ('\'' :: c.back d) := .cons (by decide) (unbroken_back d)
        exact fun before => confined_nil.staysWithin.silent rfl
          (bodyEnd_occursIn_of_no_semicolon fun h => (hunbroken _ h).1 rfl)
      have hall : bodyEnd.Silent none c.text [] := by
        rw [text_split hd]
        exact hfront.append ((hquote _ (d.content.text ++ '\'' :: c.back d ++ [])).append
          (w := d.content.text ++ '\'' :: c.back d) ((hcontent _).append (hback _)))
      exact occursIn_eq_false_of_silent (consumes_of_not_nullable rfl) hall

theorem silent_alterOpening_name (hname : alterOpening.occursIn c.name.text = false) (before : Option Char)
    (w : Text) (hw : Form.alteration.Apart w) : alterOpening.Silent before c.name.text w := by
  have hheads : Form.alteration.Heads alterOpening := ⟨fun _ _ h => h⟩
  cases hc : c.name with
  | bare word => exact hheads.silent_word word.chars hw
  | quoted text nonempty chars trimmed =>
      rw [hc] at hname
      have htext : (Name.quoted text nonempty chars trimmed).text = ('"' :: text) ++ ['"'] := rfl
      rw [htext] at hname ⊢
      have hinside : alterOpening.occursIn ('"' :: text) = false := by
        rw [occursIn_eq_false_iff] at hname ⊢
        rintro x y hxy
        exact Rejects.of_append (v := ['"']) rfl (fun before => by
          rw [read?_before rfl before (lastOf none x)]
          exact hname x (y ++ ['"']) (by rw [hxy, List.append_assoc])) _
      have hstays : alterOpening.StaysWithin ('"' :: text) ('"' :: w) := staysWithin_of_not_mentioned rfl
      exact (hstays.silent rfl hinside).append (hheads.silent_marks (by decide))

theorem no_alteration (hname : alterOpening.occursIn c.name.text = false)
    (hc : ∀ d ∈ c.default, d.content.Inert) : alterOpening.occursIn (c.text ++ ['\n']) = false := by
  have hheads : Form.alteration.Heads alterOpening := ⟨fun _ _ h => h⟩
  have hend : Form.alteration.Apart (['\n'] ++ []) :=
    Form.apart_blanks (by decide) (by decide) (stops_nil _) (.of_starts rfl (stops_nil _))
  have hline : alterOpening.Silent none c.text (['\n'] ++ []) :=
    hheads.silent_freeLine (silent_alterOpening_name hname) (fun d hd => (hc d hd).noAlteration) hend
  have hall : alterOpening.Silent none (c.text ++ ['\n']) [] := hline.append (hheads.silent_marks (by decide))
  exact occursIn_eq_false_of_silent (consumes_of_not_nullable rfl) hall

end FreeLine

theorem endsWord_list : EndsWord (gap ++ literal "(") := by
  intro c t _ hread
  cases t with
  | nil => exact stops_nil _
  | cons d t =>
      refine stops_cons.mpr ?_
      cases hd : isWordChar d with
      | false => rfl
      | true =>
          have hparen : d ≠ '(' := ne_of_isWordChar (by decide) hd
          have hstarts : (gap ++ literal "(" : SqlPattern).starts d = false := by
            simp [append_eq_seq, starts, gap, literal, nullable, isBlank_eq_false_of_isWordChar hd, hparen]
          exact absurd (Rejects.of_starts rfl (stops_cons.mpr hstarts) (some c)) hread

/-- A name and the first word behind it go on with nothing that a line in front of them may have begun. -/
theorem rejects_sequel (name : Name) (hname : name.isOneOf ["TABLE"] = false) (type : Word) (v : Text) :
    sequel.Rejects (name.text ++ ' ' :: (type.text ++ v)) := by
  cases name with
  | quoted text nonempty chars trimmed => exact .of_starts (by decide) (stops_cons.mpr (by decide))
  | bare word =>
      have hstops := type.stops (fun _ => isBlank_eq_false_of_isWordChar) v
      have hopens : ∀ d, (literal "(" : SqlPattern).starts d = (d == '(') := fun d => by simp [literal]
      have hparen : Stops (· == '(') (type.text ++ v) := type.stops
        (fun d hd => beq_eq_false_iff_ne.mpr (ne_of_isWordChar (by decide) hd)) v
      have hlist : (gap ++ literal "(" : SqlPattern).Rejects (' ' :: (type.text ++ v)) := by
        refine .gap (u := [' ']) (by decide) hstops rfl (fun d hd => ?_) (.of_starts rfl fun d hd => ?_)
        · rw [hopens, beq_eq_false_iff_ne]
          rintro rfl
          exact absurd hd (by decide)
        · rw [hopens]
          exact hparen d hd
      exact .alt (read?_keyword_seq_eq_none (by decide) (by decide) endsWord_list word.chars
        (stops_cons.mpr (by decide)) (.inr hlist)) (read?_keyword_seq_eq_none (by decide) (by decide)
          endsWord_blanks word.chars (stops_cons.mpr (by decide)) (.inl (Word.spells_eq_false hname (by decide))))

namespace FreeLine

variable {c : FreeLine}

theorem no_sequel (hname : c.name.isOneOf ["TABLE"] = false) : sequel.opening? (c.text ++ ['\n']) = none := by
  have htext : ∃ v, c.text ++ ['\n'] = c.name.text ++ ' ' :: (c.type.first.1.text ++ v) := by
    simp [text, ColumnType.text, ColumnType.wordText]
  obtain ⟨v, hv⟩ := htext
  rw [hv]
  exact at?_eq_none_iff.mpr (rejects_sequel c.name hname c.type.first.1.toWord v _)

theorem isDefinition (hname : c.name.isOneOf ["TABLE"] = false)
    (hplain : alterOpening.occursIn c.name.text = false) (hc : ∀ d ∈ c.default, d.content.Inert) :
    IsDefinition c.text where
  toIsLine := c.isLine_text
  noEnd := no_bodyEnd hc
  noParents := (guarded_freeLine c fun d hd => (hc d hd).noParents).openParents_occursIn
  noAlteration := no_alteration hplain hc
  endsSolid := c.endsSolid_text
  starts := c.stops (by decide) fun d hd => by
    have hsemicolon : d ≠ ';' := ne_of_isWordChar (by decide) hd
    have hparen : d ≠ '(' := ne_of_isWordChar (by decide) hd
    simp [hsemicolon, hparen]
  noSequel := no_sequel hname

end FreeLine

end SchemaDump.PostgreSQL
