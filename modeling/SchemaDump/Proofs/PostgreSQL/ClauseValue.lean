import SchemaDump.Proofs.PostgreSQL.ClauseRemoval
/- Values of defaults. A value is on one line and closes what it opens, a search for marks passes over it, and
no `NOT NULL` that ends a line is read in it. -/
namespace SchemaDump.PostgreSQL
open SqlPattern Pattern

variable {before : Option Char} {p : SqlPattern} {v : Text} {k : MarkKind}

namespace QuotedText

variable (q : QuotedText)

theorem exists_text_eq : ∃ u, q.text = u ++ ['\''] := by
  rcases List.eq_nil_or_concat q.more with hmore | ⟨more, content, hmore⟩
  · exact ⟨'\'' :: q.first.text, by simp [text, rest, hmore]⟩
  · refine ⟨'\'' :: (q.first.text ++ '\'' :: (more.flatMap (·.quoted) ++ '\'' :: content.text)), ?_⟩
    simp [text, rest, hmore, Content.quoted]

theorem not_mem_break : '\n' ∉ q.text := by
  have hquoted : ∀ content : Content, '\n' ∉ content.quoted := by
    intro content hmem
    simp only [Content.quoted, List.mem_cons, List.mem_append, List.not_mem_nil, or_false] at hmem
    rcases hmem with hmem | hmem | hmem
    · exact absurd hmem (by decide)
    · exact (content.chars _ hmem).2 rfl
    · exact absurd hmem (by decide)
  intro hmem
  simp only [text, rest, List.mem_cons, List.mem_append, List.mem_flatMap] at hmem
  rcases hmem with hmem | hmem | hmem | ⟨content, -, hmem⟩
  · exact absurd hmem (by decide)
  · exact (q.first.chars _ hmem).2 rfl
  · exact absurd hmem (by decide)
  · exact hquoted content hmem

end QuotedText

theorem Expression.not_mem_break (e : Expression) : '\n' ∉ e.text := by
  induction e with
  | done => exact List.not_mem_nil
  | plain text chars rest ih =>
      exact fun hmem => (List.mem_append.mp hmem).elim (fun h => (chars _ h).2.2.2 rfl) ih
  | literal content rest ih =>
      have hquoted : '\n' ∉ content.quoted := (QuotedText.mk content []).not_mem_break
      exact fun hmem => (List.mem_append.mp hmem).elim hquoted ih
  | group inner rest hinner hrest => simp [Expression.text, hinner, hrest]

namespace ValueBody

variable (b : ValueBody)

def text : Text := b.head ++ b.opaqueText

theorem text_literal (q : QuotedText) : (literal q).text = q.text := rfl

theorem text_word (w : Word) (plain) : (word w plain).text = w.text := List.append_nil _

theorem text_unspaced (e : Expression) (h₁ h₂ h₃) : (unspaced e h₁ h₂ h₃).text = e.text := List.append_nil _

theorem nonempty : b.text ≠ [] := by
  cases b with
  | literal q => exact List.cons_ne_nil _ _
  | word w _ => exact List.append_ne_nil_of_left_ne_nil w.nonempty _
  | unspaced e nonempty _ _ => exact List.append_ne_nil_of_left_ne_nil nonempty _

theorem opens : Stops isBlank b.text := by
  cases b with
  | literal q => exact stops_cons.mpr (by decide)
  | word w _ => exact w.stops (fun _ => isBlank_eq_false_of_isWordChar) _
  | unspaced e nonempty solid _ =>
      exact stops_append nonempty (fun c hc => solid c (List.mem_of_mem_head? hc)) _

theorem endsSolid : EndsSolid b.text := by
  cases b with
  | literal q =>
      obtain ⟨u, hu⟩ := q.exists_text_eq
      rw [text_literal, hu]
      exact EndsSolid.behind (by decide) (by decide) u
  | word w _ =>
      rw [text_word]
      exact endsSolid_of_forall fun c hc =>
        ⟨isBlank_eq_false_of_isWordChar (w.chars c hc), ne_of_isWordChar (by decide) (w.chars c hc)⟩
  | unspaced e _ solid ends =>
      rw [text_unspaced]
      refine fun c hc => ⟨solid c (List.mem_of_getLast? hc), ?_⟩
      rintro rfl
      exact absurd (ends _ hc) (by decide)

theorem not_mem_break : '\n' ∉ b.text := by
  cases b with
  | literal q => exact q.not_mem_break
  | word w _ =>
      rw [text_word]
      exact fun hmem => ne_of_isWordChar (by decide) (w.chars _ hmem) rfl
  | unspaced e _ _ _ =>
      rw [text_unspaced]
      exact e.not_mem_break

theorem balanced : Balanced b.text := by
  cases b with
  | literal q => exact q.balanced
  | word w _ =>
      rw [text_word]
      exact (flat_wordChars w.chars).balanced
  | unspaced e _ _ _ =>
      rw [text_unspaced]
      exact e.enclosed.level 0

theorem silent_notNullTail (hv : Stops isWordChar v) : notNullTail.Silent before b.text v := by
  have hsolid : ∀ c ∈ b.text.getLast?, isBlank c = false := fun c hc => (b.endsSolid c hc).1
  cases b with
  | literal q =>
      obtain ⟨u, hu⟩ := q.exists_text_eq
      rw [text_literal, hu]
      exact silent_notNullTail_closed (by decide)
  | word w plain =>
      rw [text_word] at hsolid ⊢
      refine PostgreSQL.silent_notNullTail (opensWith_notNullOption.silent_word w.chars hv (.inl ?_)) hsolid
      intro word hword
      exact Word.spells_eq_false plain (by rw [List.mem_singleton.mp hword]; decide)
  | unspaced e _ solid ends =>
      rw [text_unspaced] at hsolid ⊢
      refine PostgreSQL.silent_notNullTail (opensWith_notNullOption.silent_unspaced (by decide) solid ?_) hsolid
      intro c hc
      rcases ends c hc with h | rfl | rfl
      · exact .inr h
      · exact .inl (by decide)
      · exact .inl (by decide)

theorem passes (hv : Stops isWordChar v) (h : k.marker.ReadsWithin (lastOf none b.head) b.opaqueText v) :
    k.marker.Passes v .outermost before b.text := by
  have hopens := opensWith_marker k
  have hwords := lettered_words k
  cases b with
  | literal q =>
      exact .character (hopens.rejects_cons hwords (by decide) (.inl (by decide)) _ _)
        (passes_literal k.consumes_marker hopens hwords q h)
  | word w plain =>
      rw [text_word]
      have hmarks : ∀ word ∈ k.words, word ∈ markWords := by cases k <;> decide
      exact passes_of_silent (hopens.silent_word w.chars hv
        (.inl fun word hword => Word.spells_eq_false plain (hmarks word hword)))
  | unspaced e _ solid ends =>
      rw [text_unspaced]
      refine passes_of_silent (hopens.silent_unspaced hwords solid ?_)
      intro c hc
      rcases ends c hc with h | rfl | rfl
      · exact .inr h
      · exact .inl (by decide)
      · exact .inl (by decide)

end ValueBody

namespace Value

theorem stops_casts (casts : List TypeText) (hv : Stops isWordChar v) :
    Stops isWordChar (casts.flatMap castText ++ v) := by
  cases casts with
  | nil => exact hv
  | cons type casts => exact stops_cons.mpr (by decide)

theorem silent_casts (hcolon : ∀ w, p.Rejects (':' :: w))
    (htype : ∀ (type : TypeText) before w, Stops isWordChar w → p.Silent before type.text w)
    (casts : List TypeText) (hv : Stops isWordChar v) : p.Silent before (casts.flatMap castText) v := by
  induction casts generalizing before with
  | nil => exact silent_nil v
  | cons type casts ih =>
      have hcast : p.Silent before (castText type) (casts.flatMap castText ++ v) :=
        silent_cons.mpr ⟨hcolon _ _, silent_cons.mpr ⟨hcolon _ _, htype type _ _ (stops_casts casts hv)⟩⟩
      exact hcast.append ih

variable (d : Value)

theorem text_eq : d.text = d.body.text ++ d.tail := (List.append_assoc _ _ _).symm

theorem nonempty : d.text ≠ [] := by
  rw [text_eq]
  exact List.append_ne_nil_of_left_ne_nil d.body.nonempty _

theorem opens : Stops isBlank d.text := by
  rw [text_eq]
  exact stops_append d.body.nonempty d.body.opens _

theorem endsSolid : EndsSolid d.text := by
  have hcast : ∀ type : TypeText, EndsSolid (castText type) := fun type =>
    type.endsSolid.behind type.nonempty [':', ':']
  rw [text_eq]
  exact d.body.endsSolid.append (endsSolid_flatMap hcast d.casts)

theorem not_mem_break : '\n' ∉ d.text := by
  intro hmem
  rw [text_eq, tail] at hmem
  rcases List.mem_append.mp hmem with hmem | hmem
  · exact d.body.not_mem_break hmem
  · obtain ⟨type, -, hmem⟩ := List.mem_flatMap.mp hmem
    rcases List.mem_append.mp (show '\n' ∈ [':', ':'] ++ type.text from hmem) with hmem | hmem
    · exact absurd hmem (by decide)
    · exact type.oneLine hmem

theorem balanced : Balanced d.text := by
  rw [text_eq]
  exact d.body.balanced.append (balanced_flatMap fun type _ => type.balanced)

theorem silent_notNullTail (hv : Stops isWordChar v) : notNullTail.Silent before d.text v := by
  have hcasts : ∀ before, notNullTail.Silent before d.tail v := fun before =>
    silent_casts (fun w => rejects_notNullTail (List.cons_ne_nil _ w) (stops_cons.mpr (by decide)))
      (fun type _ _ hw => type.silent_notNullTail hw) d.casts hv
  rw [text_eq]
  exact (d.body.silent_notNullTail (stops_casts d.casts hv)).append (hcasts _)

theorem passes (hv : Stops isWordChar v)
    (h : k.marker.ReadsWithin (lastOf none d.body.head) d.body.opaqueText (d.tail ++ v)) :
    k.marker.Passes v .outermost before d.text := by
  have hcasts : ∀ before, k.marker.Silent before d.tail v := fun before =>
    silent_casts (fun w => (opensWith_marker k).rejects_cons (lettered_words k) (by decide) (.inl (by decide)) w)
      (fun type _ _ hw => type.silent (opensWith_marker k) (reserved_words k) hw) d.casts hv
  rw [text_eq]
  exact (d.body.passes (stops_casts d.casts hv) h).append (passes_of_silent (hcasts _))

end Value

end SchemaDump.PostgreSQL
