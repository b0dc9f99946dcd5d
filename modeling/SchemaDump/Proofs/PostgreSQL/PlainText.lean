import SchemaDump.Proofs.PostgreSQL.MarkRemoval
import SchemaDump.Proofs.PostgreSQL.ReferencingColumn
/- Texts without keywords. What opens with a keyword is not read in a text that does not have the keyword among
its words, nor in a text without blanks, in which nothing can stand behind a keyword. -/
namespace SchemaDump.PostgreSQL
open SqlPattern Pattern

variable {before : Option Char} {p q : SqlPattern} {words : List String} {word : String} {Ends : Text → Prop}
  {t u v : Text}

theorem opensWith_defaultOpening : OpensWith ["DEFAULT"] BlankAhead defaultOpening := by
  intro before t hsome
  rw [defaultOpening, read?_seq_assoc] at hsome
  refine opensWith_behind_blanks (p := keyword "DEFAULT" ++ one isBlank) (by decide) (by decide)
    (fun before t h => ?_) before t hsome
  obtain ⟨e, w, ht, hspells, hread⟩ := exists_of_read?_keyword_seq h
  exact ⟨e, w, ht, hspells, fun hstops => hread (Rejects.of_starts (p := one isBlank) rfl hstops _)⟩

theorem opensWith_notNullOption : OpensWith ["NOT"] BlankAhead notNullOption := by
  refine opensWith_behind_blanks (by decide) (by decide) fun before t h => ?_
  have hphrase : (keyword "NOT" ++ (blanks ++ keyword "NULL") : SqlPattern).read? before t ≠ none := by
    rw [read?_part] at h
    have hwords : (phrase ["NOT", "NULL"] : SqlPattern) = keyword "NOT" ++ blanks ++ keyword "NULL" := rfl
    rw [hwords, read?_seq_assoc] at h
    exact fun hnone => h (by rw [hnone]; rfl)
  obtain ⟨e, w, ht, hspells, hread⟩ := exists_of_read?_keyword_seq hphrase
  exact ⟨e, w, ht, hspells, blankAhead_of_read? hread⟩

/-- In a text that ends with something other than a blank, what may follow a default is `NOT NULL`. -/
theorem silent_notNullTail (h : notNullOption.Silent before u v) (hu : ∀ c ∈ u.getLast?, isBlank c = false) :
    notNullTail.Silent before u v := by
  rw [silent_iff] at h ⊢
  intro x y hxy hy
  obtain ⟨c, hc, -, hsolid⟩ := exists_of_getLast? hy (hxy ▸ hu)
  rw [notNullTail, read?_maybe_seq, read?_seq_none (h x y hxy hy), Option.none_or]
  exact rejects_gap_textEnd ⟨c, List.mem_append_left v hc, hsolid⟩ _

/-- A type as a column spells it: on one line, with all that it opens closed, and without keywords. -/
structure TypeText where
  text : Text
  nonempty : text ≠ []
  opens : Stops isBlank text
  endsSolid : EndsSolid text
  oneLine : '\n' ∉ text
  balanced : Balanced text
  plain : ∀ word ∈ reservedWords, hasWord word text = false

namespace TypeText

variable (type : TypeText)

theorem solid : ∀ c ∈ type.text.getLast?, isBlank c = false := fun c hc => (type.endsSolid c hc).1

theorem trimmed_append (hv : EndsSolid v) : Trimmed (type.text ++ v) :=
  (type.endsSolid.append hv).trimmed (stops_append type.nonempty type.opens v)

theorem silent (h : OpensWith words Ends p) (hwords : ∀ word ∈ words, word ∈ reservedWords)
    (hv : Stops isWordChar v) : p.Silent before type.text v := by
  have hreserved : Lettered reservedWords := by decide
  exact h.silent_of_no_word (fun word hword => hreserved word (hwords word hword))
    (fun word hword => type.plain word (hwords word hword)) type.solid hv

theorem silent_notNullTail (hv : Stops isWordChar v) : notNullTail.Silent before type.text v :=
  PostgreSQL.silent_notNullTail (type.silent opensWith_notNullOption (by decide) hv) type.solid

end TypeText

end SchemaDump.PostgreSQL
