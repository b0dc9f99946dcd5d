import SchemaDump.Definition.Identifier
import SchemaDump.Proofs.Pattern.Reads
/- Identifiers and the names of constraints. Where a blank follows, an identifier can be read in
one way only, so what stands behind a constraint's name is determined by the text. -/
namespace SchemaDump.SqlPattern
open Pattern

variable {before after : Option Char} {t : Text} {r s : Match Part}

theorem isBareChar_eq_false_of_isBlank {c : Char} (h : isBlank c) : isBareChar c = false := by
  rw [isBareChar, isWordChar_eq_false_of_isBlank h, Bool.false_or, beq_eq_false_iff_ne]
  rintro rfl
  exact absurd h (by decide)

/-- A run that is followed by no character of its class is as long as it can be. -/
theorem rest_of_mem_readings_run1 {accepts : Char → Bool} {preference : Preference}
    (h : r ∈ (run1 accepts preference : SqlPattern).readings before t) (hs : Stops accepts r.rest) :
    r.rest = t.dropWhile accepts := by
  obtain ⟨-, -, ht, hall⟩ := mem_readings_run1 h
  conv => rhs; rw [ht]
  exact (dropWhile_append_of_stops hall hs).symm

theorem mem_readings_within {quote : Char} {inner : SqlPattern} (h : r ∈ (within quote inner).readings before t) :
    ∃ before v, ∃ x ∈ inner.readings before v, r.parts = x.parts ∧ r.read = quote :: (x.read ++ [quote]) ∧
      t = quote :: (x.read ++ quote :: r.rest) := by
  simp only [within, mem_readings_seq] at h
  obtain ⟨o, ⟨q, hq, x, hx, rfl⟩, e, he, rfl⟩ := h
  obtain ⟨c, hc, hqparts, hqread, rfl⟩ := mem_readings_one hq
  obtain ⟨d, hd, heparts, heread, hrest⟩ := mem_readings_one he
  obtain rfl := beq_iff_eq.mp hc
  obtain rfl := beq_iff_eq.mp hd
  refine ⟨_, _, x, hx, by simp [hqparts, heparts], by simp [hqread, heread], ?_⟩
  rw [← readings_text _ _ _ x hx]
  exact congrArg (fun u => d :: (x.read ++ u)) hrest

theorem mem_readings_quotedIdentifier {quote : Char}
    (h : r ∈ (quotedIdentifier quote).readings before t) :
    ∃ x, x ≠ [] ∧ quote ∉ x ∧ r.parts = [] ∧ r.read = quote :: (x ++ [quote]) ∧
      t = quote :: (x ++ quote :: r.rest) := by
  obtain ⟨_, _, x, hx, hparts, hread, htext⟩ := mem_readings_within h
  obtain ⟨hne, hxparts, -, hall⟩ := mem_readings_run1 hx
  refine ⟨x.read, hne, fun hmem => ?_, hparts.trans hxparts, hread, htext⟩
  exact absurd (hall quote hmem) (by simp)

theorem rest_of_mem_quotedIdentifier {quote : Char} (hr : r ∈ (quotedIdentifier quote).readings before t) :
    r.rest = (t.tail.dropWhile (· != quote)).tail ∧ t.head? = some quote := by
  obtain ⟨x, -, hx, -, -, ht⟩ := mem_readings_quotedIdentifier hr
  have hname : ∀ c ∈ x, (c != quote) = true := fun c hc => bne_iff_ne.mpr fun h => hx (h ▸ hc)
  rw [ht, List.tail_cons, dropWhile_append_of_stops hname (stops_cons.mpr (by simp))]
  exact ⟨rfl, rfl⟩

theorem rest_of_mem_bareIdentifier (hr : r ∈ (run1 isBareChar .longest).readings before t)
    (hrest : Stops isBareChar r.rest) : r.rest = t.dropWhile isBareChar ∧ ∀ c ∈ t.head?, isBareChar c := by
  refine ⟨rest_of_mem_readings_run1 hr hrest, ?_⟩
  intro c hc
  obtain ⟨hne, -, ht, hall⟩ := mem_readings_run1 hr
  obtain ⟨d, u, hread⟩ := List.exists_cons_of_ne_nil hne
  rw [ht, hread] at hc
  obtain rfl : d = c := Option.some.inj hc
  exact hall d (hread ▸ List.mem_cons_self)

/-- What follows an identifier, if it is a blank, is determined by the text. -/
theorem identifier_rest_unique (hr : r ∈ identifier.readings before t)
    (hs : s ∈ identifier.readings after t) (hrest : Stops isBareChar r.rest)
    (hsrest : Stops isBareChar s.rest) : r.rest = s.rest := by
  -- No text begins with two kinds of identifiers.
  have hbare : ∀ {quote : Char} {before after : Option Char} {r s : Match Part}, isBareChar quote = false →
      r ∈ (quotedIdentifier quote).readings before t → s ∈ (run1 isBareChar .longest).readings after t →
        ¬ Stops isBareChar s.rest := by
    intro quote before after r s hquote hr hs hsrest
    have h := (rest_of_mem_bareIdentifier hs hsrest).2 quote (rest_of_mem_quotedIdentifier hr).2
    rw [hquote] at h
    cases h
  have hquotes : ∀ {before after : Option Char} {r s : Match Part}, r ∈ (quotedIdentifier '"').readings before t →
      s ∉ (quotedIdentifier backQuote).readings after t := by
    intro before after r s hr hs
    have h := (rest_of_mem_quotedIdentifier hr).2.symm.trans (rest_of_mem_quotedIdentifier hs).2
    exact absurd (Option.some.inj h) (by decide)
  simp only [identifier, anyOf, readings_alt, List.mem_append] at hr hs
  rcases hr with hr | hr | hr <;> rcases hs with hs | hs | hs
  · rw [(rest_of_mem_quotedIdentifier hr).1, (rest_of_mem_quotedIdentifier hs).1]
  · exact absurd hs (hquotes hr)
  · exact absurd hsrest (hbare (by decide) hr hs)
  · exact absurd hr (hquotes hs)
  · rw [(rest_of_mem_quotedIdentifier hr).1, (rest_of_mem_quotedIdentifier hs).1]
  · exact absurd hsrest (hbare (by decide) hr hs)
  · exact absurd hrest (hbare (by decide) hs hr)
  · exact absurd hrest (hbare (by decide) hs hr)
  · rw [(rest_of_mem_bareIdentifier hr hrest).1, (rest_of_mem_bareIdentifier hs hsrest).1]

theorem reads_within {quote : Char} {inner : SqlPattern} {u v : Text} {parts : List (Part × Text)}
    (h : inner.Reads u (quote :: v) parts) :
    (within quote inner).Reads (quote :: (u ++ [quote])) v parts := by
  have hquote : ∀ w, (one (· == quote) : SqlPattern).Reads [quote] w [] :=
    fun w => reads_one (by simp) w
  have hread := ((hquote _).seq h).seq (hquote v)
  simpa [within] using hread

theorem reads_unquotedRun {quote : Char} {u : Text} (hne : u ≠ []) (hu : quote ∉ u) (v : Text) :
    (unquotedRun quote).Reads u (quote :: v) [] := by
  refine reads_run1 hne ?_ (stops_cons.mpr (by simp))
  intro c hc
  exact bne_iff_ne.mpr fun h => hu (h ▸ hc)

end SchemaDump.SqlPattern
