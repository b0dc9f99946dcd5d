import SchemaDump.Proofs.MySQL.AttributeComment
import SchemaDump.Proofs.Pattern.WordAhead
/- The default among attributes: the first place where `DEFAULT` stands in front of a blank. -/
namespace SchemaDump.MySQL
open SqlPattern Pattern

variable {before : Option Char} {t u v w : Text} {a : Attribute} {attributes front back : List Attribute}

theorem Attribute.exists_default (h : a.kind = .option .default) :
    ∃ t value, a.text = ' ' :: ("DEFAULT".toList ++ ' ' :: t) ∧ IsDefault t value ∧ a.value? = some value := by
  cases a with
  | option o =>
      cases o with
      | default d => exact ⟨d.text, d.value, rfl, d.isDefault, rfl⟩
      | _ => cases h
  | default d => exact ⟨d.text, d.value, rfl, d.isDefault, rfl⟩
  | _ => cases h

theorem Attribute.kind_of_value? {value : Text} (h : a.value? = some value) : a.kind = .option .default := by
  cases a with
  | option o => cases o <;> first | rfl | cases h
  | default => rfl
  | _ => cases h

theorem read?_defaultClause (hstops : Stops isBlank (t ++ v)) (hvalue : defaultValue.Reads t v []) :
    defaultClause.read? (some ' ') ("DEFAULT".toList ++ ' ' :: (t ++ v)) =
      some ⟨"DEFAULT".toList ++ ' ' :: t, [(.default, t)], v⟩ := by
  have hedge : (wordEdge : SqlPattern).readings (some ' ') ("DEFAULT".toList ++ ' ' :: (t ++ v)) =
      [⟨[], [], "DEFAULT".toList ++ ' ' :: (t ++ v)⟩] := by
    rw [readings, if_pos]
    rfl
  have hread := (reads_keyword "DEFAULT" _).seq
    ((reads_blanks hstops).seq (hvalue.part Part.default)) (some ' ')
  rw [defaultClause, read?_seq_assoc, read?_seq_assoc, read?_single_seq hedge]
  simpa [defaultValue] using hread

theorem read?_wordEdge_seq (q : SqlPattern) (before : Option Char) (t : Text) : (wordEdge ++ q).read? before t =
    if before.any isWordChar != t.head?.any isWordChar then q.read? before t else none := by
  split
  · next hedge =>
    have hsingle : (wordEdge : SqlPattern).readings before t = [⟨[], [], t⟩] := by rw [readings, if_pos hedge]
    rw [read?_single_seq hsingle, lastOf_nil]
    simp
  · next hedge =>
    refine read?_seq_none (readings_eq_nil_iff.mp ?_)
    rw [readings, if_neg hedge]

def NeedsBlank (q : SqlPattern) : Prop := ∀ before t, q.read? before t ≠ none → ∃ b w, t = b :: w ∧ isBlank b

/-- Behind `DEFAULT` a default opens, whatever stands behind the first blank. -/
theorem exists_of_read?_opening {q : SqlPattern} (hq : NeedsBlank q)
    (h : (wordEdge ++ (keyword "DEFAULT" ++ q)).read? before t ≠ none) :
    ∃ e b w, t = e ++ b :: w ∧ e ≠ [] ∧ (∀ c ∈ e, isWordChar c) ∧ isBlank b ∧
      ∀ w, defaultOpening.read? before (e ++ b :: w) ≠ none := by
  rw [read?_wordEdge_seq] at h
  split at h
  · next hedge =>
    obtain ⟨e, w, rfl, hspells, hread⟩ := exists_of_read?_keyword_seq h
    obtain ⟨d, e, rfl⟩ : ∃ d e', e = d :: e' := by
      cases e with
      | nil => cases hspells
      | cons d e => exact ⟨d, e, rfl⟩
    obtain ⟨b, w, rfl, hb⟩ := hq _ _ hread
    refine ⟨d :: e, b, w, rfl, List.cons_ne_nil d e, isWordChar_of_spells (by decide) hspells, hb, fun w' => ?_⟩
    rw [defaultOpening, read?_seq_assoc, read?_wordEdge_seq, if_pos (by simpa using hedge), ne_eq, ← readings_eq_nil_iff]
    exact List.ne_nil_of_mem (mem_readings_seq.mpr ⟨⟨d :: e, [], b :: w'⟩, mem_readings_keyword.mpr ⟨rfl, hspells, rfl⟩,
      ⟨[b], [], w'⟩, by rw [readings_one hb]; exact List.mem_singleton_self _, rfl⟩)
  · exact absurd rfl h

theorem needsBlank_blanks (q : SqlPattern) : NeedsBlank (blanks ++ q) := by
  intro before t hread
  have hblank := blankAhead_of_read? hread
  cases t with
  | nil => exact absurd (stops_nil _) hblank
  | cons b w => exact ⟨b, w, rfl, by simpa [BlankAhead, stops_cons] using hblank⟩

theorem needsBlank_one : NeedsBlank (one isBlank) := by
  intro before t hread
  obtain ⟨r, hr⟩ := Option.ne_none_iff_exists'.mp hread
  obtain ⟨b, hb, -, -, ht⟩ := mem_readings_one (mem_of_read? hr)
  exact ⟨b, r.rest, ht, hb⟩

/-- In front of the end of a word a default is only read where it opens. -/
theorem silent_defaultClause (hu : ∀ c ∈ u.head?, isWordChar c = false) (hv : Stops isWordChar v)
    (hno : defaultOpening.occursIn (u ++ v.take 1) = false) : defaultClause.Silent before u v := by
  rw [silent_iff]
  intro x y hxy hy
  by_contra hread
  rw [defaultClause, read?_seq_assoc, read?_seq_assoc] at hread
  obtain ⟨e, b, w, htext, hne, hword, -, hopens⟩ := exists_of_read?_opening (needsBlank_blanks _) hread
  -- the blank behind the word stands in `u`, or it is what `v` starts with
  obtain ⟨w', hsplit⟩ : ∃ w', y ++ v.take 1 = e ++ b :: w' := by
    rcases exists_append_of_length htext with ⟨z, rfl, hz⟩ | ⟨c, z, rfl, hz⟩
    · cases z with
      | nil =>
          refine ⟨[], ?_⟩
          rw [hz]
          simp
      | cons c z =>
          rw [hz, List.cons_append, stops_cons, hword c (by simp)] at hv
          cases hv
    · obtain ⟨rfl, -⟩ := List.cons.inj hz
      exact ⟨z ++ v.take 1, by simp⟩
  have hx : x ≠ [] := by
    rintro rfl
    obtain ⟨c, e, rfl⟩ := List.exists_cons_of_ne_nil hne
    obtain ⟨d, y, rfl⟩ := List.exists_cons_of_ne_nil hy
    obtain ⟨rfl, -⟩ := List.cons.inj htext
    have hsolid := hu d (by rw [hxy]; rfl)
    rw [hword d List.mem_cons_self] at hsolid
    cases hsolid
  have hnone := occursIn_eq_false_iff.mp hno x (e ++ b :: w') (by rw [hxy, List.append_assoc, hsplit])
  have hlast : lastOf before x = lastOf none x := by
    obtain ⟨c, x, rfl⟩ := List.exists_cons_of_ne_nil hx
    rfl
  exact hopens w' (hlast ▸ hnone)

theorem defaultOpening_of_append (h : defaultOpening.occursIn (t ++ w) = false) :
    defaultOpening.occursIn t = false := by
  rw [occursIn_eq_false_iff]
  rintro x y rfl
  by_contra hread
  rw [defaultOpening, read?_seq_assoc] at hread
  obtain ⟨e, b, k, rfl, -, -, -, hopens⟩ := exists_of_read?_opening needsBlank_one hread
  exact hopens (k ++ w) (occursIn_eq_false_iff.mp h x _ (by simp))

/-- Where no default opens in front of a blank, none opens in front of attributes. -/
theorem defaultOpening_take (h : defaultOpening.occursIn (t ++ [' ']) = false) (attributes : List Attribute) :
    defaultOpening.occursIn (t ++ (attributesText attributes).take 1) = false := by
  cases attributes with
  | nil =>
      rw [attributesText, List.flatMap_nil, List.take_nil, List.append_nil]
      exact defaultOpening_of_append h
  | cons a attributes =>
      obtain ⟨d, u, htext, -⟩ := a.exists_text_eq
      rw [attributesText_cons, htext]
      exact h

theorem defaultOpening_comma (h : defaultOpening.occursIn t = false) :
    defaultOpening.occursIn (t ++ [',']) = false := by
  rw [occursIn_eq_false_iff]
  intro x y hxy
  by_contra hread
  rw [defaultOpening, read?_seq_assoc] at hread
  obtain ⟨e, b, k, rfl, -, -, hb, hopens⟩ := exists_of_read?_opening needsBlank_one hread
  have hcomma : b ≠ ',' := by
    rintro rfl
    exact absurd hb (by decide)
  rcases List.eq_nil_or_concat k with rfl | ⟨z, c, rfl⟩
  · have hsplit : t ++ [','] = (x ++ e) ++ [b] := by simpa using hxy
    exact hcomma (List.cons.inj (List.append_inj' hsplit rfl).2).1.symm
  · have hsplit : t ++ [','] = (x ++ (e ++ b :: z)) ++ [c] := by simpa using hxy
    exact hopens z (occursIn_eq_false_iff.mp h x _ (List.append_inj' hsplit rfl).1)

/-- Where no default opens in front of attributes, none opens in front of what stands behind them. -/
theorem defaultOpening_trail (h : defaultOpening.occursIn (u ++ w.take 1) = false) (hv : IsTrail v) :
    defaultOpening.occursIn (u ++ (w ++ v).take 1) = false := by
  cases w with
  | cons c w => exact h
  | nil =>
      rw [List.take_nil, List.append_nil] at h
      cases v with
      | nil => rwa [List.append_nil, List.take_nil, List.append_nil]
      | cons c v =>
          rw [hv c rfl]
          exact defaultOpening_comma h

theorem noEarlyDefault_of_forall
    (h : ∀ a ∈ attributes, a.kind = .option .default ∨ defaultOpening.occursIn (a.text ++ [' ']) = false) :
    NoEarlyDefault attributes := by
  induction attributes with
  | nil => trivial
  | cons a attributes ih =>
      obtain ⟨ha, h⟩ := List.forall_mem_cons.mp h
      exact ha.imp_right fun ha => ⟨defaultOpening_take ha attributes, ih h⟩

theorem Attribute.head_text (a : Attribute) : ∀ c ∈ a.text.head?, isWordChar c = false := by
  obtain ⟨d, u, htext, -⟩ := a.exists_text_eq
  rw [htext]
  exact fun c hc => Option.some.inj hc ▸ by decide

/-- No default is read in attributes in front of the default, or without one. -/
theorem silent_defaultClause_attributes (h : NoEarlyDefault (front ++ back)) (hv : IsTrail v)
    (hfront : ∀ a ∈ front, a.kind ≠ .option .default) :
    defaultClause.Silent before (attributesText front) (attributesText back ++ v) := by
  induction front generalizing before with
  | nil => exact silent_nil _
  | cons a front ih =>
      obtain ⟨ha, hfront⟩ := List.forall_mem_cons.mp hfront
      obtain ⟨hno, h⟩ := Or.resolve_left h ha
      have hahead : EndsPart (attributesText front ++ (attributesText back ++ v)) := by
        have hends := endsPart_attributesText (front ++ back) hv.optionsAhead
        rwa [attributesText_append, List.append_assoc] at hends
      rw [List.append_eq, attributesText_append] at hno
      have hnone := defaultOpening_trail hno hv
      rw [List.append_assoc] at hnone
      rw [attributesText_cons]
      exact (silent_defaultClause a.head_text (hahead.stops (by decide)) hnone).append (ih h hfront)

theorem find?_default (h : NoEarlyDefault (front ++ a :: back)) (hv : IsTrail v)
    (hfront : ∀ a ∈ front, a.kind ≠ .option .default) (ha : a.kind = .option .default) :
    ∃ o, defaultClause.find? (attributesText (front ++ a :: back) ++ v) = some o ∧
      a.value? = some (DefaultValue.clean false (o.part .default)) ∧
      o.before = attributesText front ++ [' '] ∧ o.after = attributesText back ++ v := by
  obtain ⟨t, value, htext, hdefault, hvalue⟩ := a.exists_default ha
  have hblank : ∀ before w, defaultClause.Silent before [' '] w := fun before w =>
    silent_of_starts rfl (by decide)
  have hattributes : attributesText (a :: back) ++ v =
      [' '] ++ ("DEFAULT".toList ++ ' ' :: (t ++ (attributesText back ++ v))) := by
    rw [attributesText_cons, htext]
    simp
  have hsilent : defaultClause.Silent none (attributesText front ++ [' '])
      ("DEFAULT".toList ++ ' ' :: (t ++ (attributesText back ++ v))) :=
    Silent.append (hattributes ▸ silent_defaultClause_attributes h hv hfront) (hblank _ _)
  have hread := read?_defaultClause (hdefault.stops _)
    (hdefault.reads (endsPart_attributesText back hv.optionsAhead))
  have hlast : lastOf none (attributesText front ++ [' ']) = some ' ' := by
    rw [lastOf_append]
    rfl
  rw [← hlast] at hread
  obtain ⟨o, ho, hreading, hbefore⟩ := find?_of_silent hsilent hread
  refine ⟨o, ?_, ?_, hbefore, congrArg Match.rest hreading⟩
  · rw [← ho, attributesText_append, List.append_assoc, hattributes, List.append_assoc]
  · have hpart : o.part .default = t := by
      rw [Occurrence.part_eq, hreading]
      rfl
    rw [hvalue, hpart, hdefault.clean]

end SchemaDump.MySQL
