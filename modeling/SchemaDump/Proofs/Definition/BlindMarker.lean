import SchemaDump.Proofs.Definition.Replacement
/- Markers and what stands in literals and parentheses. No text in there is taken for a marker, hides one or is
changed when markers are taken off; a marker is found if and only if its words stand outside. -/
namespace SchemaDump
open SqlPattern Pattern

variable {before : Option Char} {front : SqlPattern} {r : Match Part} {words : List String} {t u w x y : Text}
  {xs ys : List Text}

/-- A text that spells words in any letter case, with blanks between them. -/
def IsPhrase : List String → Text → Prop
  | [], t => t = []
  | [word], t => spells sameLetter word.toList t
  | word :: words, t => ∃ a g z, t = a ++ (g ++ z) ∧ spells sameLetter word.toList a ∧ g ≠ [] ∧
      (∀ c ∈ g, isBlank c) ∧ IsPhrase words z

/-- Words stand in a text outside of its literals and parentheses, as whole words. -/
def StandsOutside (words : List String) (t : Text) : Prop :=
  ∃ x w y, t = x ++ (w ++ y) ∧ WellNested x ∧ IsPhrase words w ∧ (∀ c ∈ x.getLast?, isWordChar c = false) ∧
    Stops isWordChar y

namespace SqlPattern

/-- Whole words with blanks between them, behind what may stand in front of them. -/
def wordMarker (front : SqlPattern) (words : List String) : SqlPattern :=
  front ++ wordEdge ++ phrase words ++ wordEdge

def Skippable (p : SqlPattern) : Prop := ∀ before t, ⟨[], [], t⟩ ∈ p.readings before t

theorem mem_readings_wordEdge : r ∈ (wordEdge : SqlPattern).readings before t ↔
    r = ⟨[], [], t⟩ ∧ (before.any isWordChar != t.head?.any isWordChar) = true := by
  rw [readings]
  split <;> simp_all

theorem mem_readings_run1_of {accepts : Char → Bool} {preference : Preference} (hne : u ≠ [])
    (hu : ∀ c ∈ u, accepts c) (before : Option Char) (t : Text) :
    ⟨u, [], t⟩ ∈ (run1 accepts preference : SqlPattern).readings before (u ++ t) := by
  obtain ⟨c, u, rfl⟩ := List.exists_cons_of_ne_nil hne
  refine mem_readings_seq.mpr ⟨⟨[c], [], u ++ t⟩, ?_, ⟨u, [], t⟩, ?_, rfl⟩
  · rw [List.cons_append, readings_one (hu c List.mem_cons_self)]
    exact List.mem_singleton_self _
  · exact mem_readings_run.mpr ⟨rfl, rfl, fun d hd => hu d (List.mem_cons_of_mem c hd)⟩

theorem mem_readings_phrase : r ∈ (phrase words : SqlPattern).readings before t ↔
    r.parts = [] ∧ IsPhrase words r.read ∧ r.read ++ r.rest = t := by
  induction words generalizing before t r with
  | nil =>
      rcases r with ⟨read, parts, rest⟩
      simp only [phrase, readings, List.mem_singleton, Match.mk.injEq, IsPhrase]
      constructor
      · rintro ⟨rfl, rfl, rfl⟩
        exact ⟨rfl, rfl, rfl⟩
      · rintro ⟨rfl, rfl, rfl⟩
        exact ⟨rfl, rfl, rfl⟩
  | cons word words ih =>
      cases words with
      | nil => exact mem_readings_keyword
      | cons next words =>
          simp only [phrase, mem_readings_seq, IsPhrase]
          constructor
          · rintro ⟨d, ⟨a, ha, g, hg, rfl⟩, z, hz, rfl⟩
            obtain ⟨haparts, hspells, hatext⟩ := mem_readings_keyword.mp ha
            obtain ⟨hgne, hgparts, hgtext, hblank⟩ := mem_readings_run1 hg
            obtain ⟨hzparts, hphrase, hztext⟩ := ih.mp hz
            refine ⟨by simp [haparts, hgparts, hzparts],
              ⟨a.read, g.read, z.read, by simp, hspells, hgne, hblank, hphrase⟩, ?_⟩
            rw [Match.andThen_rest] at hztext
            rw [Match.andThen_read, Match.andThen_read, Match.andThen_rest, List.append_assoc, List.append_assoc,
              hztext, ← hgtext, hatext]
          · rintro ⟨hparts, ⟨a, g, z, hread, hspells, hgne, hblank, hphrase⟩, htext⟩
            rw [hread, List.append_assoc, List.append_assoc] at htext
            subst htext
            refine ⟨_, ⟨⟨a, [], g ++ (z ++ r.rest)⟩, mem_readings_keyword.mpr ⟨rfl, hspells, rfl⟩, ⟨g, [], z ++ r.rest⟩,
              mem_readings_run1_of hgne hblank _ _, rfl⟩, ⟨z, [], r.rest⟩, ih.mpr ⟨rfl, hphrase, rfl⟩, ?_⟩
            rcases r with ⟨read, parts, rest⟩
            simp_all [Match.andThen]

theorem ends_of_spells {word : String} (hne : word.toList ≠ []) (hletters : ∀ c ∈ word.toList, c.isAlpha)
    (h : spells sameLetter word.toList w) : (∃ c ∈ w.head?, isWordChar c) ∧ ∃ c ∈ w.getLast?, isWordChar c := by
  have hchars := isWordChar_of_spells hletters h
  have hw : w ≠ [] := by
    rintro rfl
    exact hne (List.length_eq_zero_iff.mp (spells_length h).symm)
  obtain ⟨c, hc⟩ := Option.ne_none_iff_exists'.mp (mt List.head?_eq_none_iff.mp hw)
  obtain ⟨d, hd⟩ := Option.ne_none_iff_exists'.mp (mt List.getLast?_eq_none_iff.mp hw)
  exact ⟨⟨c, hc, hchars c (List.mem_of_mem_head? hc)⟩, d, hd, hchars d (List.mem_of_getLast? hd)⟩

theorem ends_of_isPhrase (hwords : Lettered words) (hne : words ≠ []) (h : IsPhrase words w) :
    (∃ c ∈ w.head?, isWordChar c) ∧ ∃ c ∈ w.getLast?, isWordChar c := by
  induction words generalizing w with
  | nil => exact absurd rfl hne
  | cons word words ih =>
      obtain ⟨hword, hletters⟩ := hwords word List.mem_cons_self
      cases words with
      | nil => exact ends_of_spells hword hletters h
      | cons next words =>
          obtain ⟨a, g, z, rfl, hspells, -, -, hphrase⟩ := h
          obtain ⟨⟨c, hc, hcword⟩, -⟩ := ends_of_spells hword hletters hspells
          obtain ⟨-, d, hd, hdword⟩ := ih (fun other hother => hwords other (List.mem_cons_of_mem word hother))
            (List.cons_ne_nil next words) hphrase
          refine ⟨⟨c, ?_, hcword⟩, d, ?_, hdword⟩
          · rw [List.head?_append, Option.mem_def.mp hc]
            rfl
          · rw [List.getLast?_append, List.getLast?_append, Option.mem_def.mp hd]
            rfl

theorem stops_iff {accepts : Char → Bool} : Stops accepts t ↔ t.head?.any accepts = false := by
  cases t <;> simp

/-- Words that are read stand behind something else than a word character. -/
theorem exists_of_mem_words (hwords : Lettered words) (hne : words ≠ [])
    (h : r ∈ (front ++ wordEdge ++ phrase words).readings before t) : ∃ a ∈ front.readings before t, ∃ w,
      a.rest = w ++ r.rest ∧ IsPhrase words w ∧ (lastOf before a.read).any isWordChar = false ∧
        (lastOf before r.read).any isWordChar := by
  obtain ⟨d, hd, b, hb, rfl⟩ := mem_readings_seq.mp h
  obtain ⟨a, ha, e, he, rfl⟩ := mem_readings_seq.mp hd
  obtain ⟨rfl, hedge⟩ := mem_readings_wordEdge.mp he
  obtain ⟨-, hphrase, htext⟩ := mem_readings_phrase.mp hb
  obtain ⟨⟨c, hc, hcword⟩, d, hd, hdword⟩ := ends_of_isPhrase hwords hne hphrase
  have htext : b.read ++ b.rest = a.rest := htext
  refine ⟨a, ha, b.read, htext.symm, hphrase, ?_, ?_⟩
  · rw [← htext, List.head?_append, Option.mem_def.mp hc] at hedge
    simpa [hcword] using hedge
  · rw [Match.andThen_read, lastOf_append, lastOf_eq, Option.mem_def.mp hd]
    exact hdword

theorem exists_of_mem_wordMarker (hwords : Lettered words) (hne : words ≠ [])
    (h : r ∈ (wordMarker front words).readings before t) :
    ∃ a ∈ (front ++ wordEdge ++ phrase words).readings before t, Stops isWordChar a.rest := by
  obtain ⟨a, ha, e, he, rfl⟩ := mem_readings_seq.mp h
  obtain ⟨-, hedge⟩ := mem_readings_wordEdge.mp he
  obtain ⟨-, -, -, -, -, -, hlast⟩ := exists_of_mem_words hwords hne ha
  refine ⟨a, ha, stops_iff.mpr ?_⟩
  simpa [hlast] using hedge

theorem wordMarker_ne_nil (hskip : front.Skippable) (hwords : Lettered words) (hne : words ≠ [])
    (h : IsPhrase words w) (hbefore : before.any isWordChar = false) (hy : Stops isWordChar y) :
    (wordMarker front words).readings before (w ++ y) ≠ [] := by
  obtain ⟨⟨c, hc, hcword⟩, d, hd, hdword⟩ := ends_of_isPhrase hwords hne h
  have hstart : ⟨[], [], w ++ y⟩ ∈ (wordEdge : SqlPattern).readings before (w ++ y) := by
    refine mem_readings_wordEdge.mpr ⟨rfl, ?_⟩
    rw [hbefore, List.head?_append, Option.mem_def.mp hc]
    simpa using hcword
  have hend : ⟨[], [], y⟩ ∈ (wordEdge : SqlPattern).readings (lastOf before w) y := by
    refine mem_readings_wordEdge.mpr ⟨rfl, ?_⟩
    rw [lastOf_eq, Option.mem_def.mp hd, stops_iff.mp hy]
    simpa using hdword
  have hphrase : ⟨w, [], y⟩ ∈ (phrase words : SqlPattern).readings before (w ++ y) :=
    mem_readings_phrase.mpr ⟨rfl, h, rfl⟩
  have hfront := mem_readings_seq.mpr ⟨_, hskip before (w ++ y), _, hstart, rfl⟩
  have hwhole := mem_readings_seq.mpr ⟨_, mem_readings_seq.mpr ⟨_, hfront, _, hphrase, rfl⟩, _, hend, rfl⟩
  exact List.ne_nil_of_mem hwhole

theorem consumes_wordMarker (hwords : Lettered words) (hne : words ≠ []) : (wordMarker front words).Consumes := by
  intro before t r hr hnothing
  obtain ⟨a, ha, e, he, rfl⟩ := mem_readings_seq.mp hr
  obtain ⟨d, hd, b, hb, rfl⟩ := mem_readings_seq.mp ha
  obtain ⟨⟨c, hc, -⟩, -⟩ := ends_of_isPhrase hwords hne (mem_readings_phrase.mp hb).2.1
  simp only [Match.andThen_read, List.append_eq_nil_iff] at hnothing
  rw [hnothing.1.2] at hc
  cases hc

theorem standsOutside_of_mem (hfront : front.Blind) (hwords : Lettered words) (hne : words ≠ []) (ht : Unquoted t)
    (hnested : WellNested t) (hxy : t = x ++ y) (htop : Nesting.after x = .outermost)
    (h : r ∈ (front ++ wordEdge ++ phrase words).readings (lastOf none x) y) (hstop : Stops isWordChar r.rest) :
    StandsOutside words t := by
  obtain ⟨a, ha, w, hrest, hphrase, hbefore, -⟩ := exists_of_mem_words hwords hne h
  have hfree := hfront.isFree_of_mem (ht.sublist (hxy ▸ List.sublist_append_right x y)) ha
  have htext : y = a.read ++ (w ++ r.rest) := by rw [← hrest, readings_text _ _ _ a ha]
  have hlevel : Nesting.after (x ++ a.read) = .outermost := by
    rw [Nesting.after] at htop ⊢
    rw [List.foldl_append, htop, foldl_next_of_free hfree]
  have hwhole : t = (x ++ a.read) ++ (w ++ r.rest) := by rw [hxy, htext, List.append_assoc]
  refine ⟨x ++ a.read, w, r.rest, hwhole, hnested.of_outermost hwhole hlevel, hphrase, ?_, hstop⟩
  rw [← lastOf_append, lastOf_eq, Option.or_none] at hbefore
  intro c hc
  rwa [Option.mem_def.mp hc] at hbefore

theorem readAtTop_wordMarker (hfront : front.Blind) (hskip : front.Skippable) (hwords : Lettered words)
    (hne : words ≠ []) (ht : Unquoted t) (hnested : WellNested t) :
    (wordMarker front words).ReadAtTop t ↔ StandsOutside words t := by
  constructor
  · rintro ⟨x, y, hxy, htop, hread⟩
    obtain ⟨r, hr⟩ := Option.ne_none_iff_exists'.mp hread
    obtain ⟨a, ha, hstop⟩ := exists_of_mem_wordMarker hwords hne (mem_of_read? hr)
    exact standsOutside_of_mem hfront hwords hne ht hnested hxy htop ha hstop
  · rintro ⟨x, w, y, hxy, hx, hphrase, hlast, hstop⟩
    refine ⟨x, w ++ y, hxy, hx.enclosed.level 0, fun hnone => ?_⟩
    have hbefore : (lastOf none x).any isWordChar = false := by
      rw [lastOf_eq, Option.or_none]
      cases hc : x.getLast? with
      | none => rfl
      | some c => exact hlast c hc
    exact wordMarker_ne_nil hskip hwords hne hphrase hbefore hstop (readings_eq_nil_iff.mpr hnone)

theorem blind_wordMarker (hfront : front.Blind) (hwords : Lettered words) : Blind (wordMarker front words) :=
  ((hfront.seq blind_wordEdge).seq (blind_phrase fun word hword => (hwords word hword).2)).seq blind_wordEdge

theorem skippable_gap : Skippable gap := fun _ _ => mem_readings_run.mpr ⟨rfl, rfl, fun _ hc => nomatch hc⟩

theorem skippable_named : Skippable (gap ++ markerName) := fun before t =>
  mem_readings_seq.mpr ⟨_, skippable_gap before t, ⟨[], [], t⟩,
    List.mem_append_right _ (List.mem_singleton_self _), rfl⟩

theorem blind_markerName : Blind markerName :=
  ((((blind_wordEdge.seq (blind_keyword (by decide))).seq blind_blanks).seq blind_identifier).seq blind_blanks).maybe

theorem blind_named : Blind (gap ++ markerName) := blind_gap.seq blind_markerName

theorem blind_primaryKeyMarker : Blind primaryKeyMarker := blind_wordMarker blind_named (by decide)

theorem blind_notNullMarker : Blind notNullMarker := blind_wordMarker blind_gap (by decide)

theorem blind_nullMarker : Blind nullMarker :=
  ((blind_gap.seq blind_wordEdge).seq (blind_keyword (by decide))).seq blind_wordEdge

end SqlPattern

namespace Markers

/-- Words are taken off a text if and only if they stand in it outside of literals and parentheses. -/
theorem takeAll_words (hfront : front.Blind) (hskip : front.Skippable) (hwords : Lettered words) (hne : words ≠ [])
    (ht : Unquoted t) (hnested : WellNested t) :
    (takeAll (wordMarker front words) t).2 = true ↔ StandsOutside words t :=
  (takeAll_iff (blind_wordMarker hfront hwords) (consumes_wordMarker hwords hne) ht).trans
    (readAtTop_wordMarker hfront hskip hwords hne ht hnested)

/-- The same words stand outside in two texts that differ in what stands in literals and parentheses only. -/
theorem standsOutside_iff (h : Refilled xs ys t u) (ht : Unquoted t) (hu : Unquoted u) (hwords : Lettered words)
    (hne : words ≠ []) : StandsOutside words t ↔ StandsOutside words u := by
  obtain ⟨hsame, -⟩ := takeAll_refilled (blind_wordMarker blind_gap hwords) (consumes_wordMarker hwords hne) h ht hu
  rw [← takeAll_words blind_gap skippable_gap hwords hne ht h.wellNested,
    ← takeAll_words blind_gap skippable_gap hwords hne hu h.symm.wellNested, hsame]

/-- A text without the word `REFERENCES` at the top level holds no reference there. -/
theorem topLevel_reference (ht : Unquoted t) (hnested : WellNested t) (h : ¬ StandsOutside ["REFERENCES"] t) :
    referenceMarker.topLevel t = [] := by
  rw [topLevel, List.filter_eq_nil_iff]
  intro o ho htop
  obtain ⟨v, htext, hread⟩ := exists_of_mem_occurrences ho
  -- the name, the word and the blanks behind it are read in front of the table
  have hopening : (gap ++ markerName ++ wordEdge ++ keyword "REFERENCES" ++ blanks : SqlPattern).read?
      (lastOf none o.before) v ≠ none := fun hnone => by
    have hnothing : referenceMarker.read? (lastOf none o.before) v = none :=
      read?_seq_none (read?_seq_none (read?_seq_none (read?_seq_none (read?_seq_none (read?_seq_none
        (read?_seq_none hnone))))))
    rw [hread] at hnothing
    cases hnothing
  obtain ⟨r, hr⟩ := Option.ne_none_iff_exists'.mp hopening
  obtain ⟨a, ha, g, hg, -⟩ := mem_readings_seq.mp (mem_of_read? hr)
  obtain ⟨hgne, -, hgtext, hblank⟩ := mem_readings_run1 hg
  have hstop : Stops isWordChar a.rest := by
    obtain ⟨c, z, hcz⟩ := List.exists_cons_of_ne_nil hgne
    rw [hgtext, hcz, List.cons_append, stops_cons]
    exact isWordChar_eq_false_of_isBlank (hblank c (hcz ▸ List.mem_cons_self))
  exact h (standsOutside_of_mem blind_named (by decide) (by decide) ht hnested htext
    (eq_of_beq htop) ha hstop)

theorem take_of_no_reference (h : referenceMarker.topLevel t = []) (bareNull : Bool) : take bareNull t =
    (Text.trim (if bareNull then (takeAll nullMarker (takeAll notNullMarker (takeAll primaryKeyMarker t).1).1).1
      else (takeAll notNullMarker (takeAll primaryKeyMarker t).1).1),
      ⟨(takeAll primaryKeyMarker t).2, (takeAll notNullMarker (takeAll primaryKeyMarker t).1).2, none⟩) := by
  rw [take, takeReference, h]

/-- Markers of two texts that differ in what stands in literals and parentheses only. If no reference stands outside
of those, the markers are the same, and what is left of the texts differs in the same way as the texts. A key or the
exclusion of null is found if and only if its words stand outside of literals and parentheses. -/
theorem take_refilled (h : Refilled xs ys t u) (ht : Unquoted t) (hu : Unquoted u)
    (href : ¬ StandsOutside ["REFERENCES"] t) (bareNull : Bool) :
    (take bareNull u).2 = (take bareNull t).2 ∧ (take bareNull t).2.reference = none ∧
    Refilled xs ys (take bareNull t).1 (take bareNull u).1 ∧
    ((take bareNull t).2.primaryKey = true ↔ StandsOutside ["PRIMARY", "KEY"] t) ∧
    ((take bareNull t).2.notNull = true ↔ StandsOutside ["NOT", "NULL"] (takeAll primaryKeyMarker t).1) := by
  have hprimaryConsumes : primaryKeyMarker.Consumes := consumes_of_not_nullable rfl
  have hnotNullConsumes : notNullMarker.Consumes := consumes_of_not_nullable rfl
  obtain ⟨hprimary, hfirst⟩ := takeAll_refilled blind_primaryKeyMarker hprimaryConsumes h ht hu
  have htfirst := unquoted_takeAll hprimaryConsumes ht
  have hufirst := unquoted_takeAll hprimaryConsumes hu
  obtain ⟨hnotNull, hsecond⟩ := takeAll_refilled blind_notNullMarker hnotNullConsumes hfirst htfirst hufirst
  have hthird := takeAll_refilled blind_nullMarker (consumes_of_not_nullable rfl) hsecond
    (unquoted_takeAll hnotNullConsumes htfirst) (unquoted_takeAll hnotNullConsumes hufirst)
  have huref : ¬ StandsOutside ["REFERENCES"] u :=
    mt (standsOutside_iff h ht hu (by decide) (by decide)).mpr href
  rw [take_of_no_reference (topLevel_reference ht h.wellNested href),
    take_of_no_reference (topLevel_reference hu h.symm.wellNested huref)]
  refine ⟨by simp only [hprimary, hnotNull], rfl, ?_, ?_, ?_⟩
  · refine Refilled.trim ?_
    split
    · exact hthird.2
    · exact hsecond
  · exact takeAll_words blind_named skippable_named (by decide) (by decide) ht h.wellNested
  · exact takeAll_words blind_gap skippable_gap (by decide) (by decide) htfirst hfirst.wellNested

/-- The type of a column with a value, a check and a marker. -/
def checkedColumn (value check : Text) : Text :=
  "text DEFAULT ".toList ++ '\'' :: (value ++ '\'' :: (" CHECK ".toList ++ '(' :: (check ++ ')' :: " NOT NULL".toList)))

theorem refilled_checkedColumn {v w : Text} (hx : ∀ c ∈ x, c ≠ '\'') (hy : ∀ c ∈ y, c ≠ '\'') (hv : WellNested v)
    (hw : WellNested w) : Refilled [x, v] [y, w] (checkedColumn x v) (checkedColumn y w) := by
  have hmarker : Refilled [] [] (" NOT NULL".toList ++ []) (" NOT NULL".toList ++ []) := .append (by decide) .nil
  rw [List.append_nil] at hmarker
  exact .append (by decide) (.literal hx hy (.append (by decide) (.group hv hw hmarker)))

theorem take_misleading_texts :
    ¬ StandsOutside ["REFERENCES"] (checkedColumn "REFERENCES a(b".toList "b IS NOT NULL".toList) ∧
    take true (checkedColumn "REFERENCES a(b".toList "b IS NOT NULL".toList) =
      ("text DEFAULT 'REFERENCES a(b' CHECK (b IS NOT NULL)".toList, ⟨false, true, none⟩) ∧
    (take true (checkedColumn "PRIMARY KEY)".toList "f(b) <> ')'".toList)).2 = ⟨false, true, none⟩ ∧
    Refilled ["REFERENCES a(b".toList, "b IS NOT NULL".toList] ["PRIMARY KEY)".toList, "f(b) <> ')'".toList]
      "text DEFAULT 'REFERENCES a(b' CHECK (b IS NOT NULL)".toList
      (take true (checkedColumn "PRIMARY KEY)".toList "f(b) <> ')'".toList)).1 := by
  have hcall : WellNested "f(b) <> ')'".toList :=
    .free (by decide) (.group (x := ['b']) (.of_free (by decide)) (.free (by decide) (.free (by decide)
      (.free (by decide) (.free (by decide) (.literal (x := [')']) (by decide) .nil))))))
  have h := refilled_checkedColumn (x := "REFERENCES a(b".toList) (y := "PRIMARY KEY)".toList) (by decide) (by decide)
    (v := "b IS NOT NULL".toList) (.of_free (by decide)) hcall
  have href : ¬ StandsOutside ["REFERENCES"] (checkedColumn "REFERENCES a(b".toList "b IS NOT NULL".toList) := by
    rw [← takeAll_words blind_gap skippable_gap (by decide) (by decide) (by decide) h.wellNested]
    decide +kernel
  have htaken : take true (checkedColumn "REFERENCES a(b".toList "b IS NOT NULL".toList) =
      ("text DEFAULT 'REFERENCES a(b' CHECK (b IS NOT NULL)".toList, ⟨false, true, none⟩) := by decide +kernel
  obtain ⟨hsame, -, hrest, -⟩ := take_refilled h (by decide) (by decide) href true
  rw [htaken] at hsame hrest
  exact ⟨href, htaken, hsame, hrest⟩

end Markers
end SchemaDump
