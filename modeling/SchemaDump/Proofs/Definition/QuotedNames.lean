import SchemaDump.Proofs.Definition.KeyDefinition
import SchemaDump.Proofs.Definition.Split
import SchemaDump.Proofs.Pattern.Parts
/- The names in quotes that a text holds, wherever a name may be expected in it. An identifier that is read
behind one of the words in front of a table's name is one of them, unless it has a character that is left
when the quotes are gone. -/
namespace SchemaDump
open SqlPattern Pattern

/-- Words that the name of a table stands behind. -/
def tableWords : List String := ["TABLE", "EXISTS", "REFERENCES"]

namespace SqlPattern

/-- The start of a line, or a word in front of a table's name. -/
def nameFront : SqlPattern := alt (anyOf (tableWords.map keyword) ++ blanks) (literal "\n" ++ gap)

/-- A name in quotes behind a word in front of a table's name, at the start of a line, or behind a
parenthesis. Double quotes behind a parenthesis may be those of a literal. -/
def placedName : SqlPattern :=
  alt (nameFront ++ part .name (alt (quotedIdentifier '"') (quotedIdentifier backQuote)))
    (literal "(" ++ gap ++ part .name (quotedIdentifier backQuote))

end SqlPattern

/-- The names in quotes of a text, each with its quotes. -/
def quotedNames (t : Text) : List Text :=
  (stretches (fun _ => true) t).flatMap fun s => (placedName.readings none s.2).map (·.part .name)

/-- Whether an identifier consists of quotes and blanks only. Bare identifiers do not. -/
def isHollow (identifier : Text) : Bool :=
  identifier.all fun c => c == '"' || c == backQuote || isBlank c

/-- Whether an identifier consists of quotes and blanks only, apart from comment lines in it. -/
def isVoid (identifier : Text) : Bool :=
  (identifier.splitAtChar '\n').all fun line => isHollow line || isCommentLine line

variable {t u v w : Text} {name front : Text} {quote : Char} {before : Option Char} {r : Match Part}

/-- What stands in front of a name in quotes. -/
inductive NameFront (quote : Char) : Text → Prop
  | word {word : String} {written space : Text} (hword : word ∈ tableWords)
      (hwritten : spells sameLetter word.toList written) (hne : space ≠ []) (hspace : ∀ c ∈ space, isBlank c) :
      NameFront quote (written ++ space)
  | line {space : Text} (hspace : ∀ c ∈ space, isBlank c) : NameFront quote ('\n' :: space)
  | parenthesis {space : Text} (hquote : quote = backQuote) (hspace : ∀ c ∈ space, isBlank c) :
      NameFront quote ('(' :: space)

/-- A name in a pair of quotes. -/
structure InQuotes (quote : Char) (name : Text) : Prop where
  isQuote : quote = '"' ∨ quote = backQuote
  enclosed : ∃ inner, inner ≠ [] ∧ quote ∉ inner ∧ name = quote :: (inner ++ [quote])

theorem mem_readings_anyOf_keyword {words : List String} (h : r ∈ (anyOf (words.map keyword) : SqlPattern).readings before t) :
    ∃ word ∈ words, r ∈ (keyword word : SqlPattern).readings before t := by
  induction words with
  | nil =>
      obtain ⟨c, hc, -⟩ := mem_readings_one h
      cases hc
  | cons word words ih =>
      cases words with
      | nil => exact ⟨word, List.mem_cons_self, h⟩
      | cons next words =>
          rcases List.mem_append.mp h with h | h
          · exact ⟨word, List.mem_cons_self, h⟩
          · obtain ⟨other, hother, hr⟩ := ih h
            exact ⟨other, List.mem_cons_of_mem _ hother, hr⟩

theorem inQuotes_of_mem (hquote : quote = '"' ∨ quote = backQuote) (hr : r ∈ (quotedIdentifier quote).readings before t) :
    InQuotes quote r.read := by
  obtain ⟨x, hne, hx, -, hread, -⟩ := mem_readings_quotedIdentifier hr
  exact ⟨hquote, x, hne, hx, hread⟩

theorem InQuotes.mem_readings (h : InQuotes quote name) (before : Option Char) (v : Text) :
    (⟨name, [], v⟩ : Match Part) ∈ (quotedIdentifier quote).readings before (name ++ v) := by
  obtain ⟨inner, hne, hinner, rfl⟩ := h.enclosed
  exact mem_of_read? (reads_within (reads_unquotedRun hne hinner _) before)

theorem InQuotes.stops (h : InQuotes quote name) (v : Text) : Stops isBlank (name ++ v) := by
  obtain ⟨inner, -, -, rfl⟩ := h.enclosed
  rcases h.isQuote with rfl | rfl <;> exact stops_cons.mpr (by decide)

theorem nameFront_of_mem (hr : r ∈ nameFront.readings before t) (quote : Char) : NameFront quote r.read := by
  rcases List.mem_append.mp hr with hr | hr
  · obtain ⟨a, ha, b, hb, rfl⟩ := mem_readings_seq.mp hr
    obtain ⟨word, hword, ha⟩ := mem_readings_anyOf_keyword ha
    obtain ⟨hne, -, -, hblank⟩ := mem_readings_run1 hb
    exact .word hword (mem_readings_keyword.mp ha).2.1 hne hblank
  · obtain ⟨a, ha, b, hb, rfl⟩ := mem_readings_seq.mp hr
    rw [Match.andThen_read, (mem_readings_literal.mp ha).2.1]
    exact .line (mem_readings_run.mp hb).2.2

theorem part_name_of_labelled (a b : Match Part) : (a.andThen (b.labelled .name)).part .name = b.read := by
  simp [Match.part, Match.part?]

/-- Each of the names stands behind something that may stand in front of one. -/
theorem exists_of_mem_quotedNames (h : name ∈ quotedNames t) :
    ∃ quote x front y, InQuotes quote name ∧ NameFront quote front ∧ t = x ++ (front ++ (name ++ y)) := by
  obtain ⟨s, hs, hname⟩ := List.mem_flatMap.mp h
  obtain ⟨r, hr, rfl⟩ := List.mem_map.mp hname
  have hsplit := (mem_stretches.mp hs).1
  rcases List.mem_append.mp hr with hr | hr
  · obtain ⟨a, ha, b, hb, rfl⟩ := mem_readings_seq.mp hr
    obtain ⟨c, hc, rfl⟩ := List.mem_map.mp hb
    have htext : t = s.1 ++ (a.read ++ (c.read ++ c.rest)) := by
      rw [readings_text _ _ _ c hc, readings_text _ _ _ a ha, hsplit]
    rw [part_name_of_labelled]
    rcases List.mem_append.mp hc with hc | hc
    · exact ⟨'"', s.1, a.read, c.rest, inQuotes_of_mem (.inl rfl) hc, nameFront_of_mem ha _, htext⟩
    · exact ⟨backQuote, s.1, a.read, c.rest, inQuotes_of_mem (.inr rfl) hc, nameFront_of_mem ha _, htext⟩
  · obtain ⟨a, ha, b, hb, rfl⟩ := mem_readings_seq.mp hr
    obtain ⟨c, hc, rfl⟩ := List.mem_map.mp hb
    have htext : t = s.1 ++ (a.read ++ (c.read ++ c.rest)) := by
      rw [readings_text _ _ _ c hc, readings_text _ _ _ a ha, hsplit]
    have hfront : NameFront backQuote a.read := by
      obtain ⟨d, hd, e, he, rfl⟩ := mem_readings_seq.mp ha
      rw [Match.andThen_read, (mem_readings_literal.mp hd).2.1]
      exact .parenthesis rfl (mem_readings_run.mp he).2.2
    rw [part_name_of_labelled]
    exact ⟨backQuote, s.1, a.read, c.rest, inQuotes_of_mem (.inr rfl) hc, hfront, htext⟩

theorem NameFront.mem_readings (h : NameFront quote front) (hv : Stops isBlank v) :
    (⟨front, [], v⟩ : Match Part) ∈ nameFront.readings none (front ++ v) ∨
      quote = backQuote ∧ (⟨front, [], v⟩ : Match Part) ∈ (literal "(" ++ gap).readings none (front ++ v) := by
  cases h with
  | @word word written space hword hwritten hne hspace =>
      have hkeyword : (⟨written, [], space ++ v⟩ : Match Part) ∈
          (keyword word : SqlPattern).readings none (written ++ (space ++ v)) :=
        mem_readings_keyword.mpr ⟨rfl, hwritten, rfl⟩
      have hblanks := mem_of_read? (reads_run1 (ι := Part) hne hspace hv (lastOf none written))
      refine .inl (List.mem_append_left _ ?_)
      rw [List.append_assoc]
      exact mem_readings_seq.mpr ⟨_, mem_readings_anyOf (List.mem_map_of_mem hword) hkeyword, _, hblanks, rfl⟩
  | @line space hspace =>
      have hfeed : (⟨['\n'], [], space ++ v⟩ : Match Part) ∈
          (literal "\n" : SqlPattern).readings none ('\n' :: (space ++ v)) :=
        mem_readings_literal.mpr ⟨rfl, rfl, rfl⟩
      have hgap := mem_of_read? (reads_run (ι := Part) hspace hv (lastOf none ['\n']))
      exact .inl (List.mem_append_right _ (mem_readings_seq.mpr ⟨_, hfeed, _, hgap, rfl⟩))
  | @parenthesis space hquote hspace =>
      have hopen : (⟨['('], [], space ++ v⟩ : Match Part) ∈
          (literal "(" : SqlPattern).readings none ('(' :: (space ++ v)) :=
        mem_readings_literal.mpr ⟨rfl, rfl, rfl⟩
      have hgap := mem_of_read? (reads_run (ι := Part) hspace hv (lastOf none ['(']))
      exact .inr ⟨hquote, mem_readings_seq.mpr ⟨_, hopen, _, hgap, rfl⟩⟩

/-- A name in quotes is among the names where something stands in front of it that may. -/
theorem InQuotes.mem_quotedNames (h : InQuotes quote name) (hfront : NameFront quote front) (x y : Text) :
    name ∈ quotedNames (x ++ (front ++ (name ++ y))) := by
  refine List.mem_flatMap.mpr ⟨(x, front ++ (name ++ y)), mem_stretches.mpr ⟨rfl, fun _ _ => rfl⟩, ?_⟩
  have hname := fun before => h.mem_readings before y
  -- Behind a front that is read, the name is the part of the reading.
  have hread : ∀ {p q : SqlPattern}, (⟨front, [], name ++ y⟩ : Match Part) ∈ p.readings none (front ++ (name ++ y)) →
      (⟨name, [], y⟩ : Match Part) ∈ q.readings (lastOf none front) (name ++ y) →
        ∃ r ∈ (p ++ part .name q).readings none (front ++ (name ++ y)), r.part .name = name := by
    intro p q hp hq
    exact ⟨_, mem_readings_seq.mpr ⟨_, hp, _, List.mem_map_of_mem hq, rfl⟩, part_name_of_labelled _ _⟩
  rcases hfront.mem_readings (h.stops y) with hp | ⟨rfl, hp⟩
  · have hq : (⟨name, [], y⟩ : Match Part) ∈
        (alt (quotedIdentifier '"') (quotedIdentifier backQuote)).readings (lastOf none front) (name ++ y) := by
      rcases h.isQuote with rfl | rfl
      · exact List.mem_append_left _ (hname _)
      · exact List.mem_append_right _ (hname _)
    obtain ⟨r, hr, hpart⟩ := hread hp hq
    exact List.mem_map.mpr ⟨r, List.mem_append_left _ hr, hpart⟩
  · obtain ⟨r, hr, hpart⟩ := hread hp (hname _)
    exact List.mem_map.mpr ⟨r, List.mem_append_right _ hr, hpart⟩

theorem mem_quotedNames_of_isInfix (ht : t <:+: u) (h : name ∈ quotedNames t) : name ∈ quotedNames u := by
  obtain ⟨quote, x, front, y, hname, hfront, rfl⟩ := exists_of_mem_quotedNames h
  obtain ⟨a, b, rfl⟩ := ht
  have hmem := hname.mem_quotedNames hfront (a ++ x) (y ++ b)
  simpa only [List.append_assoc] using hmem

/-- Whether no name in quotes consists of quotes and blanks only. -/
def Solid (t : Text) : Prop := ∀ name ∈ quotedNames t, isHollow name = false

theorem Solid.within (h : Solid u) (ht : t <:+: u) : Solid t :=
  fun name hname => h name (mem_quotedNames_of_isInfix ht hname)

/-- Whether all that a pattern reads is a name in quotes, unless it has other characters than quotes and blanks. -/
def HollowInQuotes (p : SqlPattern) : Prop :=
  ∀ before t, ∀ r ∈ p.readings before t, isHollow r.read → ∃ quote, InQuotes quote r.read

theorem hollowInQuotes_quoted (hquote : quote = '"' ∨ quote = backQuote) : HollowInQuotes (quotedIdentifier quote) :=
  fun _ _ _ hr _ => ⟨quote, inQuotes_of_mem hquote hr⟩

theorem hollowInQuotes_run1 {accepts : Char → Bool} (h : ∀ c, accepts c → isHollow [c] = false)
    (preference : Preference) : HollowInQuotes (run1 accepts preference) := by
  intro before t r hr hhollow
  obtain ⟨hne, -, -, hall⟩ := mem_readings_run1 hr
  obtain ⟨c, rest, hread⟩ := List.exists_cons_of_ne_nil hne
  have hc := h c (hall c (by simp [hread]))
  rw [hread] at hhollow
  simp [isHollow] at hc hhollow
  grind

theorem HollowInQuotes.alt {p q : SqlPattern} (hp : HollowInQuotes p) (hq : HollowInQuotes q) :
    HollowInQuotes (Pattern.alt p q) :=
  fun before t r hr => (List.mem_append.mp hr).elim (hp before t r) (hq before t r)

theorem HollowInQuotes.maybe {p q : SqlPattern} (hp : HollowInQuotes p)
    (hq : ∀ before t, ∀ r ∈ q.readings before t, isHollow r.read = false) :
    HollowInQuotes (p ++ Pattern.maybe q) := by
  intro before t r hr hhollow
  obtain ⟨a, ha, b, hb, rfl⟩ := mem_readings_seq.mp hr
  rcases mem_readings_maybe.mp hb with hb | rfl
  · have hb := hq _ _ b hb
    rw [Match.andThen_read, isHollow, List.all_append, Bool.and_eq_true_iff] at hhollow
    rw [isHollow, hhollow.2] at hb
    cases hb
  · rw [Match.andThen_read, List.append_nil] at hhollow ⊢
    exact hp _ _ a ha hhollow

end SchemaDump
