import SchemaDump.Proofs.PostgreSQL.Alteration
import SchemaDump.Proofs.PostgreSQL.KeyLine
/- Quoted names that look like statements. A reading that starts within a quoted name stays within it,
since it would have to read the quote behind the name, and finds no parenthesis there. -/
namespace SchemaDump.PostgreSQL
open SqlPattern Pattern

variable {before : Option Char} {p q : SqlPattern} {t u v : Text} {A B C : Text → Prop}

/-- The end of a quoted name. -/
structure NameEnd (t : Text) : Prop where
  chars : ∀ c ∈ t, isWordChar c ∨ c = ' '
  solid : ∀ c ∈ t.getLast?, isBlank c = false

/-- The end of a quoted name with something left of it. -/
def Inside (t : Text) : Prop := NameEnd t ∧ t ≠ []

theorem NameEnd.suffix (h : NameEnd (u ++ t)) : NameEnd t := by
  refine ⟨fun c hc => h.chars c (List.mem_append_right u hc), fun c hc => h.solid c ?_⟩
  rw [List.getLast?_append, Option.mem_def.mp hc]
  rfl

/-- In front of the end of a name of one kind, the readings of a pattern stop in front of an end of
another kind. -/
def Moves (A B : Text → Prop) (p : SqlPattern) : Prop :=
  ∀ t v before, A t → ∀ r ∈ p.readings before (t ++ '"' :: v), ∃ z, B z ∧ r.rest = z ++ '"' :: v

namespace Moves

theorem seq (hp : Moves A B p) (hq : Moves B C q) : Moves A C (p ++ q) := by
  intro t v before ht r hr
  obtain ⟨a, ha, b, hb, rfl⟩ := mem_readings_seq.mp hr
  obtain ⟨z, hz, hrest⟩ := hp t v before ht a ha
  rw [hrest] at hb
  exact hq z v _ hz b hb

theorem mono {A' B' : Text → Prop} (h : Moves A B p) (ha : ∀ t, A' t → A t) (hb : ∀ t, B t → B' t) :
    Moves A' B' p := by
  intro t v before ht r hr
  obtain ⟨z, hz, hrest⟩ := h t v before (ha t ht) r hr
  exact ⟨z, hb z hz, hrest⟩

theorem alt (hp : Moves A B p) (hq : Moves A B q) : Moves A B (Pattern.alt p q) := by
  intro t v before ht r hr
  rcases List.mem_append.mp hr with hr | hr
  · exact hp t v before ht r hr
  · exact hq t v before ht r hr

theorem maybe (h : Moves A A p) : Moves A A (Pattern.maybe p) := by
  refine h.alt ?_
  intro t v before ht r hr
  rw [List.mem_singleton.mp hr]
  exact ⟨t, ht, rfl⟩

theorem part (label : Part) (h : Moves A B p) : Moves A B (Pattern.part label p) := by
  intro t v before ht r hr
  obtain ⟨a, ha, rfl⟩ := List.mem_map.mp hr
  exact h t v before ht a ha

theorem stuck (h : Moves A (fun _ => False) p) (q : SqlPattern) : Moves A (fun _ => False) (p ++ q) :=
  h.seq fun _ _ _ hfalse => hfalse.elim

theorem rejects (h : Moves A (fun _ => False) p) (ht : A t) (v : Text) : p.Rejects (t ++ '"' :: v) := by
  intro before
  rw [← readings_eq_nil_iff, List.eq_nil_iff_forall_not_mem]
  intro r hr
  obtain ⟨z, hz, -⟩ := h t v before ht r hr
  exact hz

end Moves

theorem exists_suffix_of_not_mem {x y v : Text} (h : x ++ y = t ++ '"' :: v) (hx : '"' ∉ x) :
    ∃ z, t = x ++ z ∧ y = z ++ '"' :: v := by
  rcases exists_append_of_length h with hz | ⟨c, z, rfl, hv⟩
  · exact hz
  · obtain ⟨rfl, -⟩ := List.cons.inj hv
    exact absurd (List.mem_append_right t List.mem_cons_self) hx

theorem quote_not_mem_of_forall {accepts : Char → Bool} (hquote : accepts '"' = false)
    (h : ∀ c ∈ t, accepts c) : '"' ∉ t := by
  intro hmem
  rw [h _ hmem] at hquote
  cases hquote

theorem moves_keyword (word : String) (hword : ∀ c ∈ word.toList, c.isAlpha) :
    Moves NameEnd NameEnd (keyword word) := by
  intro t v before ht r hr
  obtain ⟨-, hspells, htext⟩ := mem_readings_keyword.mp hr
  have hquote := quote_not_mem_of_forall (by decide) (isWordChar_of_spells hword hspells)
  obtain ⟨z, rfl, hrest⟩ := exists_suffix_of_not_mem htext hquote
  exact ⟨z, ht.suffix, hrest⟩

theorem moves_gap : Moves NameEnd NameEnd gap := by
  intro t v before ht r hr
  obtain ⟨-, htext, hall⟩ := mem_readings_run.mp hr
  obtain ⟨z, rfl, hrest⟩ := exists_suffix_of_not_mem htext (quote_not_mem_of_forall (by decide) hall)
  exact ⟨z, ht.suffix, hrest⟩

theorem moves_blanks : Moves NameEnd Inside blanks := by
  intro t v before ht r hr
  obtain ⟨hne, -, htext, hall⟩ := mem_readings_run1 hr
  obtain ⟨z, rfl, hrest⟩ :=
    exists_suffix_of_not_mem htext.symm (quote_not_mem_of_forall (by decide) hall)
  refine ⟨z, ⟨ht.suffix, ?_⟩, hrest⟩
  rintro rfl
  cases hlast : r.read.getLast? with
  | none => exact hne (List.getLast?_eq_none_iff.mp hlast)
  | some c =>
      have hsolid := ht.solid c (by rw [List.append_nil, hlast]; rfl)
      rw [hall c (List.mem_of_getLast? hlast)] at hsolid
      cases hsolid

theorem moves_phrase {words : List String} (hwords : ∀ word ∈ words, ∀ c ∈ word.toList, c.isAlpha) :
    Moves NameEnd NameEnd (phrase words) := by
  induction words with
  | nil =>
      intro t v before ht r hr
      rw [List.mem_singleton.mp hr]
      exact ⟨t, ht, rfl⟩
  | cons word words ih =>
      have hfirst := moves_keyword word (hwords word List.mem_cons_self)
      have hrest := ih fun w hw => hwords w (List.mem_cons_of_mem word hw)
      cases words with
      | nil => exact hfirst
      | cons next words =>
          exact (hfirst.seq moves_blanks).seq (hrest.mono (fun _ h => h.1) fun _ h => h)

theorem moves_identifier : Moves Inside NameEnd identifier := by
  rintro t v before ⟨ht, hne⟩ r hr
  obtain ⟨c, rest, rfl⟩ := List.exists_cons_of_ne_nil hne
  have hquoted : ∀ quote, isWordChar quote = false → quote ≠ ' ' →
      r ∉ (quotedIdentifier quote).readings before (c :: rest ++ '"' :: v) := by
    intro quote hword hblank hmem
    obtain ⟨x, -, -, -, -, htext⟩ := mem_readings_quotedIdentifier hmem
    obtain ⟨rfl, -⟩ := List.cons.inj htext
    rcases ht.chars c List.mem_cons_self with h | h
    · rw [hword] at h
      cases h
    · exact hblank h
  simp only [identifier, anyOf, readings_alt, List.mem_append] at hr
  rcases hr with hr | hr | hr
  · exact absurd hr (hquoted '"' (by decide) (by decide))
  · exact absurd hr (hquoted backQuote (by decide) (by decide))
  · obtain ⟨-, -, htext, hall⟩ := mem_readings_run1 hr
    obtain ⟨z, hz, hrest⟩ :=
      exists_suffix_of_not_mem htext.symm (quote_not_mem_of_forall (by decide) hall)
    rw [hz] at ht
    exact ⟨z, ht.suffix, hrest⟩

theorem moves_mark {c : Char} (hword : isWordChar c = false) (hblank : c ≠ ' ') (hquote : c ≠ '"') :
    Moves NameEnd (fun _ => False) (one (· == c)) := by
  intro t v before ht r hr
  exfalso
  cases t with
  | nil =>
      simp only [List.nil_append, readings] at hr
      split at hr
      · next h => exact hquote (beq_iff_eq.mp h).symm
      · cases hr
  | cons d t =>
      simp only [List.cons_append, readings] at hr
      split at hr
      · next h =>
        rw [beq_iff_eq.mp h] at ht
        rcases ht.chars c List.mem_cons_self with h | h
        · rw [hword] at h
          cases h
        · exact hblank h
      · cases hr

theorem moves_qualified : Moves Inside NameEnd qualified := by
  have hdot := (moves_mark (c := '.') (by decide) (by decide) (by decide)).stuck identifier
  exact moves_identifier.seq (hdot.mono (fun _ h => h) fun _ h => h.elim).maybe

theorem moves_paren : Moves NameEnd (fun _ => False) (literal "(") :=
  (moves_mark (c := '(') (by decide) (by decide) (by decide)).stuck Pattern.empty

theorem moves_word (word : String) (hword : ∀ c ∈ word.toList, c.isAlpha) :
    Moves Inside Inside (keyword word ++ blanks) :=
  (moves_keyword word hword).mono (fun _ h => h.1) (fun _ h => h) |>.seq moves_blanks

theorem moves_words (words : List String) (hwords : ∀ word ∈ words, ∀ c ∈ word.toList, c.isAlpha) :
    Moves Inside Inside (phrase words ++ blanks) :=
  (moves_phrase hwords).mono (fun _ h => h.1) (fun _ h => h) |>.seq moves_blanks

theorem moves_tableBlock : Moves Inside (fun _ => False) tableBlock := by
  have hkind : Moves Inside Inside (anyOf [keyword "UNLOGGED", keyword "TEMPORARY", keyword "TEMP"] ++
      blanks) := by
    have hword : ∀ word : String, (∀ c ∈ word.toList, c.isAlpha) →
        Moves Inside NameEnd (keyword word) :=
      fun word h => (moves_keyword word h).mono (fun _ h => h.1) fun _ h => h
    exact Moves.seq ((hword _ (by decide)).alt ((hword _ (by decide)).alt (hword _ (by decide))))
      moves_blanks
  have hcreate := ((moves_word "CREATE" (by decide)).seq hkind.maybe).seq
    ((moves_keyword "TABLE" (by decide)).mono (fun _ h => h.1) fun _ h => h)
  have hname := ((hcreate.seq moves_blanks).seq
    (moves_words ["IF", "NOT", "EXISTS"] (by decide)).maybe).seq
      (moves_qualified.part Part.name)
  exact ((((((hname.seq moves_gap).seq moves_paren).stuck _).stuck _).stuck _).stuck _).stuck _

theorem moves_alterTable : Moves Inside Inside alterTable := by
  have halter := ((moves_words ["ALTER", "TABLE"] (by decide)).seq
    (moves_words ["IF", "EXISTS"] (by decide)).maybe).seq
      (moves_word "ONLY" (by decide)).maybe
  have hadd : Moves Inside NameEnd (keyword "ADD") :=
    (moves_keyword "ADD" (by decide)).mono (fun _ h => h.1) fun _ h => h
  exact ((((halter.seq (moves_qualified.part Part.table)).seq moves_blanks).seq hadd).seq moves_blanks)

theorem moves_constraintName : Moves Inside Inside constraintName :=
  (((moves_word "CONSTRAINT" (by decide)).seq moves_identifier).seq moves_blanks).maybe

theorem moves_alterPrimaryKey : Moves Inside (fun _ => False) alterPrimaryKey := by
  have hwords : Moves Inside NameEnd (phrase ["PRIMARY", "KEY"]) :=
    (moves_phrase (by decide)).mono (fun _ h => h.1) fun _ h => h
  have hkey : Moves Inside (fun _ => False) addedPrimaryKey :=
    ((((moves_constraintName.seq hwords).seq moves_gap).seq moves_paren).stuck _).stuck _
  exact moves_alterTable.seq (hkey.part Part.constraint)

theorem moves_alterForeignKey : Moves Inside (fun _ => False) alterForeignKey := by
  have hwords : Moves Inside NameEnd (phrase ["FOREIGN", "KEY"]) :=
    (moves_phrase (by decide)).mono (fun _ h => h.1) fun _ h => h
  have hopen := ((moves_constraintName.seq hwords).seq moves_gap).seq moves_paren
  have hkey : Moves Inside (fun _ => False) addedForeignKey :=
    (((((((((hopen.stuck _).stuck _).stuck _).stuck _).stuck _).stuck _).stuck _).stuck _).stuck _).stuck _
  exact moves_alterTable.seq (hkey.part Part.constraint)

end SchemaDump.PostgreSQL
