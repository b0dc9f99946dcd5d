import SchemaDump.Definition.Constraint
import SchemaDump.Proofs.Definition.Identifier
import SchemaDump.Proofs.Pattern.Matcher
import SchemaDump.Proofs.Schema.Draft
/- The word behind the name of a constraint tells its kind: no text can be read both as a primary
key and as a foreign key. -/
namespace SchemaDump.SqlPattern
open Pattern

variable {before after : Option Char} {t : Text} {r s : Match Part}

def nameClause : SqlPattern := keyword "CONSTRAINT" ++ blanks ++ identifier ++ blanks

/-- The start of a constraint of the kind that a word tells. -/
def kindOpening (word : String) : SqlPattern := constraintName ++ keyword word

theorem identifier_starts_of_isBlank {c : Char} (h : isBlank c) : identifier.starts c = false := by
  have hdouble : (c == '"') = false := beq_eq_false_iff_ne.mpr (by rintro rfl; exact absurd h (by decide))
  have hback : (c == backQuote) = false :=
    beq_eq_false_iff_ne.mpr (by rintro rfl; exact absurd h (by decide))
  simp [identifier, anyOf, quotedIdentifier, within, unquotedRun, run1, append_eq_seq, starts,
    nullable, isBareChar_eq_false_of_isBlank h, hdouble, hback]

theorem nameClause_rest_unique (hr : r ∈ nameClause.readings before t)
    (hs : s ∈ nameClause.readings after t) (hrest : Stops isBlank r.rest)
    (hsrest : Stops isBlank s.rest) : r.rest = s.rest := by
  -- the identifier stands behind the blanks that follow the keyword
  have hsplit : ∀ {before : Option Char} {r : Match Part}, r ∈ nameClause.readings before t →
      Stops isBlank r.rest → ∃ between i, i ∈ identifier.readings between
        ((t.drop 10).dropWhile isBlank) ∧ Stops isBareChar i.rest ∧
          r.rest = i.rest.dropWhile isBlank := by
    intro before r hr hrest
    obtain ⟨a, ha, e, he, rfl⟩ := mem_readings_seq.mp hr
    obtain ⟨b, hb, i, hi, rfl⟩ := mem_readings_seq.mp ha
    obtain ⟨k, hk, g, hg, rfl⟩ := mem_readings_seq.mp hb
    obtain ⟨-, hspells, ht⟩ := mem_readings_keyword.mp hk
    have hkrest : k.rest = t.drop 10 := by
      rw [← ht]
      exact (List.drop_left' (spells_length hspells)).symm
    have hgstop : Stops isBlank g.rest := by
      obtain ⟨c, u, hc, hstart⟩ := exists_head_of_mem (by decide) hi
      rw [Match.andThen_rest] at hc
      rw [hc, stops_cons]
      cases hblank : isBlank c with
      | false => rfl
      | true => rw [identifier_starts_of_isBlank hblank] at hstart; cases hstart
    have hgrest := rest_of_mem_readings_run1 hg hgstop
    obtain ⟨hne, -, hitext, hall⟩ := mem_readings_run1 he
    have histop : Stops isBareChar i.rest := by
      cases hread : e.read with
      | nil => exact absurd hread hne
      | cons c u =>
          rw [hread] at hitext hall
          rw [Match.andThen_rest, List.cons_append] at hitext
          rw [hitext, stops_cons]
          exact isBareChar_eq_false_of_isBlank (hall c List.mem_cons_self)
    rw [Match.andThen_rest, hgrest, hkrest] at hi
    refine ⟨_, i, hi, histop, ?_⟩
    rw [Match.andThen_rest] at hrest he ⊢
    exact rest_of_mem_readings_run1 he hrest
  obtain ⟨_, i, hi, histop, hreq⟩ := hsplit hr hrest
  obtain ⟨_, j, hj, hjstop, hseq⟩ := hsplit hs hsrest
  rw [hreq, hseq, identifier_rest_unique hi hj histop hjstop]

theorem foldCase_of_starts {letter c : Char} {w : Text} (hl : letter.isAlpha)
    (h : (spelled sameLetter (letter :: w) : SqlPattern).starts c) : foldCase c = letter.toLower := by
  rw [starts_spelled_cons] at h
  exact (sameLetter_iff hl).mp h

theorem stops_of_starts {letter c : Char} {u w : Text} (hl : letter.isAlpha)
    (h : (spelled sameLetter (letter :: w) : SqlPattern).starts c) : Stops isBlank (c :: u) := by
  rw [starts_spelled_cons] at h
  exact stops_cons.mpr (isBlank_eq_false_of_isWordChar (isWordChar_of_sameLetter hl h))

theorem exists_head_of_nameClause (hr : r ∈ nameClause.readings before t) :
    ∃ c u, t = c :: u ∧ foldCase c = 'c' := by
  obtain ⟨a, ha, -⟩ := mem_readings_seq.mp hr
  obtain ⟨b, hb, -⟩ := mem_readings_seq.mp ha
  obtain ⟨k, hk, -⟩ := mem_readings_seq.mp hb
  obtain ⟨c, u, hc, hcs⟩ := exists_head_of_mem rfl hk
  exact ⟨c, u, hc, foldCase_of_starts (by decide) hcs⟩

/-- What opens a constraint of some kind has the word for the kind behind the name of the constraint. -/
theorem exists_keyword_of_kindOpening {word : String} {letter : Char} {letters : Text}
    (hword : word.toList = letter :: letters) (hletter : letter.isAlpha) (hother : letter.toLower ≠ 'c')
    (hs : s ∈ nameClause.readings after t) (hsrest : Stops isBlank s.rest)
    (hr : r ∈ (kindOpening word).readings before t) :
    ∃ between w, w ∈ (keyword word : SqlPattern).readings between s.rest := by
  obtain ⟨a, ha, w, hw, -⟩ := mem_readings_seq.mp hr
  have hspelled : (keyword word : SqlPattern) = spelled sameLetter (letter :: letters) := by
    rw [keyword, hword]
  obtain ⟨c, u, hc, hcs⟩ := exists_head_of_mem (by rw [hspelled]; rfl) hw
  rw [hspelled] at hcs
  rcases List.mem_append.mp ha with ha | ha
  · exact ⟨_, w, nameClause_rest_unique hs ha hsrest (hc ▸ stops_of_starts hletter hcs) ▸ hw⟩
  · obtain ⟨e, x, he, hefold⟩ := exists_head_of_nameClause hs
    rw [List.mem_singleton.mp ha, he] at hc
    rw [(List.cons.inj hc).1, foldCase_of_starts hletter hcs] at hefold
    exact absurd hefold hother

/-- A text that opens a primary key does not open a foreign key. -/
theorem kindOpening_disjoint (hr : r ∈ (kindOpening "PRIMARY").readings before t)
    (hs : s ∈ (kindOpening "FOREIGN").readings after t) : False := by
  obtain ⟨b, hb, o, ho, -⟩ := mem_readings_seq.mp hs
  obtain ⟨d, v, hd, hds⟩ := exists_head_of_mem rfl ho
  have hdfold : foldCase d = 'f' := foldCase_of_starts (by decide) hds
  -- neither the word nor the name of a primary key starts with the letter of the other kind
  have hclash : ∀ {between : Option Char} {w : Match Part},
      w ∈ (keyword "PRIMARY" : SqlPattern).readings between (d :: v) → False := by
    intro between w hw
    obtain ⟨c, u, hc, hcs⟩ := exists_head_of_mem rfl hw
    have hcfold : foldCase c = 'p' := foldCase_of_starts (by decide) hcs
    rw [← (List.cons.inj hc).1, hdfold] at hcfold
    exact absurd hcfold (by decide)
  rcases List.mem_append.mp hb with hb | hb
  · obtain ⟨_, w, hw⟩ := exists_keyword_of_kindOpening rfl (by decide) (by decide) hb
      (hd ▸ stops_of_starts (by decide) hds) hr
    rw [hd] at hw
    exact hclash hw
  · rw [List.mem_singleton.mp hb] at hd
    obtain ⟨a, ha, w, hw, -⟩ := mem_readings_seq.mp hr
    rcases List.mem_append.mp ha with ha | ha
    · obtain ⟨e, x, he, hefold⟩ := exists_head_of_nameClause ha
      rw [he] at hd
      rw [(List.cons.inj hd).1, hdfold] at hefold
      exact absurd hefold (by decide)
    · rw [List.mem_singleton.mp ha, hd] at hw
      exact hclash hw

theorem exists_kindOpening {word next : String} {words : List String} {q : SqlPattern}
    (hr : r ∈ (constraintName ++ (phrase (word :: next :: words) ++ q)).readings before t) :
    ∃ s, s ∈ (kindOpening word).readings before t := by
  obtain ⟨a, ha, b, hb, -⟩ := mem_readings_seq.mp hr
  obtain ⟨c, hc, -⟩ := mem_readings_seq.mp hb
  obtain ⟨e, he, -⟩ := mem_readings_seq.mp hc
  obtain ⟨w, hw, -⟩ := mem_readings_seq.mp he
  exact ⟨_, mem_readings_seq.mpr ⟨a, ha, w, hw, rfl⟩⟩

end SchemaDump.SqlPattern

namespace SchemaDump.Constraint
open SqlPattern Pattern

variable {d : Dialect} {fragment : Text} {constraint : Constraint} {s : Match Part}

theorem mem_readings_of_opening? {p : SqlPattern} {text : Text} {o : Occurrence Part}
    (h : p.opening? text = some o) : o.reading ∈ p.readings none text :=
  mem_of_read? (at?_eq_some h).1

/-- What opens a foreign key puts no column into the primary key. -/
theorem primaryColumns_of_parse? (h : parse? d fragment = some constraint)
    (hs : s ∈ (kindOpening "FOREIGN").readings none fragment.trim) :
    constraint.primaryColumns = [] := by
  simp only [parse?] at h
  cases hp : primaryKeyDefinition.opening? fragment.trim with
  | some o =>
      have hread := mem_readings_of_opening? hp
      simp only [primaryKeyDefinition, readings_seq_assoc] at hread
      obtain ⟨r, hr⟩ := exists_kindOpening hread
      exact (kindOpening_disjoint hr hs).elim
  | none =>
      rw [hp] at h
      simp only at h
      split at h
      · cases h
      · split at h
        · cases h
        · cases h
        · rw [← Option.some.inj h]
          rfl

/-- What opens a primary key gives no column a foreign key. -/
theorem foreignKeys_of_parse? (h : parse? d fragment = some constraint)
    (hs : s ∈ (kindOpening "PRIMARY").readings none fragment.trim) :
    constraint.foreignKeys = [] := by
  simp only [parse?] at h
  split at h
  · split at h
    · cases h
    · rw [← Option.some.inj h]
      rfl
  · cases hf : foreignKeyDefinition.opening? fragment.trim with
    | none =>
        rw [hf] at h
        cases h
    | some o =>
        have hread := mem_readings_of_opening? hf
        simp only [foreignKeyDefinition, readings_seq_assoc] at hread
        obtain ⟨r, hr⟩ := exists_kindOpening hread
        exact (kindOpening_disjoint hs hr).elim

end SchemaDump.Constraint
