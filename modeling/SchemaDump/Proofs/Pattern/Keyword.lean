import SchemaDump.Proofs.Pattern.Find
import SchemaDump.Proofs.Pattern.Frame
import SchemaDump.Proofs.Pattern.Words
import SchemaDump.Definition.Identifier
/- Texts in which a word does not occur. A pattern that needs the word cannot be read in such a
text, unless the word is completed by what follows. -/
namespace SchemaDump

open Pattern

/-- Whether a text contains a word in any letter case, be it as a part of longer words. -/
def hasSpelling (word : String) (t : Text) : Bool := (keyword word : SqlPattern).occursIn t

/-- Whether a text contains a word in any letter case that stands by itself. -/
def hasWord (word : String) (t : Text) : Bool :=
  (wordEdge ++ (keyword word ++ wordEdge) : SqlPattern).occursIn t

theorem exists_append_of_length {u v y w : Text} (h : u ++ v = y ++ w) :
    (∃ z, y = u ++ z ∧ v = z ++ w) ∨ ∃ c z, u = y ++ c :: z ∧ w = c :: (z ++ v) := by
  rcases List.append_eq_append_iff.mp h with hz | ⟨z, hu, hw⟩
  · exact .inl hz
  · cases z with
    | nil => exact .inl ⟨[], by simpa using hu.symm, by simpa using hw.symm⟩
    | cons c z => exact .inr ⟨c, z, hu, hw⟩

theorem append_cons_inj {a b x y : Text} {c : Char} (ha : c ∉ a) (hx : c ∉ x) (h : a ++ c :: b = x ++ c :: y) :
    a = x ∧ b = y := by
  rcases exists_append_of_length h with ⟨z, rfl, hz⟩ | ⟨e, z, rfl, hz⟩
  · cases z with
    | nil => exact ⟨(List.append_nil a).symm, (List.cons.inj hz).2⟩
    | cons e z =>
        obtain ⟨rfl, -⟩ := List.cons.inj hz
        exact absurd (List.mem_append_right a List.mem_cons_self) hx
  · obtain ⟨rfl, -⟩ := List.cons.inj hz
    exact absurd (List.mem_append_right x List.mem_cons_self) ha

theorem append_cons_inj_last {a b x y : Text} {c : Char} (hb : c ∉ b) (hy : c ∉ y) (h : a ++ c :: b = x ++ c :: y) :
    a = x ∧ b = y := by
  have hreverse := congrArg List.reverse h
  simp only [List.reverse_append, List.reverse_cons, List.append_assoc, List.singleton_append] at hreverse
  obtain ⟨hback, hfront⟩ := append_cons_inj (by simpa using hb) (by simpa using hy) hreverse
  exact ⟨List.reverse_inj.mp hfront, List.reverse_inj.mp hback⟩

theorem exists_of_length_le {u v y w : Text} (h : u ++ v = y ++ w) (hle : u.length ≤ y.length) :
    ∃ z, y = u ++ z ∧ v = z ++ w := by
  rcases exists_append_of_length h with hz | ⟨c, z, hu, -⟩
  · exact hz
  · rw [hu, List.length_append, List.length_cons] at hle
    omega

namespace Pattern

variable {word : String} {p q : SqlPattern} {before : Option Char} {t u v : Text}

theorem Silent.seq (h : p.Silent before u v) : (p ++ q).Silent before u v := by
  rw [silent_iff] at h ⊢
  intro x y hu hy
  exact read?_seq_none (h x y hu hy)

/-- Where a pattern is not read, nothing that ends with it is. -/
theorem Silent.behind (h : q.Silent before t []) (hq : q.nullable = false) :
    (p ++ q).Silent before t [] := by
  rw [silent_iff] at h ⊢
  intro x y hxy _
  rw [read?_seq_eq_none]
  intro a ha
  have hay := readings_text p _ _ a ha
  rw [List.append_nil] at hay
  cases hrest : a.rest with
  | nil => exact (consumes_of_not_nullable hq).read?_nil _
  | cons c rest =>
      have hread := h (x ++ a.read) (c :: rest) (by rw [hxy, ← hay, hrest, List.append_assoc])
        (List.cons_ne_nil c rest)
      rwa [List.append_nil, lastOf_append] at hread

theorem hasSpelling_of_split {x e z : Text} (he : spells sameLetter word.toList e) :
    hasSpelling word (x ++ (e ++ z)) = true := by
  refine occursIn_iff.mpr ⟨x, e ++ z, rfl, ?_⟩
  have hread : (keyword word : SqlPattern).read? (lastOf none x) (e ++ z) = some ⟨e, [], z⟩ :=
    read?_of_single (readings_spelled he)
  rw [hread]
  exact Option.some_ne_none _

/-- A word that the text does not contain is not completed behind it if one of the two characters
at the seam belongs to no word. -/
theorem silent_keyword (hword : ∀ c ∈ word.toList, c.isAlpha) (hu : hasSpelling word u = false)
    (hseam : Stops isWordChar v ∨ ∀ c ∈ u.getLast?, isWordChar c = false) :
    (keyword word : SqlPattern).Silent before u v := by
  rw [silent_iff]
  intro x y hxy hy
  cases hr : (keyword word : SqlPattern).read? (lastOf before x) (y ++ v) with
  | none => rfl
  | some r =>
      exfalso
      obtain ⟨-, hspells, ht⟩ := mem_readings_keyword.mp (mem_of_read? hr)
      have hchars := isWordChar_of_spells hword hspells
      rcases exists_append_of_length ht with ⟨z, hyz, -⟩ | ⟨c, z, hread, hv⟩
      · rw [hxy, hyz, hasSpelling_of_split hspells] at hu
        cases hu
      · rcases hseam with hstop | hlast
        · rw [hv, stops_cons, hchars c (by simp [hread])] at hstop
          cases hstop
        · cases hd : y.getLast? with
          | none => exact hy (List.getLast?_eq_none_iff.mp hd)
          | some d =>
              have hdu : d ∈ u.getLast? := by
                rw [hxy, List.getLast?_append, hd]
                rfl
              have hdread : d ∈ r.read := by
                rw [hread]
                exact List.mem_append_left _ (List.mem_of_getLast? hd)
              have hdword := hchars d hdread
              rw [hlast d hdu] at hdword
              cases hdword

theorem read?_wordEdge_of_end {e z : Text} (hne : e ≠ []) (he : ∀ c ∈ e, isWordChar c)
    (hz : Stops isWordChar z) : (wordEdge : SqlPattern).read? (lastOf before e) z = some ⟨[], [], z⟩ := by
  have hend : (lastOf before e).any isWordChar = true := by
    rw [lastOf_eq]
    cases hc : e.getLast? with
    | none => exact absurd (List.getLast?_eq_none_iff.mp hc) hne
    | some c => exact he c (List.mem_of_getLast? hc)
  have hstop : z.head?.any isWordChar = false := by
    cases z with
    | nil => rfl
    | cons c z => exact stops_cons.mp hz
  simp [read?, readings, hend, hstop]

theorem hasWord_of_split {x e z : Text} (hword : ∀ c ∈ word.toList, c.isAlpha) (hne : e ≠ [])
    (he : spells sameLetter word.toList e) (hx : ∀ c ∈ lastOf none x, isWordChar c = false)
    (hz : Stops isWordChar z) : hasWord word (x ++ (e ++ z)) = true := by
  refine occursIn_iff.mpr ⟨x, e ++ z, rfl, ?_⟩
  have hchars := isWordChar_of_spells hword he
  have hedge : (lastOf none x).any isWordChar = false := by
    cases hlast : lastOf none x with
    | none => rfl
    | some c => exact hx c hlast
  have hhead : (e ++ z).head?.any isWordChar = true := by
    cases e with
    | nil => exact absurd rfl hne
    | cons c e => exact hchars c List.mem_cons_self
  have hfirst : (wordEdge : SqlPattern).readings (lastOf none x) (e ++ z) = [⟨[], [], e ++ z⟩] := by
    rw [readings, hedge, hhead]
    rfl
  have hlast : (wordEdge : SqlPattern).read? (lastOf (lastOf none x) e) z = some ⟨[], [], z⟩ :=
    read?_wordEdge_of_end hne hchars hz
  rw [read?_single_seq hfirst, lastOf_nil, keyword, read?_single_seq (readings_spelled he), hlast]
  simp

/-- The ways in which a word may stand behind an opening character and blanks. -/
def Encloses (p : SqlPattern) (opens : Char → Bool) (word : String) : Prop :=
  ∀ before t, ∀ r ∈ p.readings before t, ∃ c g e w, t = c :: (g ++ (e ++ w)) ∧ opens c ∧
    (∀ d ∈ g, isBlank d) ∧ spells sameLetter word.toList e ∧ Stops isWordChar w

theorem exists_of_getLast? {P : Char → Prop} {x y : Text} (hy : y ≠ [])
    (h : ∀ k ∈ (x ++ y).getLast?, P k) : ∃ k ∈ y, k ∈ y.getLast? ∧ P k := by
  cases hk : y.getLast? with
  | none => exact absurd (List.getLast?_eq_none_iff.mp hk) hy
  | some k =>
      refine ⟨k, List.mem_of_getLast? hk, rfl, h k ?_⟩
      rw [List.getLast?_append, hk]
      rfl

/-- A word behind a character that belongs to no word and blanks stands by itself. -/
theorem hasWord_behind_blanks {c : Char} {g e x z : Text} (hword : ∀ d ∈ word.toList, d.isAlpha) (hne : e ≠ [])
    (he : spells sameLetter word.toList e) (hc : isWordChar c = false) (hg : ∀ d ∈ g, isBlank d)
    (hz : Stops isWordChar z) : hasWord word (x ++ c :: (g ++ (e ++ z))) = true := by
  have hlast : ∀ d ∈ lastOf none (x ++ c :: g), isWordChar d = false := by
    intro d hd
    rw [lastOf_append, lastOf_cons, lastOf_eq] at hd
    cases hgl : g.getLast? with
    | none =>
        rw [hgl] at hd
        rw [← Option.some.inj hd]
        exact hc
    | some k =>
        rw [hgl] at hd
        rw [← Option.some.inj hd]
        exact isWordChar_eq_false_of_isBlank (hg k (List.mem_of_getLast? hgl))
  have hsplit : x ++ c :: (g ++ (e ++ z)) = (x ++ c :: g) ++ (e ++ z) := by simp
  rw [hsplit, hasWord_of_split hword hne he hlast hz]

/-- The blanks in front of a word end where the word starts. -/
theorem not_stops_keyword {g e w : Text} (hword : ∀ d ∈ word.toList, d.isAlpha) (hne : word.toList ≠ [])
    (he : spells sameLetter word.toList e) (hg : ∀ d ∈ g, isBlank d) :
    ¬ Stops (keyword word : SqlPattern).starts ((g ++ (e ++ w)).dropWhile isBlank) := by
  intro hstops
  have hmem : (⟨e, [], w⟩ : Match Part) ∈ (keyword word : SqlPattern).readings none (e ++ w) :=
    mem_readings_keyword.mpr ⟨rfl, he, rfl⟩
  have hnullable : (keyword word : SqlPattern).nullable = false := by
    cases hw : word.toList with
    | nil => exact absurd hw hne
    | cons k rest => rw [keyword, hw, nullable_spelled_cons]
  obtain ⟨k, rest, hk, hstart⟩ := exists_head_of_mem hnullable hmem
  have hsolid : Stops isBlank (e ++ w) := by
    cases e with
    | nil => exact absurd (List.length_eq_zero_iff.mp (spells_length he).symm) hne
    | cons d e =>
        exact stops_cons.mpr (isBlank_eq_false_of_isWordChar (isWordChar_of_spells hword he d List.mem_cons_self))
  rw [dropWhile_append_of_stops hg hsolid, hk, stops_cons, hstart] at hstops
  cases hstops

/-- A pattern that needs a word by itself is silent in a text without the word, unless the word
or the blanks in front of it are completed behind the text. -/
theorem silent_of_hasWord {opens : Char → Bool} (hshape : Encloses p opens word)
    (hword : ∀ c ∈ word.toList, c.isAlpha) (hne : word.toList ≠ [])
    (hopens : ∀ c, opens c → isWordChar c = false) (hu : hasWord word u = false)
    (hv : Stops isWordChar v ∨
      ∀ k ∈ u.getLast?, isWordChar k = false ∧ opens k = false ∧ isBlank k = false)
    (hblank : Stops (keyword word : SqlPattern).starts (v.dropWhile isBlank) ∨
      ∀ k ∈ u.getLast?, opens k = false ∧ isBlank k = false) :
    p.Silent before u v := by
  rw [silent_iff]
  intro x y hxy hy
  cases hr : p.read? (lastOf before x) (y ++ v) with
  | none => rfl
  | some r =>
      exfalso
      obtain ⟨c, g, e, w, ht, hc, hg, he, hw⟩ := hshape _ _ r (mem_of_read? hr)
      have hchars := isWordChar_of_spells hword he
      have hene : e ≠ [] := by
        rintro rfl
        exact hne (List.length_eq_zero_iff.mp (spells_length he).symm)
      obtain ⟨y', rfl, hyv⟩ : ∃ y', y = c :: y' ∧ y' ++ v = g ++ (e ++ w) := by
        cases y with
        | nil => exact absurd rfl hy
        | cons d y' =>
            obtain ⟨rfl, hyv⟩ := List.cons.inj ht
            exact ⟨y', rfl, hyv⟩
      rcases exists_append_of_length hyv.symm with ⟨z, rfl, hzv⟩ | ⟨d, z, rfl, rfl⟩
      · rcases exists_append_of_length hzv with ⟨z', rfl, hwv⟩ | ⟨d, z', rfl, rfl⟩
        · -- The word stands by itself within the text.
          have hstop : Stops isWordChar z' := by
            cases z' with
            | nil => exact stops_nil _
            | cons d z' =>
                rw [hwv] at hw
                exact stops_cons.mpr (stops_cons.mp hw)
          rw [hxy, hasWord_behind_blanks hword hene he (hopens c hc) hg hstop] at hu
          cases hu
        · -- The word is completed behind the text.
          rcases hv with hv | hlast
          · rw [stops_cons, hchars d (by simp)] at hv
            cases hv
          · rw [hxy] at hlast
            obtain ⟨k, hk, -, hkword, hkopens, hkblank⟩ := exists_of_getLast? hy hlast
            rcases List.mem_cons.mp hk with rfl | hk
            · rw [hkopens] at hc
              cases hc
            · rcases List.mem_append.mp hk with hk | hk
              · exact absurd (hg k hk) (by simp [hkblank])
              · exact absurd (hchars k (List.mem_append_left _ hk)) (by simp [hkword])
      · -- The blanks reach over the end of the text.
        rcases hblank with hblank | hlast
        · rw [← List.cons_append] at hblank
          exact not_stops_keyword hword hne he (fun k hk => hg k (List.mem_append_right _ hk)) hblank
        · rw [hxy] at hlast
          obtain ⟨k, hk, -, hkopens, hkblank⟩ := exists_of_getLast? hy hlast
          rcases List.mem_cons.mp hk with rfl | hk
          · rw [hkopens] at hc
            cases hc
          · exact absurd (hg k (List.mem_append_left _ hk)) (by simp [hkblank])

end Pattern
end SchemaDump
