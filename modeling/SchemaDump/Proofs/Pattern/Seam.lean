import SchemaDump.Proofs.Pattern.Keyword
import SchemaDump.Proofs.Pattern.Reads
/- The seam of two texts. A pattern that does not occur in the first of them is silent there, unless one
of its readings crosses the seam. -/
namespace SchemaDump.Pattern

variable {ι : Type} {p q : Pattern ι} {before : Option Char} {u v x y : Text} {r s : Match ι}

/-- No reading that starts in `u` or behind it reaches into `v`. -/
def Confined (p : Pattern ι) (u v : Text) : Prop :=
  ∀ x y, u = x ++ y → ∀ before, ∀ r ∈ p.readings before (y ++ v), r.read.length ≤ y.length

/-- A reading that does not reach into `v` is one of the rest of `u`, or crosses the seam. -/
theorem length_read_le (h : r.read ++ r.rest = y ++ v) (hv : ∀ c z, r.read ≠ y ++ c :: z) :
    r.read.length ≤ y.length := by
  rcases exists_append_of_length h with ⟨z, hy, -⟩ | ⟨c, z, hread, -⟩
  · rw [hy, List.length_append]
    exact Nat.le_add_right _ _
  · exact absurd hread (hv c z)

/-- What stands behind a reading that ends in `u` is the rest of `u` in front of `v`. -/
theorem length_andThen_le (hq : q.Confined u v) (hu : u = x ++ y) (htext : r.read ++ r.rest = y ++ v)
    (hle : r.read.length ≤ y.length) (hs : s ∈ q.readings before r.rest) :
    (r.andThen s).read.length ≤ y.length := by
  obtain ⟨z, hy, hrest⟩ := exists_of_length_le htext hle
  rw [hrest] at hs
  have hsecond := hq (x ++ r.read) z (by rw [hu, hy, List.append_assoc]) before s hs
  rw [Match.andThen_read, hy, List.length_append, List.length_append]
  omega

theorem StaysWithin.seq (hp : p.StaysWithin u v) (hq : q.Confined u v) :
    (p ++ q).StaysWithin u v := by
  intro x y hu hy before r hr
  obtain ⟨a, ha, b, hb, rfl⟩ := mem_readings_seq.mp hr
  exact length_andThen_le hq hu (readings_text p _ _ a ha) (hp x y hu hy before a ha) hb

theorem Confined.seq (hp : p.Confined u v) (hq : q.Confined u v) : (p ++ q).Confined u v := by
  intro x y hu before r hr
  obtain ⟨a, ha, b, hb, rfl⟩ := mem_readings_seq.mp hr
  exact length_andThen_le hq hu (readings_text p _ _ a ha) (hp x y hu before a ha) hb

theorem Confined.alt (hp : p.Confined u v) (hq : q.Confined u v) :
    (Pattern.alt p q).Confined u v := by
  intro x y hu before r hr
  rcases List.mem_append.mp hr with hr | hr
  · exact hp x y hu before r hr
  · exact hq x y hu before r hr

theorem Confined.maybe (h : p.Confined u v) : (Pattern.maybe p).Confined u v := by
  refine h.alt fun x y _ before r hr => ?_
  rw [List.mem_singleton.mp hr]
  exact Nat.zero_le _

theorem confined_nil : p.Confined u [] := by
  intro x y _ before r hr
  have hlength := congrArg List.length (readings_text p _ _ r hr)
  rw [List.append_nil, List.length_append] at hlength
  omega

theorem confined_run {accepts : Char → Bool} {preference : Preference} (hv : Stops accepts v) :
    (run accepts preference : Pattern ι).Confined u v := by
  intro x y _ before r hr
  obtain ⟨-, htext, hall⟩ := mem_readings_run.mp hr
  refine length_read_le htext fun c z hread => ?_
  rw [hread, List.append_assoc] at htext
  rw [← List.append_cancel_left htext, List.cons_append, stops_cons, hall c (by simp [hread])] at hv
  cases hv

theorem confined_run1 {accepts : Char → Bool} {preference : Preference} (hv : Stops accepts v) :
    (run1 accepts preference : Pattern ι).Confined u v := by
  have hone : (one accepts : Pattern ι).Confined u v := by
    intro x y _ before r hr
    cases y with
    | nil =>
        have hnone : (one accepts : Pattern ι).read? before v = none :=
          read?_eq_none_of_starts (p := one accepts) rfl hv
        rw [List.nil_append, readings_eq_nil_iff.mpr hnone] at hr
        cases hr
    | cons c y =>
        rw [List.cons_append, readings] at hr
        split at hr
        · rw [List.mem_singleton.mp hr]
          exact Nat.succ_le_succ (Nat.zero_le _)
        · cases hr
  exact hone.seq (confined_run hv)

/-- No word is completed behind a text that does not end with a word character. -/
theorem staysWithin_keyword {word : String} (hword : ∀ c ∈ word.toList, c.isAlpha)
    (hu : ∀ c ∈ u.getLast?, isWordChar c = false) :
    (keyword word : Pattern ι).StaysWithin u v := by
  intro x y hxy hy before r hr
  obtain ⟨-, hspells, htext⟩ := mem_readings_keyword.mp hr
  refine length_read_le htext fun c z hread => ?_
  rw [hxy] at hu
  obtain ⟨d, hd, -, hlast⟩ := exists_of_getLast? hy hu
  rw [isWordChar_of_spells hword hspells d (by rw [hread]; exact List.mem_append_left _ hd)] at hlast
  cases hlast

theorem confined_keyword {word : String} (hword : ∀ c ∈ word.toList, c.isAlpha)
    (hu : ∀ c ∈ u.getLast?, isWordChar c = false) (hv : (keyword word : Pattern ι).Rejects v) :
    (keyword word : Pattern ι).Confined u v := by
  intro x y hxy before r hr
  by_cases hy : y = []
  · rw [hy, List.nil_append, readings_eq_nil_iff.mpr (hv before)] at hr
    cases hr
  · exact staysWithin_keyword hword hu x y hxy hy before r hr

theorem confined_keyword_of_stops {word : String} (hword : ∀ c ∈ word.toList, c.isAlpha)
    (hv : Stops isWordChar v) : (keyword word : Pattern ι).Confined u v := by
  intro x y _ before r hr
  obtain ⟨-, hspells, htext⟩ := mem_readings_keyword.mp hr
  refine length_read_le htext fun c z hread => ?_
  rw [hread, List.append_assoc] at htext
  have hc := isWordChar_of_spells hword hspells c (by rw [hread]; simp)
  rw [← List.append_cancel_left htext, List.cons_append, stops_cons, hc] at hv
  cases hv

theorem confined_mark {mark : String} {m : Char} (hmark : mark.toList = [m]) (hv : Stops (· == m) v) :
    (literal mark : Pattern ι).Confined u v := by
  intro x y _ before r hr
  obtain ⟨-, hread, htext⟩ := mem_readings_literal.mp hr
  refine length_read_le htext fun c z hsplit => ?_
  rw [hsplit, List.append_assoc] at htext
  obtain rfl : c = m := List.mem_singleton.mp (hmark ▸ hread ▸ hsplit ▸ by simp)
  rw [← List.append_cancel_left htext, List.cons_append, stops_cons, BEq.rfl] at hv
  cases hv

theorem Confined.staysWithin (h : p.Confined u v) : p.StaysWithin u v :=
  fun x y hu _ => h x y hu

theorem confined_of_not_mentioned {c : Char} (h : p.mentions c = false) : p.Confined u (c :: v) := by
  intro x y _ before r hr
  have htext := readings_text p _ _ r hr
  refine length_read_le htext fun d z hread => ?_
  rw [hread, List.append_assoc] at htext
  obtain ⟨rfl, -⟩ := List.cons.inj (List.append_cancel_left htext)
  exact not_mem_read hr h (by rw [hread]; simp)

theorem staysWithin_of_not_mentioned {c : Char} (h : p.mentions c = false) :
    p.StaysWithin u (c :: v) := (confined_of_not_mentioned h).staysWithin

/-- Blanks do not reach over the seam if what they are followed by does not stand behind those that `v`
starts with. -/
theorem length_blanks_le (hv : (gap ++ q).Rejects v) {preference : Preference}
    (hr : r ∈ (run isBlank preference : Pattern ι).readings before (y ++ v))
    (hq : q.read? (lastOf before r.read) r.rest ≠ none) : r.read.length ≤ y.length := by
  obtain ⟨-, htext, hall⟩ := mem_readings_run.mp hr
  refine length_read_le htext fun c z hread => hq ?_
  rw [hread, List.append_assoc] at htext
  have hgap : (⟨c :: z, [], r.rest⟩ : Match ι) ∈ (gap : Pattern ι).readings (lastOf before y) v :=
    mem_readings_run.mpr ⟨rfl, List.append_cancel_left htext, fun d hd => hall d (by simp [hread, hd])⟩
  have hnone := read?_seq_eq_none.mp (hv (lastOf before y)) _ hgap
  rwa [← lastOf_append, ← hread] at hnone

theorem confined_gap_seq (hq : q.Confined u v) (hv : (gap ++ q).Rejects v) : (gap ++ q).Confined u v := by
  intro x y hu before r hr
  obtain ⟨a, ha, b, hb, rfl⟩ := mem_readings_seq.mp hr
  have hne : q.read? (lastOf before a.read) a.rest ≠ none := by
    rw [ne_eq, ← readings_eq_nil_iff]
    exact List.ne_nil_of_mem hb
  exact length_andThen_le hq hu (readings_text _ _ _ a ha) (length_blanks_le hv ha hne) hb

theorem StaysWithin.congr (h : p.StaysWithin u v)
    (hpq : ∀ before t, q.readings before t = p.readings before t) : q.StaysWithin u v := by
  intro x y hu hy before r hr
  rw [hpq] at hr
  exact h x y hu hy before r hr

theorem readings_seq_congr {s : Pattern ι} (hq : ∀ before t, q.readings before t = s.readings before t)
    (p : Pattern ι) (before : Option Char) (t : Text) :
    (p ++ q).readings before t = (p ++ s).readings before t := by
  simp only [readings_seq, hq]

theorem StaysWithin.seq_maybe {s : Pattern ι} (h : (p ++ (q ++ s)).StaysWithin u v)
    (hs : (p ++ s).StaysWithin u v) : (p ++ (Pattern.maybe q ++ s)).StaysWithin u v := by
  intro x y hu hy before r hr
  obtain ⟨a, ha, b, hb, rfl⟩ := mem_readings_seq.mp hr
  rw [Pattern.maybe, readings_alt_seq, readings_empty_seq] at hb
  rcases List.mem_append.mp hb with hb | hb
  · exact h x y hu hy before _ (mem_readings_seq.mpr ⟨a, ha, b, hb, rfl⟩)
  · exact hs x y hu hy before _ (mem_readings_seq.mpr ⟨a, ha, b, hb, rfl⟩)

/-- A run that is closed behind the seam is still open at it. -/
theorem StaysWithin.closed {accepts : Char → Bool} (h : p.StaysWithin u v) (hp : p.plain)
    (hq : ∀ before t, ∀ r ∈ q.readings before t, r.read.length ≤ 1)
    (hopen : (p ++ (run accepts .longest ++ textEnd)).occursIn u = false) :
    (p ++ (run accepts .longest ++ q)).StaysWithin u v := by
  intro x y hu hy before r hr
  obtain ⟨a, ha, m, hm, rfl⟩ := mem_readings_seq.mp hr
  obtain ⟨b, hb, c, hc, rfl⟩ := mem_readings_seq.mp hm
  have hle := h x y hu hy before a ha
  obtain ⟨z, hyz, hrest⟩ := exists_of_length_le (readings_text p _ _ a ha) hle
  obtain ⟨-, htext, hall⟩ := mem_readings_run.mp hb
  rw [hrest] at htext
  have hclose := hq _ _ c hc
  rcases exists_append_of_length htext.symm with ⟨k, hk, -⟩ | ⟨d, k, hz, -⟩
  · -- the run takes all that is left of `u`, so it is open at the end of it
    have hrun : (run accepts .longest ++ textEnd : Pattern ι).read? (lastOf none (x ++ a.read)) z ≠ none := by
      have hlongest : (run accepts .longest : Pattern ι).read? (lastOf none (x ++ a.read)) (z ++ []) =
          some ⟨z, [], []⟩ :=
        read?_longest (fun d hd => hall d (by rw [hk]; exact List.mem_append_left _ hd)) (stops_nil _)
      rw [List.append_nil] at hlongest
      exact read?_seq_ne_none hlongest (Option.some_ne_none _)
    obtain ⟨s, hs, rfl⟩ := exists_of_mem_readings_append hp ha hle
    have hsrest : s.rest = z := by
      have hstext := readings_text p _ _ s hs
      rw [hyz] at hstext
      exact List.append_cancel_left hstext
    have hnone := occursIn_eq_false_iff.mp hopen x y hu
    rw [readings_before hp _ (lastOf none x)] at hs
    have hend := read?_seq_eq_none.mp hnone s hs
    rw [hsrest, ← lastOf_append] at hend
    exact absurd hend hrun
  · rw [Match.andThen_read, Match.andThen_read, hyz, hz]
    simp only [List.length_append, List.length_cons]
    omega

/-- What can be read at the start of a text can be read there in front of more text. -/
theorem Rejects.of_append (hp : p.plain) (h : p.Rejects (u ++ v)) : p.Rejects u := by
  intro before
  rw [← readings_eq_nil_iff, List.eq_nil_iff_forall_not_mem]
  intro r hr
  have hnil := readings_eq_nil_iff.mpr (h before)
  exact absurd hnil (List.ne_nil_of_mem (mem_readings_append hp hr))

theorem Confined.rejects (h : p.Confined u v) (hp : p.plain) (hne : u ≠ []) (hu : p.Rejects u) :
    p.Rejects (u ++ v) := by
  intro before
  rw [h.staysWithin.read?_append hp hne, hu, Option.map_none]

theorem StaysWithin.silent {p : SqlPattern} (h : p.StaysWithin u v) (hp : p.plain)
    (hu : p.occursIn u = false) : p.Silent before u v := by
  rw [silent_iff]
  intro x y hxy hy
  have hrest : p.StaysWithin y v := StaysWithin.suffix (x := x) (hxy ▸ h)
  rw [hrest.read?_append hp hy, read?_before hp _ (lastOf none x), occursIn_eq_false_iff.mp hu x y hxy,
    Option.map_none]

theorem occursIn_eq_false_of_isInfix {p : SqlPattern} (hp : p.plain) {x t z : Text}
    (h : p.occursIn (x ++ (t ++ z)) = false) :
    p.occursIn t = false := by
  rw [occursIn_eq_false_iff]
  intro u v ht
  have hwhole := occursIn_eq_false_iff.mp h (x ++ u) (v ++ z) (by rw [ht]; simp only [List.append_assoc])
  rw [← readings_eq_nil_iff, List.eq_nil_iff_forall_not_mem]
  intro r hr
  rw [readings_before hp _ (lastOf none (x ++ u))] at hr
  exact List.ne_nil_of_mem (mem_readings_append hp hr) (readings_eq_nil_iff.mpr hwhole)

/-- A pattern that does not occur in `u` and the next character is silent in `u` if no reading goes further. -/
theorem silent_of_next {p : SqlPattern} (hp : p.plain) {c : Char}
    (hlength : ∀ x y, u = x ++ y → y ≠ [] → ∀ before, ∀ r ∈ p.readings before (y ++ c :: v),
      r.read.length ≤ y.length + 1)
    (hu : p.occursIn (u ++ [c]) = false) : p.Silent before u (c :: v) := by
  rw [silent_iff]
  intro x y hxy hy
  rw [← readings_eq_nil_iff, List.eq_nil_iff_forall_not_mem]
  intro r hr
  have hle := hlength x y hxy hy _ r hr
  have hsplit : y ++ c :: v = (y ++ [c]) ++ v := List.append_cons y c v
  rw [hsplit, readings_before hp _ (lastOf none x)] at hr
  obtain ⟨s, hs, -⟩ := exists_of_mem_readings_append hp hr (by rw [List.length_append]; exact hle)
  have hoccurs := occursIn_of_mem_readings (u := x) rfl hs
  rw [← List.append_assoc, ← hxy, hu] at hoccurs
  cases hoccurs

end SchemaDump.Pattern
