import SchemaDump.Proofs.Pattern.Words
/- Rounds of a pattern that always reads something. The preferred reading takes as many rounds
as there are, each in its preferred way. -/
namespace SchemaDump.Pattern

variable {ι : Type} {p q : Pattern ι} {before : Option Char} {t u v : Text} {r s : Match ι}

/-- Longer bounds than the text needs change nothing. -/
theorem Consumes.rounds_eq (h : p.Consumes) {b c t : Text} (hb : t.length ≤ b.length)
    (hc : t.length ≤ c.length) (before : Option Char) :
    rounds p.readings b before t = rounds p.readings c before t := by
  induction b generalizing c before t with
  | nil =>
      obtain rfl := List.length_eq_zero_iff.mp (Nat.le_zero.mp hb)
      cases c with
      | nil => rfl
      | cons d c =>
          have hnil : p.readings before [] = [] := readings_eq_nil_iff.mpr (h.read?_nil before)
          simp only [rounds, hnil, List.flatMap_nil, List.nil_append]
  | cons d b ih =>
      cases c with
      | nil =>
          obtain rfl := List.length_eq_zero_iff.mp (Nat.le_zero.mp hc)
          have hnil : p.readings before [] = [] := readings_eq_nil_iff.mpr (h.read?_nil before)
          simp only [rounds, hnil, List.flatMap_nil, List.nil_append]
      | cons e c =>
          simp only [rounds, List.flatMap_def]
          congr 2
          apply List.map_congr_left
          intro r hr
          have hpos := List.length_pos_iff.mpr (h _ _ r hr)
          have hlen : r.read.length + r.rest.length = t.length := by
            rw [← List.length_append, readings_text p before t r hr]
          simp only [List.length_cons] at hb hc
          have hrest : rounds p.readings b (lastOf before r.read) r.rest =
              rounds p.readings c (lastOf before r.read) r.rest := ih (by omega) (by omega) _
          rw [hrest]

/-- A round that is read is followed by the rounds that can be read behind it. -/
theorem readings_many (h : p.Consumes) (before : Option Char) (t : Text) :
    (many p).readings before t =
      ((p.readings before t).flatMap fun r =>
        ((many p).readings (lastOf before r.read) r.rest).map r.andThen) ++ [⟨[], [], t⟩] := by
  cases t with
  | nil =>
      have hnil : p.readings before [] = [] := readings_eq_nil_iff.mpr (h.read?_nil before)
      simp [readings, rounds, hnil]
  | cons c t =>
      simp only [readings, rounds, List.flatMap_def]
      congr 2
      apply List.map_congr_left
      intro r hr
      have hpos := List.length_pos_iff.mpr (h _ _ r hr)
      have hlen : r.read.length + r.rest.length = (c :: t).length := by
        rw [← List.length_append, readings_text p before _ r hr]
      simp only [List.length_cons] at hlen
      rw [h.rounds_eq (by omega) (Nat.le_refl _)]

theorem read?_many_of_none (h : p.Consumes) (hp : p.read? before t = none) :
    (many p).read? before t = some ⟨[], [], t⟩ := by
  rw [read?, readings_many h, readings_eq_nil_iff.mpr hp]
  rfl

theorem read?_many_of_some (h : p.Consumes) (hp : p.read? before t = some r)
    (hr : (many p).read? (lastOf before r.read) r.rest = some s) :
    (many p).read? before t = some (r.andThen s) := by
  obtain ⟨rs, hrs⟩ := readings_eq_cons hp
  obtain ⟨ss, hss⟩ := readings_eq_cons hr
  rw [read?, readings_many h, hrs, List.flatMap_cons, hss]
  rfl

end SchemaDump.Pattern
