import SchemaDump.Proofs.Pattern.Matcher
/- Scanning a text piece by piece: pieces in which a pattern cannot be read are passed over, and
a reading continues the scan behind it. -/
namespace SchemaDump

variable {ι : Type}

namespace Pattern

def Consumes (p : Pattern ι) : Prop := ∀ before t, ∀ r ∈ p.readings before t, r.read ≠ []

/-- The pattern cannot be read at any place in `u` when `v` follows. -/
def Silent (p : Pattern ι) : Option Char → Text → Text → Prop
  | _, [], _ => True
  | before, c :: u, v => p.read? before (c :: (u ++ v)) = none ∧ Silent p (some c) u v

variable {p : Pattern ι} {before : Option Char}

@[simp] theorem silent_nil (v : Text) : p.Silent before [] v := trivial

theorem silent_cons {c : Char} {u v : Text} :
    p.Silent before (c :: u) v ↔
      p.read? before (c :: (u ++ v)) = none ∧ p.Silent (some c) u v := Iff.rfl

theorem silent_append {u w v : Text} :
    p.Silent before (u ++ w) v ↔ p.Silent before u (w ++ v) ∧ p.Silent (lastOf before u) w v := by
  induction u generalizing before with
  | nil => simp
  | cons c u ih => simp only [List.cons_append, silent_cons, ih, List.append_assoc, lastOf_cons, and_assoc]

theorem Silent.append {u w v : Text} (hu : p.Silent before u (w ++ v))
    (hw : p.Silent (lastOf before u) w v) : p.Silent before (u ++ w) v := silent_append.mpr ⟨hu, hw⟩

theorem silent_iff {u v : Text} :
    p.Silent before u v ↔
      ∀ x y, u = x ++ y → y ≠ [] → p.read? (lastOf before x) (y ++ v) = none := by
  induction u generalizing before with
  | nil =>
      simp only [silent_nil, true_iff]
      intro x y h hy
      exact absurd (List.append_eq_nil_iff.mp h.symm).2 hy
  | cons c u ih =>
      rw [silent_cons, ih]
      constructor
      · rintro ⟨hc, hu⟩ x y h hy
        cases x with
        | nil =>
            rw [List.nil_append] at h
            subst h
            exact hc
        | cons d x =>
            obtain ⟨rfl, hxy⟩ := List.cons.inj h
            exact hu x y hxy hy
      · intro h
        refine ⟨h [] (c :: u) rfl (List.cons_ne_nil c u), ?_⟩
        intro x y hu hy
        exact h (c :: x) y (by rw [hu, List.cons_append]) hy

/-- What `scan` finds with all the steps it may need. -/
def found (p : Pattern ι) (before : Option Char) (t : Text) : List (Match ι) := p.scan t before t

theorem readings_eq_nil_iff {t : Text} : p.readings before t = [] ↔ p.read? before t = none := by
  rw [read?, List.head?_eq_none_iff]

theorem mem_of_read? {t : Text} {r : Match ι} (h : p.read? before t = some r) :
    r ∈ p.readings before t := List.mem_of_mem_head? h

theorem read?_text {t : Text} {r : Match ι} (h : p.read? before t = some r) :
    r.read ++ r.rest = t := readings_text p before t r (mem_of_read? h)

theorem Consumes.read?_nil (h : p.Consumes) (before : Option Char) : p.read? before [] = none := by
  cases hr : p.read? before [] with
  | none => rfl
  | some r => exact absurd (List.append_eq_nil_iff.mp (read?_text hr)).1 (h _ _ r (mem_of_read? hr))

theorem Consumes.scan_eq (h : p.Consumes) {b c t : Text} (hb : t.length ≤ b.length)
    (hc : t.length ≤ c.length) : p.scan b before t = p.scan c before t := by
  induction b generalizing c before t with
  | nil =>
      obtain rfl := List.length_eq_zero_iff.mp (Nat.le_zero.mp hb)
      cases c with
      | nil => rfl
      | cons _ c => simp only [scan, h.read?_nil]
  | cons _ b ih =>
      cases c with
      | nil =>
          obtain rfl := List.length_eq_zero_iff.mp (Nat.le_zero.mp hc)
          simp only [scan, h.read?_nil]
      | cons _ c =>
          simp only [scan]
          cases hr : p.read? before t with
          | none =>
              cases t with
              | nil => rfl
              | cons d t => exact ih (Nat.le_of_succ_le_succ hb) (Nat.le_of_succ_le_succ hc)
          | some r =>
              have hpos := List.length_pos_iff.mpr (h _ _ r (mem_of_read? hr))
              have hl : r.read.length + r.rest.length = t.length := by
                rw [← List.length_append, read?_text hr]
              simp only [List.length_cons] at hb hc
              exact congrArg (r :: ·) (ih (by omega) (by omega))

@[simp] theorem found_nil : p.found before [] = [] := rfl

theorem found_of_read? (h : p.Consumes) {t : Text} {r : Match ι}
    (hr : p.read? before t = some r) :
    p.found before t = r :: p.found (lastOf before r.read) r.rest := by
  cases t with
  | nil => rw [h.read?_nil] at hr; cases hr
  | cons c t =>
      have hpos := List.length_pos_iff.mpr (h _ _ r (mem_of_read? hr))
      have hl : r.read.length + r.rest.length = (c :: t).length := by
        rw [← List.length_append, read?_text hr]
      simp only [List.length_cons] at hl
      simp only [found, scan, hr]
      exact congrArg (r :: ·) (h.scan_eq (by omega) (Nat.le_refl _))

theorem found_of_none {c : Char} {t : Text} (hr : p.read? before (c :: t) = none) :
    p.found before (c :: t) = p.found (some c) t := by
  simp only [found, scan, hr]

theorem found_append_of_silent {u v : Text} (h : p.Silent before u v) :
    p.found before (u ++ v) = p.found (lastOf before u) v := by
  induction u generalizing before with
  | nil => rfl
  | cons c u ih => exact (found_of_none h.1).trans (ih h.2)

theorem found_eq_nil_of_silent {u : Text} (h : p.Silent before u []) : p.found before u = [] := by
  have hf := found_append_of_silent h
  rwa [List.append_nil, found_nil] at hf

theorem stop_text {place : Cursor} {o : Occurrence ι} (h : p.at? place = some o) : o.stop.text = place.text := by
  obtain ⟨hr, -, hstop⟩ := at?_eq_some h
  rw [hstop]
  simp only [Cursor.text, List.reverse_append, List.reverse_reverse, List.append_assoc, read?_text hr]

theorem mem_occurrencesFrom {bound : Text} {place : Cursor} {o : Occurrence ι}
    (h : o ∈ p.occurrencesFrom bound place) :
    p.at? o.start = some o ∧ o.start.text = place.text := by
  induction bound generalizing place with
  | nil => cases h
  | cons _ bound ih =>
      simp only [occurrencesFrom] at h
      cases ho : p.at? place with
      | some q =>
          rw [ho] at h
          rcases List.mem_cons.mp h with rfl | h
          · rw [(at?_eq_some ho).2.1]
            exact ⟨ho, rfl⟩
          · obtain ⟨hat, htext⟩ := ih h
            exact ⟨hat, htext.trans (stop_text ho)⟩
      | none =>
          rw [ho] at h
          rcases place with ⟨behind, ahead⟩
          cases ahead with
          | nil => cases h
          | cons c ahead =>
              obtain ⟨hat, htext⟩ := ih h
              refine ⟨hat, htext.trans ?_⟩
              simp only [Cursor.text, List.reverse_cons, List.append_assoc, List.cons_append,
                List.nil_append]

theorem head?_eq_lastOf_reverse (behind : Text) : behind.head? = lastOf none behind.reverse := by
  have h := head?_reverse_append behind.reverse []
  rwa [List.reverse_reverse, List.append_nil] at h

/-- An occurrence splits its text where it starts, and is the preferred reading there. -/
theorem exists_of_mem_occurrences {text : Text} {o : Occurrence ι} (h : o ∈ p.occurrences text) :
    ∃ v, text = o.before ++ v ∧ p.read? (lastOf none o.before) v = some o.reading := by
  obtain ⟨hat, htext⟩ := mem_occurrencesFrom h
  refine ⟨o.start.ahead, htext.symm, ?_⟩
  rw [Span.before, ← head?_eq_lastOf_reverse]
  exact (at?_eq_some hat).1

theorem occurrences_eq_nil_of_silent {text : Text} (h : p.Silent none text []) :
    p.occurrences text = [] := by
  have hr := p.occurrences_reading text
  rwa [show p.scan text none text = [] from found_eq_nil_of_silent h, List.map_eq_nil_iff] at hr

end Pattern
end SchemaDump
