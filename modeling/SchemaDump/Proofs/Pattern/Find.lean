import SchemaDump.Proofs.Pattern.Scan
/- The leftmost occurrence of a pattern, whether there is one at all, and what cutting a single
occurrence leaves. -/
namespace SchemaDump

variable {ι : Type}

/-- Whether an occurrence starts in front of a place and ends behind it. -/
def Occurrence.Covers (o : Occurrence ι) (place : Nat) : Prop :=
  o.start.behind.length < place ∧ place < o.stop.behind.length

instance (o : Occurrence ι) (place : Nat) : Decidable (o.Covers place) :=
  inferInstanceAs (Decidable (_ ∧ _))

namespace Pattern

variable {p : Pattern ι} {t u v : Text} {r : Match ι}

theorem findFrom?_of_silent (behind : Text) (hu : p.Silent behind.head? u v)
    (hr : p.read? (lastOf behind.head? u) v = some r) :
    ∃ o, p.findFrom? behind (u ++ v) = some o ∧ o.reading = r ∧
      o.start.behind = u.reverse ++ behind := by
  induction u generalizing behind with
  | nil =>
      obtain ⟨o, ho, hreading⟩ := exists_at?_of_read? ⟨behind, v⟩ hr
      refine ⟨o, ?_, hreading, ?_⟩
      · cases v <;> simp only [List.nil_append, findFrom?, ho]
      · rw [(at?_eq_some ho).2.1]
        rfl
  | cons c u ih =>
      obtain ⟨hc, hu⟩ := silent_cons.mp hu
      obtain ⟨o, ho, hreading, hbehind⟩ := ih (c :: behind) hu hr
      refine ⟨o, ?_, hreading, ?_⟩
      · have hat : p.at? ⟨behind, c :: (u ++ v)⟩ = none := at?_eq_none_iff.mpr hc
        simp only [List.cons_append, findFrom?, hat, ho]
      · rw [hbehind, List.reverse_cons, List.append_assoc, List.singleton_append]

/-- The leftmost occurrence stands behind the longest silent start of a text. -/
theorem find?_of_silent (hu : p.Silent none u v) (hr : p.read? (lastOf none u) v = some r) :
    ∃ o, p.find? (u ++ v) = some o ∧ o.reading = r ∧ o.before = u := by
  obtain ⟨o, ho, hreading, hbehind⟩ := findFrom?_of_silent [] hu hr
  refine ⟨o, ho, hreading, ?_⟩
  rw [Span.before, hbehind, List.append_nil, List.reverse_reverse]

theorem findFrom?_eq_none_iff (behind : Text) :
    p.findFrom? behind t = none ↔
      p.Silent behind.head? t [] ∧ p.read? (lastOf behind.head? t) [] = none := by
  induction t generalizing behind with
  | nil => rw [findFrom?, at?_eq_none_iff]; simp
  | cons c t ih =>
      have hat : p.at? ⟨behind, c :: t⟩ = none ↔ p.read? behind.head? (c :: t) = none :=
        at?_eq_none_iff
      simp only [findFrom?, silent_cons, List.append_nil, lastOf_cons]
      cases h : p.at? ⟨behind, c :: t⟩ with
      | none => simp [ih, hat.mp h]
      | some o =>
          have hread : p.read? behind.head? (c :: t) ≠ none := by
            rw [ne_eq, ← hat, h]
            exact Option.some_ne_none o
          simp [hread]

theorem find?_eq_none_iff :
    p.find? t = none ↔ p.Silent none t [] ∧ p.read? (lastOf none t) [] = none :=
  findFrom?_eq_none_iff []

theorem find?_eq_none_of_silent (hp : p.Consumes) (h : p.Silent none t []) : p.find? t = none :=
  find?_eq_none_iff.mpr ⟨h, hp.read?_nil _⟩

theorem occursIn_eq_false_of_silent (hp : p.Consumes) (h : p.Silent none t []) : p.occursIn t = false := by
  rw [occursIn, find?_eq_none_of_silent hp h]
  rfl

/-- A text is silent, or the pattern is read behind a silent part of it. -/
theorem silent_or_read (before : Option Char) (t : Text) :
    p.Silent before t [] ∨ ∃ u v r, t = u ++ v ∧ p.Silent before u v ∧ p.read? (lastOf before u) v = some r := by
  induction t generalizing before with
  | nil => exact .inl (silent_nil [])
  | cons c t ih =>
      cases hread : p.read? before (c :: t) with
      | some r => exact .inr ⟨[], c :: t, r, rfl, silent_nil _, hread⟩
      | none =>
          rcases ih (some c) with h | ⟨u, v, r, rfl, hu, hr⟩
          · exact .inl (silent_cons.mpr ⟨by rwa [List.append_nil], h⟩)
          · exact .inr ⟨c :: u, v, r, rfl, silent_cons.mpr ⟨hread, hu⟩, hr⟩

/-- In a text where the pattern cannot begin, the same is found behind a silent text. -/
theorem find?_append (hp : p.Consumes) (ht : ∀ before, p.read? before t = none) (hu : p.Silent none u t) :
    (p.find? (u ++ t) = none ∧ p.find? t = none) ∨
      ∃ o q, p.find? (u ++ t) = some o ∧ p.find? t = some q ∧ o.reading = q.reading ∧ o.before = u ++ q.before ∧
        (q.before ++ q.after).head? = t.head? := by
  cases t with
  | nil =>
      rw [List.append_nil]
      exact .inl ⟨find?_eq_none_of_silent hp hu, find?_eq_none_of_silent hp (silent_nil [])⟩
  | cons c w =>
      have hbehind : ∀ {x y : Text}, w = x ++ y → p.Silent (some c) x y → ∀ before, p.Silent before (c :: x) y := by
        rintro x y rfl hx before
        exact silent_cons.mpr ⟨ht before, hx⟩
      rcases silent_or_read (some c) w with h | ⟨x, y, r, rfl, hx, hr⟩
      · have hsilent := hbehind (List.append_nil w).symm h
        have hall : p.Silent none (u ++ c :: w) [] := Silent.append (by rwa [List.append_nil]) (hsilent _)
        exact .inl ⟨find?_eq_none_of_silent hp hall, find?_eq_none_of_silent hp (hsilent none)⟩
      · have hsilent := hbehind rfl hx
        have hlast : lastOf none (u ++ c :: x) = lastOf (some c) x := by rw [lastOf_append, lastOf_cons]
        obtain ⟨q, hq, hreading, hbefore⟩ := find?_of_silent (u := c :: x) (hsilent none) hr
        obtain ⟨o, ho, hreading', hbefore'⟩ := find?_of_silent (u := u ++ c :: x) (hu.append (hsilent _)) (hlast ▸ hr)
        refine .inr ⟨o, q, by simpa using ho, hq, hreading'.trans hreading.symm, ?_, ?_⟩
        · rw [hbefore', hbefore]
        · rw [hbefore]
          rfl

/-- A pattern occurs in a text if it can be read at some place of it. -/
theorem occursIn_iff :
    p.occursIn t = true ↔ ∃ u v, t = u ++ v ∧ p.read? (lastOf none u) v ≠ none := by
  rw [occursIn, Option.isSome_iff_ne_none, ne_eq, find?_eq_none_iff, silent_iff]
  constructor
  · intro h
    apply Classical.byContradiction
    intro hno
    apply h
    have hall : ∀ u v, t = u ++ v → p.read? (lastOf none u) v = none := by
      intro u v ht
      apply Classical.byContradiction
      exact fun hr => hno ⟨u, v, ht, hr⟩
    refine ⟨fun x y ht _ => ?_, hall t [] (List.append_nil t).symm⟩
    rw [List.append_nil]
    exact hall x y ht
  · rintro ⟨u, v, ht, hr⟩ ⟨hsilent, hend⟩
    cases v with
    | nil =>
        rw [List.append_nil] at ht
        exact hr (ht ▸ hend)
    | cons c v =>
        have h := hsilent u (c :: v) ht (List.cons_ne_nil c v)
        rw [List.append_nil] at h
        exact hr h

theorem occursIn_of_mem_readings (ht : t = u ++ v) (hr : r ∈ p.readings (lastOf none u) v) :
    p.occursIn t = true := by
  refine occursIn_iff.mpr ⟨u, v, ht, ?_⟩
  rw [ne_eq, ← readings_eq_nil_iff]
  exact List.ne_nil_of_mem hr

theorem occursIn_eq_false_iff :
    p.occursIn t = false ↔ ∀ u v, t = u ++ v → p.read? (lastOf none u) v = none := by
  rw [← Bool.not_eq_true, occursIn_iff]
  constructor
  · intro h u v ht
    apply Classical.byContradiction
    exact fun hr => h ⟨u, v, ht, hr⟩
  · rintro h ⟨u, v, ht, hr⟩
    exact hr (h u v ht)

/-- What is read behind a silent stretch is the first occurrence. -/
theorem exists_occurrences_eq_cons (hp : p.Consumes) (hu : p.Silent none u v)
    (hr : p.read? (lastOf none u) v = some r) :
    ∃ o os, p.occurrences (u ++ v) = o :: os ∧ o.reading = r ∧ o.before = u ∧
      os.map (·.reading) = p.found (lastOf (lastOf none u) r.read) r.rest := by
  have hfound : p.found none (u ++ v) = r :: p.found (lastOf (lastOf none u) r.read) r.rest := by
    rw [found_append_of_silent hu, found_of_read? hp hr]
  have hmap := (p.occurrences_reading (u ++ v)).trans hfound
  obtain ⟨o, os, ho, hreading, hrest⟩ := List.map_eq_cons_iff.mp hmap
  refine ⟨o, os, ho, hreading, ?_, hrest⟩
  obtain ⟨w, hw, hread⟩ := exists_of_mem_occurrences (by rw [ho]; exact List.mem_cons_self)
  have hwv : w = v := by rw [← read?_text hread, hreading, read?_text hr]
  rw [hwv] at hw
  exact (List.append_cancel_right hw).symm

theorem occurrences_eq_singleton (hp : p.Consumes) (hu : p.Silent none u v)
    (hr : p.read? (lastOf none u) v = some r)
    (hrest : p.Silent (lastOf (lastOf none u) r.read) r.rest []) :
    ∃ o, p.occurrences (u ++ v) = [o] ∧ o.reading = r ∧ o.before = u := by
  obtain ⟨o, os, ho, hreading, hbefore, hmore⟩ := exists_occurrences_eq_cons hp hu hr
  rw [found_eq_nil_of_silent hrest, List.map_eq_nil_iff] at hmore
  exact ⟨o, hmore ▸ ho, hreading, hbefore⟩

theorem exists_mem_occurrencesFrom (hp : p.Consumes) (hr : p.read? (lastOf none u) v = some r)
    {bound : Text} {place : Cursor} (hbound : place.ahead.length ≤ bound.length)
    (htext : place.text = u ++ v) (hle : place.behind.length ≤ u.length)
    (hcovers : ∀ o ∈ p.occurrencesFrom bound place, ¬o.Covers u.length) :
    ∃ o ∈ p.occurrencesFrom bound place, o.reading = r ∧ o.before = u := by
  have hfirst : v ≠ [] := by
    rintro rfl
    rw [hp.read?_nil] at hr
    cases hr
  have hpos := List.length_pos_iff.mpr hfirst
  have hlength : ∀ {place : Cursor}, place.text = u ++ v →
      place.behind.length + place.ahead.length = u.length + v.length := by
    intro place htext
    have h := congrArg List.length htext
    simpa only [Cursor.text, List.length_append, List.length_reverse] using h
  induction bound generalizing place with
  | nil =>
      have h := hlength htext
      rw [List.length_nil] at hbound
      omega
  | cons _ bound ih =>
      rw [List.length_cons] at hbound
      rw [occurrencesFrom] at hcovers ⊢
      by_cases hhere : place.behind.length = u.length
      · -- the scan has reached the place
        obtain ⟨hbehind, hahead⟩ := List.append_inj htext (by rw [List.length_reverse, hhere])
        rw [← hbehind, ← head?_eq_lastOf_reverse, ← hahead] at hr
        obtain ⟨o, ho, hreading⟩ := exists_at?_of_read? place hr
        rw [ho]
        refine ⟨o, List.mem_cons_self, hreading, ?_⟩
        rw [Span.before, (at?_eq_some ho).2.1, hbehind]
      · cases hat : p.at? place with
        | some o =>
            obtain ⟨hread, hstart, hstop⟩ := at?_eq_some hat
            have hsome := List.length_pos_iff.mpr (hp _ _ _ (mem_of_read? hread))
            have hbehind : o.stop.behind.length = o.reading.read.length + place.behind.length := by
              rw [hstop, List.length_append, List.length_reverse]
            have hstopText := (stop_text hat).trans htext
            have hahead := hlength htext
            have hrest := hlength hstopText
            rw [hat] at hcovers
            -- an occurrence in front of the place ends there at the latest
            have hend := hcovers o List.mem_cons_self
            rw [Occurrence.Covers, hstart] at hend
            obtain ⟨q, hq, hfound⟩ := ih (by omega) hstopText (by omega)
              fun q hq => hcovers q (List.mem_cons_of_mem o hq)
            exact ⟨q, List.mem_cons_of_mem o hq, hfound⟩
        | none =>
            rcases place with ⟨behind, ahead⟩
            rw [hat] at hcovers
            cases ahead with
            | nil =>
                have h := hlength htext
                rw [List.length_nil] at h
                omega
            | cons c ahead =>
                have hnext : (Cursor.mk (c :: behind) ahead).text = u ++ v := by
                  rw [← htext]
                  simp [Cursor.text]
                have hbehind : (c :: behind).length ≤ u.length := Nat.lt_of_le_of_ne hle hhere
                exact ih (Nat.le_of_succ_le_succ hbound) hnext hbehind hcovers

/-- What is read at a place is an occurrence unless another one covers the place. -/
theorem exists_mem_occurrences (hp : p.Consumes) (hr : p.read? (lastOf none u) v = some r)
    (hcovers : ∀ o ∈ p.occurrences (u ++ v), ¬o.Covers u.length) :
    ∃ o ∈ p.occurrences (u ++ v), o.reading = r ∧ o.before = u :=
  exists_mem_occurrencesFrom hp hr (Nat.le_refl _) rfl (Nat.zero_le _) hcovers

theorem length_le_of_mem_scan {before : Option Char} {bound : Text} (h : r ∈ p.scan bound before t) :
    r.read.length + r.rest.length ≤ t.length := by
  induction bound generalizing before t with
  | nil => cases h
  | cons _ bound ih =>
      simp only [scan] at h
      cases hr : p.read? before t with
      | some q =>
          have hlength := congrArg List.length (read?_text hr)
          rw [List.length_append] at hlength
          rw [hr] at h
          rcases List.mem_cons.mp h with rfl | h
          · exact Nat.le_of_eq hlength
          · exact Nat.le_trans (ih h) (by omega)
      | none =>
          rw [hr] at h
          cases t with
          | nil => cases h
          | cons c t => exact Nat.le_trans (ih h) (Nat.le_succ _)

/-- No occurrence covers a place that the readings in front of it do not reach over. -/
theorem not_covers_of_found {rs : List (Match ι)} (h : p.found none (u ++ v) = rs ++ p.found (lastOf none u) v)
    (hrs : ∀ r ∈ rs, v.length ≤ r.rest.length) {o : Occurrence ι} (ho : o ∈ p.occurrences (u ++ v)) :
    ¬o.Covers u.length := by
  have hmem : o.reading ∈ rs ++ p.found (lastOf none u) v := by
    have hfound : (p.occurrences (u ++ v)).map (·.reading) = p.found none (u ++ v) := p.occurrences_reading _
    rw [← h, ← hfound]
    exact List.mem_map_of_mem ho
  obtain ⟨hat, htext⟩ := mem_occurrencesFrom ho
  obtain ⟨hread, -, hstop⟩ := at?_eq_some hat
  have hlength := congrArg List.length htext
  rw [Cursor.text, ← read?_text hread] at hlength
  simp only [Cursor.text, Cursor.atStart, List.length_append, List.length_reverse, List.reverse_nil,
    List.nil_append] at hlength
  rintro ⟨hstart, hend⟩
  rw [hstop, List.length_append, List.length_reverse] at hend
  rcases List.mem_append.mp hmem with hmem | hmem
  · have hrest := hrs _ hmem
    omega
  · have hrest := length_le_of_mem_scan hmem
    omega

end Pattern

theorem cut_singleton {p : Pattern ι} {text : Text} {o : Occurrence ι}
    (h : o ∈ p.occurrences text) : cut text [o.toSpan] = o.before ++ o.after := by
  obtain ⟨-, htext⟩ := Pattern.mem_occurrencesFrom h
  have hsplit : text = o.start.behind.reverse ++ o.start.ahead := htext.symm
  have htake : (Span.mk (.atStart text) o.start).text = o.before := by
    simp only [Span.text, Span.before, Cursor.atStart, hsplit, List.length_append,
      Nat.add_sub_cancel, List.take_left]
  rw [cut, cutFrom, htake]
  rfl

end SchemaDump
