import SchemaDump.Proofs.Pattern.Shape
/- A pattern without edges, ends and rounds reads a text in the same way whatever stands around
it. A text in which all its readings end before some place can be scanned in two parts. -/
namespace SchemaDump

variable {ι : Type}

def Match.extend (v : Text) (r : Match ι) : Match ι := { r with rest := r.rest ++ v }

@[simp] theorem Match.extend_read (v : Text) (r : Match ι) : (r.extend v).read = r.read := rfl
@[simp] theorem Match.extend_parts (v : Text) (r : Match ι) : (r.extend v).parts = r.parts := rfl
@[simp] theorem Match.extend_rest (v : Text) (r : Match ι) :
    (r.extend v).rest = r.rest ++ v := rfl

theorem Match.extend_andThen (v : Text) (r s : Match ι) :
    (r.extend v).andThen (s.extend v) = (r.andThen s).extend v := rfl

namespace Pattern

/-- Whether a pattern looks at nothing but the characters it reads. -/
def plain : Pattern ι → Bool
  | empty | one _ | run _ _ => true
  | wordEdge | textEnd | many _ => false
  | seq p q | alt p q => p.plain && q.plain
  | part _ p => p.plain

variable {p q : Pattern ι} {t u v : Text} {r : Match ι}

theorem readings_before (hp : p.plain) (before after : Option Char) (t : Text) :
    p.readings before t = p.readings after t := by
  induction p generalizing before after t with
  | empty => rfl
  | one accepts => cases t <;> rfl
  | run accepts preference => cases preference <;> rfl
  | wordEdge | textEnd | many => cases hp
  | seq p q ihp ihq =>
      obtain ⟨hp, hq⟩ := Bool.and_eq_true_iff.mp hp
      have hsecond : ∀ r : Match ι, q.readings (lastOf before r.read) r.rest =
          q.readings (lastOf after r.read) r.rest := fun r => ihq hq _ _ r.rest
      simp only [readings, ihp hp before after, hsecond]
  | alt p q ihp ihq =>
      obtain ⟨hp, hq⟩ := Bool.and_eq_true_iff.mp hp
      simp only [readings, ihp hp before after, ihq hq before after]
  | part label p ih => simp only [readings, ih hp before after]

theorem read?_before (hp : p.plain) (before after : Option Char) (t : Text) :
    p.read? before t = p.read? after t := by
  rw [read?, readings_before hp before after, read?]

theorem stretches_append_filter (accepts : Char → Bool) (t v : Text) :
    (stretches accepts (t ++ v)).filter (fun s => s.1.length ≤ t.length) =
      (stretches accepts t).map fun s => (s.1, s.2 ++ v) := by
  induction t with
  | nil =>
      cases v with
      | nil => rfl
      | cons c v =>
          by_cases hc : accepts c <;> simp [stretches, hc, List.filter_map, Function.comp_def]
  | cons c t ih =>
      by_cases hc : accepts c
      · simp only [List.cons_append, stretches, hc, if_true, List.filter_cons, List.length_nil,
          Nat.zero_le, decide_true, List.map_cons, List.map_map, List.filter_map,
          Function.comp_def, List.length_cons, Nat.add_le_add_iff_right, ih]
      · simp [stretches, hc]

/-- Elements that yield nothing may as well be left out. -/
theorem flatMap_filter_of_nil {α β : Type} (small : α → Bool) (l : List α) (g : α → List β)
    (h : ∀ a ∈ l, small a = false → g a = []) : l.flatMap g = (l.filter small).flatMap g := by
  induction l with
  | nil => rfl
  | cons a l ih =>
      have hl := ih fun b hb => h b (List.mem_cons_of_mem a hb)
      cases ha : small a with
      | true => rw [List.filter_cons_of_pos ha, List.flatMap_cons, List.flatMap_cons, hl]
      | false =>
          rw [List.filter_cons_of_neg (by simp [ha]), List.flatMap_cons, h a List.mem_cons_self ha,
            List.nil_append, hl]

/-- Of the readings of a longer text, those that stay within its first part are the readings of
that part. -/
theorem readings_append_filter (hp : p.plain) (before : Option Char) (t v : Text) :
    (p.readings before (t ++ v)).filter (fun r => r.read.length ≤ t.length) =
      (p.readings before t).map (·.extend v) := by
  induction p generalizing before t with
  | empty => simp [readings, Match.extend]
  | one accepts =>
      cases t with
      | nil =>
          cases v with
          | nil => rfl
          | cons c v =>
              by_cases hc : accepts c <;> simp [readings, hc]
      | cons c t =>
          by_cases hc : accepts c <;> simp [readings, hc, Match.extend]
  | run accepts preference =>
      have h := congrArg (List.map fun s => (⟨s.1, [], s.2⟩ : Match ι))
        (stretches_append_filter accepts t v)
      rw [List.map_map] at h
      cases preference with
      | longest =>
          simp only [readings, List.filter_map, List.filter_reverse, List.map_reverse,
            List.map_map, Function.comp_def]
          exact congrArg List.reverse h
      | shortest =>
          simp only [readings, List.filter_map, List.map_map, Function.comp_def]
          exact h
  | wordEdge | textEnd | many => cases hp
  | seq p q ihp ihq =>
      obtain ⟨hp, hq⟩ := Bool.and_eq_true_iff.mp hp
      simp only [readings, List.filter_flatMap, List.map_flatMap]
      rw [flatMap_filter_of_nil (fun a => decide (a.read.length ≤ t.length)), ihp hp, List.flatMap_map]
      · rw [List.flatMap_def, List.flatMap_def]
        refine congrArg List.flatten (List.map_congr_left ?_)
        intro a ha
        have hlen : a.read.length + a.rest.length = t.length := by
          rw [← List.length_append, readings_text p before t a ha]
        have hsmall : ∀ b : Match ι, decide (((a.extend v).andThen b).read.length ≤ t.length) =
            decide (b.read.length ≤ a.rest.length) := by
          intro b
          rw [Match.andThen_read, List.length_append, Match.extend_read, ← hlen]
          exact decide_eq_decide.mpr Nat.add_le_add_iff_left
        simp only [List.filter_map, Function.comp_def, hsmall, Match.extend_read,
          Match.extend_rest, ihq hq, List.map_map, Match.extend_andThen]
      · intro a ha hlarge
        rw [decide_eq_false_iff_not] at hlarge
        rw [List.filter_eq_nil_iff]
        intro b hb
        obtain ⟨c, -, rfl⟩ := List.mem_map.mp hb
        rw [decide_eq_true_eq, Match.andThen_read, List.length_append]
        omega
  | alt p q ihp ihq =>
      obtain ⟨hp, hq⟩ := Bool.and_eq_true_iff.mp hp
      simp only [readings, List.filter_append, List.map_append, ihp hp, ihq hq]
  | part label p ih =>
      have h := congrArg (List.map (Match.labelled label)) (ih hp before t)
      rw [List.map_map] at h
      rw [readings, readings, List.filter_map, List.map_map]
      exact h

theorem mem_readings_append (hp : p.plain) {before : Option Char} :
    r ∈ p.readings before t → r.extend v ∈ p.readings before (t ++ v) := by
  intro hr
  have hm : r.extend v ∈ (p.readings before t).map (·.extend v) := List.mem_map.mpr ⟨r, hr, rfl⟩
  rw [← readings_append_filter hp] at hm
  exact (List.mem_filter.mp hm).1

/-- A reading that stays within the first part of a text is one of that part. -/
theorem exists_of_mem_readings_append (hp : p.plain) {before : Option Char}
    (hr : r ∈ p.readings before (t ++ v)) (hl : r.read.length ≤ t.length) :
    ∃ s ∈ p.readings before t, s.extend v = r := by
  have hm : r ∈ (p.readings before (t ++ v)).filter (fun r => r.read.length ≤ t.length) :=
    List.mem_filter.mpr ⟨hr, decide_eq_true hl⟩
  rw [readings_append_filter hp] at hm
  exact List.mem_map.mp hm

/-- What is read somewhere is read up to the end where nothing stands behind it. -/
theorem read?_textEnd_ne_none (hp : p.plain) {before : Option Char} (hr : r ∈ p.readings before t)
    (after : Option Char) : (p ++ textEnd).read? after r.read ≠ none := by
  rw [← readings_text p before t r hr] at hr
  obtain ⟨s, hs, hext⟩ := exists_of_mem_readings_append hp hr (Nat.le_refl _)
  have hread : s.read = r.read := by rw [← hext, Match.extend_read]
  have hrest : s.rest = [] := by
    have htext := readings_text p _ _ s hs
    rw [hread] at htext
    exact List.append_right_eq_self.mp htext
  rw [readings_before hp _ after] at hs
  intro hnone
  have hend := read?_seq_eq_none.mp hnone s hs
  rw [hrest] at hend
  cases hend

/-- No reading that starts in `u` reaches into `v`. -/
def StaysWithin (p : Pattern ι) (u v : Text) : Prop :=
  ∀ x y, u = x ++ y → y ≠ [] → ∀ before, ∀ r ∈ p.readings before (y ++ v),
    r.read.length ≤ y.length

theorem StaysWithin.suffix {x : Text} (h : p.StaysWithin (x ++ u) v) : p.StaysWithin u v := by
  intro y z hu
  exact h (x ++ y) z (by rw [hu, List.append_assoc])

theorem StaysWithin.read?_append (h : p.StaysWithin u v) (hp : p.plain) (hu : u ≠ [])
    (before : Option Char) : p.read? before (u ++ v) = (p.read? before u).map (·.extend v) := by
  have hall : (p.readings before (u ++ v)).filter (fun r => r.read.length ≤ u.length) =
      p.readings before (u ++ v) := by
    rw [List.filter_eq_self]
    intro r hr
    exact decide_eq_true (h [] u rfl hu before r hr)
  rw [read?, ← hall, readings_append_filter hp, List.head?_map, read?]

theorem scan_before (hp : p.plain) (bound : Text) (before after : Option Char) (t : Text) :
    p.scan bound before t = p.scan bound after t := by
  induction bound generalizing before after t with
  | nil => rfl
  | cons _ bound ih =>
      simp only [scan, read?_before hp before after]
      cases p.read? after t with
      | none => rfl
      | some r => exact congrArg (r :: ·) (ih _ _ r.rest)

theorem found_before (hp : p.plain) (t : Text) (before after : Option Char) :
    p.found before t = p.found after t := scan_before hp t before after t

/-- If no reading crosses the seam of two texts, their parts are found one after the other. -/
theorem StaysWithin.found_append (h : p.StaysWithin u v) (hp : p.plain) (hc : p.Consumes)
    (before : Option Char) :
    (p.found before (u ++ v)).map (·.parts) =
      (p.found before u).map (·.parts) ++ (p.found before v).map (·.parts) := by
  induction hl : u.length using Nat.strongRecOn generalizing u before with
  | ind n ih =>
      subst hl
      cases u with
      | nil => rfl
      | cons c w =>
          have happend := h.read?_append hp (List.cons_ne_nil c w) before
          cases hr : p.read? before (c :: w) with
          | none =>
              rw [hr, Option.map_none] at happend
              have hw := StaysWithin.suffix (x := [c]) h
              have hfound : p.found before (c :: w ++ v) = p.found (some c) (w ++ v) :=
                found_of_none happend
              rw [found_of_none hr, hfound, ih w.length (by simp) hw (some c) rfl,
                found_before hp v before (some c)]
          | some r =>
              rw [hr, Option.map_some] at happend
              have ht := read?_text hr
              have hpos := List.length_pos_iff.mpr (hc _ _ r (mem_of_read? hr))
              have hlen : r.read.length + r.rest.length = (c :: w).length := by
                rw [← List.length_append, ht]
              have hw := StaysWithin.suffix (x := r.read) (ht.symm ▸ h)
              rw [found_of_read? hc hr, found_of_read? hc happend, List.map_cons, List.map_cons,
                Match.extend_rest, Match.extend_read, Match.extend_parts,
                ih r.rest.length (by omega) hw _ rfl, found_before hp v before (lastOf before r.read),
                List.cons_append]

end Pattern
end SchemaDump
