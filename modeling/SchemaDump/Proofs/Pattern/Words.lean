import SchemaDump.Proofs.Pattern.Shape
import SchemaDump.Proofs.Text.CharClass
/- Reading keywords, literal text and blanks. A text that is built from words, single blanks and
marks is read token by token; the rules below each take one token off its front. -/
namespace SchemaDump

variable {ι : Type}

/-- The reading behind a text that is read first. -/
def Match.behind (u : Text) (r : Match ι) : Match ι := { r with read := u ++ r.read }

@[simp] theorem Match.behind_mk (u w v : Text) (parts : List (ι × Text)) :
    Match.behind u ⟨w, parts, v⟩ = ⟨u ++ w, parts, v⟩ := rfl

@[simp] theorem Match.behind_nil (r : Match ι) : r.behind [] = r := rfl

theorem Match.andThen_eq_behind (u v : Text) :
    (Match.mk (ι := ι) u [] v).andThen = Match.behind u := by
  funext r
  simp [Match.andThen, Match.behind]

def spacedWords : List String → Text
  | [] => []
  | [word] => word.toList
  | word :: words => word.toList ++ ' ' :: spacedWords words

namespace Pattern

variable {p q : Pattern ι} {before : Option Char} {t u v : Text} {r : Match ι}

/-- Whether the characters of a text are accepted one by one for those of another. -/
def spells (accepts : Char → Char → Bool) : Text → Text → Bool
  | [], [] => true
  | c :: w, d :: u => accepts c d && spells accepts w u
  | _, _ => false

theorem mem_readings_spelled {accepts : Char → Char → Bool} {w : Text} :
    r ∈ (spelled accepts w : Pattern ι).readings before t ↔
      r.parts = [] ∧ spells accepts w r.read ∧ r.read ++ r.rest = t := by
  induction w generalizing before t r with
  | nil =>
      simp only [spelled, readings, List.mem_singleton]
      constructor
      · rintro rfl
        simp [spells]
      · rcases r with ⟨read, parts, rest⟩
        rintro ⟨hparts, hread, ht⟩
        cases read with
        | nil => simp_all
        | cons => cases hread
  | cons c w ih =>
      simp only [spelled, mem_readings_seq]
      constructor
      · rintro ⟨a, ha, b, hb, rfl⟩
        obtain ⟨hparts, hread, ht⟩ := ih.mp hb
        cases t with
        | nil => simp [readings] at ha
        | cons d t =>
            simp only [readings] at ha
            split at ha
            · next hd =>
              rw [List.mem_singleton.mp ha] at ht ⊢
              simp only [Match.andThen, hparts, List.append_nil, List.cons_append, List.nil_append,
                spells, hd, hread, Bool.and_self, true_and]
              exact congrArg (d :: ·) ht
            · cases ha
      · rintro ⟨hparts, hread, ht⟩
        rcases r with ⟨read, parts, rest⟩
        cases read with
        | nil => cases hread
        | cons d read =>
            simp only [spells, Bool.and_eq_true] at hread
            refine ⟨⟨[d], [], read ++ rest⟩, ?_, ⟨read, parts, rest⟩, ?_, ?_⟩
            · rw [← ht, List.cons_append, readings_one hread.1]
              exact List.mem_singleton_self _
            · exact ih.mpr ⟨hparts, hread.2, rfl⟩
            · simp [Match.andThen]

theorem readings_spelled {accepts : Char → Char → Bool} {w u : Text} (h : spells accepts w u) :
    (spelled accepts w : Pattern ι).readings before (u ++ v) = [⟨u, [], v⟩] := by
  induction w generalizing before u with
  | nil =>
      cases u with
      | nil => rfl
      | cons => cases h
  | cons c w ih =>
      cases u with
      | nil => cases h
      | cons d u =>
          simp only [spells, Bool.and_eq_true] at h
          rw [spelled, List.cons_append, readings_seq_of_single (readings_one h.1 before (u ++ v)), ih h.2]
          rfl

theorem spells_self {accepts : Char → Char → Bool} (h : ∀ c, accepts c c) (w : Text) :
    spells accepts w w := by
  induction w with
  | nil => rfl
  | cons c w ih => simp [spells, h c, ih]

theorem spells_length {accepts : Char → Char → Bool} {w u : Text} (h : spells accepts w u) :
    u.length = w.length := by
  induction w generalizing u with
  | nil => cases u <;> simp_all [spells]
  | cons c w ih =>
      cases u with
      | nil => cases h
      | cons d u =>
          simp only [spells, Bool.and_eq_true] at h
          simp [ih h.2]

theorem spells_append {accepts : Char → Char → Bool} {a b e z : Text} (ha : spells accepts a e)
    (hb : spells accepts b z) : spells accepts (a ++ b) (e ++ z) := by
  induction a generalizing e with
  | nil =>
      cases e with
      | nil => exact hb
      | cons => cases ha
  | cons c a ih =>
      cases e with
      | nil => cases ha
      | cons d e =>
          obtain ⟨hc, ha⟩ := Bool.and_eq_true_iff.mp ha
          exact Bool.and_eq_true_iff.mpr ⟨hc, ih ha⟩

theorem exists_of_spells_append {accepts : Char → Char → Bool} {a b w : Text}
    (h : spells accepts (a ++ b) w) :
    ∃ e z, w = e ++ z ∧ spells accepts a e ∧ spells accepts b z := by
  induction a generalizing w with
  | nil => exact ⟨[], w, rfl, rfl, h⟩
  | cons c a ih =>
      cases w with
      | nil => cases h
      | cons d w =>
          obtain ⟨hc, h⟩ := Bool.and_eq_true_iff.mp h
          obtain ⟨e, z, rfl, ha, hb⟩ := ih h
          exact ⟨d :: e, z, rfl, Bool.and_eq_true_iff.mpr ⟨hc, ha⟩, hb⟩

theorem readings_keyword (word : String) (before : Option Char) (v : Text) :
    (keyword word : Pattern ι).readings before (word.toList ++ v) = [⟨word.toList, [], v⟩] :=
  readings_spelled (spells_self sameLetter_self word.toList)

theorem mem_readings_keyword {word : String} :
    r ∈ (keyword word : Pattern ι).readings before t ↔
      r.parts = [] ∧ spells sameLetter word.toList r.read ∧ r.read ++ r.rest = t :=
  mem_readings_spelled

theorem spells_literal_iff {w u : Text} : spells (fun expected c => c == expected) w u ↔ u = w := by
  induction w generalizing u with
  | nil => cases u <;> simp [spells]
  | cons c w ih => cases u <;> simp [spells, ih]

theorem mem_readings_literal {mark : String} :
    r ∈ (literal mark : Pattern ι).readings before t ↔
      r.parts = [] ∧ r.read = mark.toList ∧ r.read ++ r.rest = t := by
  rw [literal, mem_readings_spelled, spells_literal_iff]

/-- A word of letters is only spelled by word characters. -/
theorem isWordChar_of_spells {w u : Text} (hw : ∀ c ∈ w, c.isAlpha) (h : spells sameLetter w u) :
    ∀ c ∈ u, isWordChar c := by
  induction w generalizing u with
  | nil => cases u <;> simp_all [spells]
  | cons c w ih =>
      cases u with
      | nil => cases h
      | cons d u =>
          simp only [spells, Bool.and_eq_true] at h
          intro e he
          rcases List.mem_cons.mp he with rfl | he
          · exact isWordChar_of_sameLetter (hw c List.mem_cons_self) h.1
          · exact ih (fun c hc => hw c (List.mem_cons_of_mem _ hc)) h.2 e he

@[simp] theorem starts_spelled_cons {accepts : Char → Char → Bool} {c d : Char} {w : Text} :
    (spelled accepts (c :: w) : Pattern ι).starts d = accepts c d := by
  simp [spelled, append_eq_seq, starts, nullable]

@[simp] theorem nullable_spelled_cons {accepts : Char → Char → Bool} {c : Char} {w : Text} :
    (spelled accepts (c :: w) : Pattern ι).nullable = false := rfl

theorem starts_keyword_eq_false {word : String} {c : Char} (hw : ∀ d ∈ word.toList, d.isAlpha)
    (hc : isWordChar c = false) : (keyword word : Pattern ι).starts c = false := by
  rw [keyword]
  cases h : word.toList with
  | nil => rfl
  | cons d w =>
      rw [starts_spelled_cons]
      exact sameLetter_eq_false (hw d (by rw [h]; exact List.mem_cons_self)) hc

theorem starts_keyword_seq_of_blank {word : String} {q : Pattern ι}
    (hnull : (keyword word : Pattern ι).nullable = false) (hletters : ∀ c ∈ word.toList, c.isAlpha)
    (c : Char) (hc : isBlank c) : (keyword word ++ q).starts c = false := by
  rw [append_eq_seq, starts, hnull, starts_keyword_eq_false hletters (isWordChar_eq_false_of_isBlank hc)]
  rfl

theorem exists_head_of_mem (hp : p.nullable = false) (hr : r ∈ p.readings before t) :
    ∃ c u, t = c :: u ∧ p.starts c := by
  have ht := readings_text p before t r hr
  cases hread : r.read with
  | nil => exact absurd hread (read_ne_nil hp hr)
  | cons c u =>
      refine ⟨c, u ++ r.rest, ?_, starts_of_mem hr c (by rw [hread]; rfl)⟩
      rw [← ht, hread, List.cons_append]

theorem read?_of_single (h : p.readings before t = [r]) : p.read? before t = some r := by
  rw [read?, h]
  rfl

theorem read?_single_seq (h : p.readings before t = [⟨u, [], v⟩]) :
    (p ++ q).read? before t = (q.read? (lastOf before u) v).map (·.behind u) := by
  rw [read?_seq_of_single h, Match.andThen_eq_behind]

theorem read?_keyword (word : String) (before : Option Char) (v : Text) :
    (keyword word : Pattern ι).read? before (word.toList ++ v) = some ⟨word.toList, [], v⟩ :=
  read?_of_single (readings_keyword word before v)

theorem read?_keyword_seq (word : String) (q : Pattern ι) (before : Option Char) (v : Text) :
    (keyword word ++ q).read? before (word.toList ++ v) =
      (q.read? (lastOf before word.toList) v).map (·.behind word.toList) :=
  read?_single_seq (readings_keyword word before v)

theorem readings_literal (mark : String) (before : Option Char) (v : Text) :
    (literal mark : Pattern ι).readings before (mark.toList ++ v) = [⟨mark.toList, [], v⟩] :=
  readings_spelled (@spells_self (fun expected c => c == expected) (fun c => beq_self_eq_true c) _)

theorem read?_literal_seq (mark : String) (q : Pattern ι) (before : Option Char) (v : Text) :
    (literal mark ++ q).read? before (mark.toList ++ v) =
      (q.read? (lastOf before mark.toList) v).map (·.behind mark.toList) :=
  read?_single_seq (readings_literal mark before v)

theorem readings_blanks (h : Stops isBlank v) (before : Option Char) :
    (blanks : Pattern ι).readings before (' ' :: v) = [⟨[' '], [], v⟩] := by
  rw [blanks, run1, readings_seq_of_single (readings_one (by decide) before v),
    readings_run_of_stops h]
  rfl

theorem read?_blanks_seq (h : Stops isBlank v) (q : Pattern ι) (before : Option Char) :
    (blanks ++ q).read? before (' ' :: v) = (q.read? (some ' ') v).map (·.behind [' ']) :=
  read?_single_seq (readings_blanks h before)

/-- A longest run in front of a pattern that starts outside its class takes all it can. -/
theorem read?_longest_seq {accepts : Char → Bool} (hu : ∀ c ∈ u, accepts c) (hv : Stops accepts v)
    (hq : q.nullable = false) (hstart : ∀ c, accepts c → q.starts c = false) :
    (run accepts .longest ++ q).read? before (u ++ v) =
      (q.read? (lastOf before u) v).map (·.behind u) := by
  have hfirst : (run accepts .longest : Pattern ι).read? before (u ++ v) = some ⟨u, [], v⟩ :=
    read?_longest hu hv
  cases hr : q.read? (lastOf before u) v with
  | some s =>
      rw [read?_seq hfirst hr, Match.andThen_eq_behind]
      rfl
  | none =>
      rw [Option.map_none, read?_seq_eq_none]
      intro a ha
      obtain ⟨-, ht, hread⟩ := mem_readings_run.mp ha
      rcases List.append_eq_append_iff.mp ht with ⟨w, hw, hrest⟩ | ⟨w, hw, hrest⟩
      · cases w with
        | nil =>
            rw [List.append_nil] at hw
            rw [List.nil_append] at hrest
            rw [← hw, hrest]
            exact hr
        | cons c w =>
            apply read?_eq_none_of_starts hq
            rw [hrest, List.cons_append, stops_cons]
            apply hstart
            apply hu
            rw [hw]
            exact List.mem_append_right _ List.mem_cons_self
      · cases w with
        | nil =>
            rw [List.append_nil] at hw
            rw [List.nil_append] at hrest
            rw [hw, ← hrest]
            exact hr
        | cons c w =>
            rw [hrest, List.cons_append, stops_cons] at hv
            have hc := hread c (by rw [hw]; exact List.mem_append_right _ List.mem_cons_self)
            rw [hv] at hc
            cases hc

theorem read?_gap_seq (hu : ∀ c ∈ u, isBlank c) (hv : Stops isBlank v)
    (hq : q.nullable = false) (hstart : ∀ c, isBlank c → q.starts c = false) :
    (gap ++ q).read? before (u ++ v) = (q.read? (lastOf before u) v).map (·.behind u) :=
  read?_longest_seq hu hv hq hstart

end Pattern
end SchemaDump
