import SchemaDump.Proofs.Pattern.Scan
/- How the preferred reading of a composed pattern comes from the readings of its parts. -/
namespace SchemaDump

variable {ι : Type}

@[simp] theorem Match.nil_andThen (t : Text) (r : Match ι) :
    (Match.mk [] [] t).andThen r = r := by
  simp [Match.andThen]

namespace Pattern

variable {p q : Pattern ι} {before : Option Char} {t : Text} {r s : Match ι}

theorem append_eq_seq (p q : Pattern ι) : p ++ q = seq p q := rfl

theorem readings_seq (p q : Pattern ι) (before : Option Char) (t : Text) :
    (p ++ q).readings before t =
      (p.readings before t).flatMap fun r =>
        (q.readings (lastOf before r.read) r.rest).map r.andThen := rfl

theorem mem_readings_seq :
    r ∈ (p ++ q).readings before t ↔
      ∃ a ∈ p.readings before t, ∃ b ∈ q.readings (lastOf before a.read) a.rest,
        a.andThen b = r := by
  simp only [readings_seq, List.mem_flatMap, List.mem_map]

theorem readings_seq_assoc (p q u : Pattern ι) (before : Option Char) (t : Text) :
    (p ++ q ++ u).readings before t = (p ++ (q ++ u)).readings before t := by
  have hassoc : ∀ a b : Match ι, (a.andThen b).andThen = fun c => a.andThen (b.andThen c) :=
    fun a b => funext (Match.andThen_assoc a b)
  simp only [readings_seq, List.flatMap_assoc, List.flatMap_map, List.map_flatMap, List.map_map,
    Function.comp_def, Match.andThen_read, Match.andThen_rest, lastOf_append, hassoc]

theorem read?_seq_assoc (p q u : Pattern ι) (before : Option Char) (t : Text) :
    (p ++ q ++ u).read? before t = (p ++ (q ++ u)).read? before t := by
  simp only [read?, readings_seq_assoc]

/-- Readings that the next pattern cannot continue are passed over. -/
theorem read?_seq_of_skipped {as bs : List (Match ι)}
    (hp : p.readings before t = as ++ r :: bs)
    (has : ∀ a ∈ as, q.read? (lastOf before a.read) a.rest = none)
    (hq : q.read? (lastOf before r.read) r.rest = some s) :
    (p ++ q).read? before t = some (r.andThen s) := by
  have hnil : (as.flatMap fun a => (q.readings (lastOf before a.read) a.rest).map a.andThen) = [] := by
    rw [List.flatMap_eq_nil_iff]
    intro a ha
    rw [readings_eq_nil_iff.mpr (has a ha), List.map_nil]
  rw [read?, readings_seq, hp, List.flatMap_append, hnil, List.nil_append, List.flatMap_cons]
  obtain ⟨qs, hqs⟩ : ∃ qs, q.readings (lastOf before r.read) r.rest = s :: qs := by
    rw [read?] at hq
    cases h : q.readings (lastOf before r.read) r.rest with
    | nil => rw [h] at hq; cases hq
    | cons a qs =>
        rw [h] at hq
        exact ⟨qs, by rw [Option.some.inj hq]⟩
  rw [hqs]
  rfl

theorem readings_eq_cons (h : p.read? before t = some r) :
    ∃ rs, p.readings before t = r :: rs := by
  rw [read?] at h
  cases hr : p.readings before t with
  | nil => rw [hr] at h; cases h
  | cons a rs =>
      rw [hr] at h
      exact ⟨rs, by rw [Option.some.inj h]⟩

theorem read?_seq (hp : p.read? before t = some r)
    (hq : q.read? (lastOf before r.read) r.rest = some s) :
    (p ++ q).read? before t = some (r.andThen s) := by
  obtain ⟨rs, hrs⟩ := readings_eq_cons hp
  have hsplit : p.readings before t = [] ++ r :: rs := hrs
  exact read?_seq_of_skipped hsplit (by simp) hq

theorem read?_seq_ne_none (hp : p.read? before t = some r)
    (hq : q.read? (lastOf before r.read) r.rest ≠ none) : (p ++ q).read? before t ≠ none := by
  obtain ⟨s, hs⟩ := Option.ne_none_iff_exists'.mp hq
  rw [read?_seq hp hs]
  exact Option.some_ne_none _

theorem read?_seq_eq_none : (p ++ q).read? before t = none ↔
    ∀ a ∈ p.readings before t, q.read? (lastOf before a.read) a.rest = none := by
  rw [← readings_eq_nil_iff, readings_seq, List.flatMap_eq_nil_iff]
  simp only [List.map_eq_nil_iff, readings_eq_nil_iff]

theorem read?_seq_none (hp : p.read? before t = none) : (p ++ q).read? before t = none := by
  rw [read?_seq_eq_none, readings_eq_nil_iff.mpr hp]
  simp

theorem readings_seq_of_single (hp : p.readings before t = [r]) :
    (p ++ q).readings before t = (q.readings (lastOf before r.read) r.rest).map r.andThen := by
  rw [readings_seq, hp, List.flatMap_cons, List.flatMap_nil, List.append_nil]

theorem read?_seq_of_single (hp : p.readings before t = [r]) :
    (p ++ q).read? before t = (q.read? (lastOf before r.read) r.rest).map r.andThen := by
  rw [read?, readings_seq_of_single hp, List.head?_map, read?]

theorem readings_alt (p q : Pattern ι) (before : Option Char) (t : Text) :
    (alt p q).readings before t = p.readings before t ++ q.readings before t := rfl

theorem read?_alt (p q : Pattern ι) (before : Option Char) (t : Text) :
    (alt p q).read? before t = (p.read? before t).or (q.read? before t) := by
  rw [read?, readings_alt, List.head?_append, read?, read?]

theorem read?_alt_of_some (h : p.read? before t = some r) : (alt p q).read? before t = some r := by
  rw [read?_alt, h, Option.some_or]

theorem read?_alt_of_none (h : p.read? before t = none) :
    (alt p q).read? before t = q.read? before t := by
  rw [read?_alt, h, Option.none_or]

theorem readings_alt_seq (p q u : Pattern ι) (before : Option Char) (t : Text) :
    (alt p q ++ u).readings before t = (p ++ u).readings before t ++ (q ++ u).readings before t := by
  simp only [readings_seq, readings_alt, List.flatMap_append]

theorem read?_alt_seq (p q u : Pattern ι) (before : Option Char) (t : Text) :
    (alt p q ++ u).read? before t = ((p ++ u).read? before t).or ((q ++ u).read? before t) := by
  rw [read?, readings_alt_seq, List.head?_append, read?, read?]

theorem readings_empty_seq (u : Pattern ι) (before : Option Char) (t : Text) :
    (empty ++ u).readings before t = u.readings before t := by
  have hid : (Match.mk (ι := ι) [] [] t).andThen = id := funext (Match.nil_andThen t)
  simp [readings_seq, readings, hid]

theorem read?_maybe_seq (p u : Pattern ι) (before : Option Char) (t : Text) :
    (maybe p ++ u).read? before t = ((p ++ u).read? before t).or (u.read? before t) := by
  have hempty : (empty ++ u).read? before t = u.read? before t :=
    congrArg List.head? (readings_empty_seq u before t)
  rw [maybe, read?_alt_seq, hempty]

theorem mem_readings_maybe : r ∈ (maybe p).readings before t ↔ r ∈ p.readings before t ∨ r = ⟨[], [], t⟩ := by
  rw [maybe, readings_alt, List.mem_append]
  exact or_congr_right List.mem_singleton

theorem read?_maybe_seq_of_none {u : Pattern ι} (h : p.read? before t = none) :
    (maybe p ++ u).read? before t = u.read? before t := by
  rw [read?_maybe_seq, read?_seq_none h, Option.none_or]

theorem read?_maybe_none (h : p.read? before t = none) :
    (maybe p).read? before t = some ⟨[], [], t⟩ := by
  rw [maybe, read?_alt, h, Option.none_or]
  rfl

theorem readings_part (label : ι) (p : Pattern ι) (before : Option Char) (t : Text) :
    (part label p).readings before t = (p.readings before t).map (·.labelled label) := rfl

theorem read?_part (label : ι) (p : Pattern ι) (before : Option Char) (t : Text) :
    (part label p).read? before t = (p.read? before t).map (·.labelled label) := by
  rw [read?, readings_part, List.head?_map, read?]

theorem read?_one {accepts : Char → Bool} {c : Char} (h : accepts c) (before : Option Char)
    (t : Text) : (one accepts : Pattern ι).read? before (c :: t) = some ⟨[c], [], t⟩ := by
  simp [read?, readings, h]

theorem readings_one {accepts : Char → Bool} {c : Char} (h : accepts c) (before : Option Char)
    (t : Text) : (one accepts : Pattern ι).readings before (c :: t) = [⟨[c], [], t⟩] := by
  simp [readings, h]

theorem mem_readings_textEnd :
    r ∈ (textEnd : Pattern ι).readings before t ↔ t = [] ∧ r = ⟨[], [], []⟩ := by
  rw [readings]
  cases t <;> simp

theorem rest_of_mem_readings_textEnd (h : r ∈ (p ++ textEnd).readings before t) : r.rest = [] := by
  obtain ⟨a, -, b, hb, rfl⟩ := mem_readings_seq.mp h
  rw [Match.andThen_rest, (mem_readings_textEnd.mp hb).2]

/-- The text does not go on with a character of the class. -/
def Stops (accepts : Char → Bool) (t : Text) : Prop := ∀ c ∈ t.head?, accepts c = false

instance (accepts : Char → Bool) (t : Text) : Decidable (Stops accepts t) :=
  inferInstanceAs (Decidable (∀ c ∈ t.head?, accepts c = false))

@[simp] theorem stops_nil (accepts : Char → Bool) : Stops accepts [] := by simp [Stops]

@[simp] theorem stops_cons {accepts : Char → Bool} {c : Char} {t : Text} :
    Stops accepts (c :: t) ↔ accepts c = false := by simp [Stops]

theorem dropWhile_append_of_stops {accepts : Char → Bool} {u v : Text} (hu : ∀ c ∈ u, accepts c)
    (hv : Stops accepts v) : (u ++ v).dropWhile accepts = v := by
  induction u with
  | nil =>
      cases v with
      | nil => rfl
      | cons c v =>
          rw [List.nil_append, List.dropWhile_cons_of_neg (by simp [stops_cons.mp hv])]
  | cons c u ih =>
      rw [List.cons_append, List.dropWhile_cons_of_pos (hu c List.mem_cons_self)]
      exact ih fun d hd => hu d (List.mem_cons_of_mem c hd)

theorem takeWhile_append_of_stops {accepts : Char → Bool} {u v : Text} (hu : ∀ c ∈ u, accepts c)
    (hv : Stops accepts v) : (u ++ v).takeWhile accepts = u := by
  rw [List.takeWhile_append_of_pos hu]
  cases v with
  | nil => simp
  | cons c v => rw [List.takeWhile_cons_of_neg (by simp [stops_cons.mp hv]), List.append_nil]

theorem stretches_of_stops {accepts : Char → Bool} (h : Stops accepts t) :
    stretches accepts t = [([], t)] := by
  cases t with
  | nil => rfl
  | cons c t => simp [stretches, stops_cons.mp h]

/-- The stretches shorter than `u` come before those that reach its end. -/
theorem stretches_append {accepts : Char → Bool} {u v : Text} (hu : ∀ c ∈ u, accepts c) :
    ∃ nearer, stretches accepts (u ++ v) =
        nearer ++ (stretches accepts v).map (fun s => (u ++ s.1, s.2)) ∧
      ∀ s ∈ nearer, ∃ y, y ≠ [] ∧ u = s.1 ++ y ∧ s.2 = y ++ v := by
  induction u with
  | nil => exact ⟨[], by simp, by simp⟩
  | cons c u ih =>
      obtain ⟨nearer, hs, hn⟩ := ih fun d hd => hu d (List.mem_cons_of_mem c hd)
      refine ⟨([], c :: (u ++ v)) :: nearer.map fun s => (c :: s.1, s.2), ?_, ?_⟩
      · simp [stretches, hu c List.mem_cons_self, hs, Function.comp_def]
      · intro s hm
        rcases List.mem_cons.mp hm with rfl | hm
        · exact ⟨c :: u, List.cons_ne_nil c u, rfl, rfl⟩
        · obtain ⟨s', hs', rfl⟩ := List.mem_map.mp hm
          obtain ⟨y, hy, hu', hv⟩ := hn s' hs'
          exact ⟨y, hy, by rw [List.cons_append, ← hu'], hv⟩

theorem stretches_append_cons {accepts : Char → Bool} {u v : Text} (hu : ∀ c ∈ u, accepts c) :
    ∃ nearer farther, stretches accepts (u ++ v) = nearer ++ (u, v) :: farther ∧
      ∀ s ∈ nearer, ∃ y, y ≠ [] ∧ u = s.1 ++ y ∧ s.2 = y ++ v := by
  obtain ⟨nearer, hs, hn⟩ := stretches_append (v := v) hu
  obtain ⟨farther, hf⟩ : ∃ farther, stretches accepts v = ([], v) :: farther := by
    cases v with
    | nil => exact ⟨[], rfl⟩
    | cons c v => exact ⟨_, rfl⟩
  refine ⟨nearer, farther.map fun s => (u ++ s.1, s.2), ?_, hn⟩
  rw [hs, hf]
  simp

theorem readings_run_of_stops {accepts : Char → Bool} {preference : Preference}
    (h : Stops accepts t) :
    (run accepts preference : Pattern ι).readings before t = [⟨[], [], t⟩] := by
  cases preference <;> simp [readings, stretches_of_stops h]

theorem read?_longest {accepts : Char → Bool} {u v : Text} (hu : ∀ c ∈ u, accepts c)
    (hv : Stops accepts v) :
    (run accepts .longest : Pattern ι).read? before (u ++ v) = some ⟨u, [], v⟩ := by
  obtain ⟨nearer, hs, -⟩ := stretches_append (v := v) hu
  rw [read?, readings, hs, stretches_of_stops hv]
  simp

theorem read?_run1_longest {accepts : Char → Bool} {u v : Text} (hne : u ≠ [])
    (hu : ∀ c ∈ u, accepts c) (hv : Stops accepts v) :
    (run1 accepts .longest : Pattern ι).read? before (u ++ v) = some ⟨u, [], v⟩ := by
  cases u with
  | nil => exact absurd rfl hne
  | cons c u =>
      have hrest : (run accepts .longest : Pattern ι).read? (some c) (u ++ v) = some ⟨u, [], v⟩ :=
        read?_longest (fun d hd => hu d (List.mem_cons_of_mem c hd)) hv
      exact read?_seq (read?_one (hu c List.mem_cons_self) before (u ++ v)) hrest

theorem read?_run1_of_stops {accepts : Char → Bool} {preference : Preference}
    (h : Stops accepts t) : (run1 accepts preference : Pattern ι).read? before t = none := by
  apply read?_seq_none
  cases t with
  | nil => rfl
  | cons c t => simp [read?, readings, stops_cons.mp h]

theorem mem_readings_one {accepts : Char → Bool}
    (h : r ∈ (one accepts : Pattern ι).readings before t) :
    ∃ c, accepts c ∧ r.parts = [] ∧ r.read = [c] ∧ t = c :: r.rest := by
  cases t with
  | nil => cases h
  | cons c t =>
      simp only [readings] at h
      split at h
      · next hc =>
        rw [List.mem_singleton.mp h]
        exact ⟨c, hc, rfl, rfl, rfl⟩
      · cases h

theorem mem_readings_run {accepts : Char → Bool} {preference : Preference} :
    r ∈ (run accepts preference : Pattern ι).readings before t ↔
      r.parts = [] ∧ r.read ++ r.rest = t ∧ ∀ c ∈ r.read, accepts c := by
  have h : r ∈ (run accepts preference : Pattern ι).readings before t ↔
      ∃ s ∈ stretches accepts t, (⟨s.1, [], s.2⟩ : Match ι) = r := by
    cases preference <;> simp [readings]
  rw [h]
  constructor
  · rintro ⟨s, hs, rfl⟩
    exact ⟨rfl, mem_stretches.mp hs⟩
  · rintro ⟨hparts, hr⟩
    refine ⟨(r.read, r.rest), mem_stretches.mpr hr, ?_⟩
    cases r
    simp_all

theorem mem_readings_run1 {accepts : Char → Bool} {preference : Preference}
    (h : r ∈ (run1 accepts preference : Pattern ι).readings before t) :
    r.read ≠ [] ∧ r.parts = [] ∧ t = r.read ++ r.rest ∧ ∀ c ∈ r.read, accepts c := by
  obtain ⟨a, ha, b, hb, rfl⟩ := mem_readings_seq.mp h
  obtain ⟨c, hc, haparts, hread, rfl⟩ := mem_readings_one ha
  obtain ⟨hparts, htext, hall⟩ := mem_readings_run.mp hb
  refine ⟨by simp [hread], by simp [haparts, hparts], by simp [hread, htext], ?_⟩
  intro d hd
  rw [Match.andThen_read, hread] at hd
  rcases List.mem_cons.mp hd with rfl | hd
  · exact hc
  · exact hall d hd

/-- A shortest run ends at the first place where the next pattern can be read. -/
theorem read?_shortest_seq {accepts : Char → Bool} {u v : Text} (hu : ∀ c ∈ u, accepts c)
    (hsilent : q.Silent before u v) (hq : q.read? (lastOf before u) v = some s) :
    (run accepts .shortest ++ q).read? before (u ++ v) = some (Match.andThen ⟨u, [], v⟩ s) := by
  obtain ⟨nearer, farther, hs, hn⟩ := stretches_append_cons (v := v) hu
  have hsplit : (run accepts .shortest : Pattern ι).readings before (u ++ v) =
      (nearer.map fun s => ⟨s.1, [], s.2⟩) ++ ⟨u, [], v⟩ :: farther.map fun s => ⟨s.1, [], s.2⟩ := by
    simp [readings, hs]
  refine read?_seq_of_skipped hsplit ?_ hq
  intro a ha
  obtain ⟨s', hs', rfl⟩ := List.mem_map.mp ha
  obtain ⟨y, hy, hu', hv⟩ := hn s' hs'
  simpa only [hv] using silent_iff.mp hsilent s'.1 y hu' hy

theorem read?_part_run_shortest_seq {accepts : Char → Bool} {label : ι} {u v : Text}
    (hu : ∀ c ∈ u, accepts c) (hsilent : q.Silent before u v)
    (hq : q.read? (lastOf before u) v = some s) :
    (part label (run accepts .shortest) ++ q).read? before (u ++ v) =
      some (Match.andThen ⟨u, [(label, u)], v⟩ s) := by
  obtain ⟨nearer, farther, hs, hn⟩ := stretches_append_cons (v := v) hu
  have hsplit : (part label (run accepts .shortest) : Pattern ι).readings before (u ++ v) =
      (nearer.map fun s => ⟨s.1, [(label, s.1)], s.2⟩) ++
        ⟨u, [(label, u)], v⟩ :: farther.map fun s => ⟨s.1, [(label, s.1)], s.2⟩ := by
    rw [readings_part, readings, hs]
    simp only [List.map_append, List.map_cons, List.map_map]
    rfl
  refine read?_seq_of_skipped hsplit ?_ hq
  intro a ha
  obtain ⟨s', hs', rfl⟩ := List.mem_map.mp ha
  obtain ⟨y, hy, hu', hv⟩ := hn s' hs'
  simpa only [hv] using silent_iff.mp hsilent s'.1 y hu' hy

/-- The same for a labelled run of at least one character. -/
theorem read?_part_shortest_seq {accepts : Char → Bool} {label : ι} {u v : Text} (hne : u ≠ [])
    (hu : ∀ c ∈ u, accepts c) (hsilent : q.Silent before u v) (hq : q.read? (lastOf before u) v = some s) :
    (part label (run1 accepts .shortest) ++ q).read? before (u ++ v) =
      some (Match.andThen ⟨u, [(label, u)], v⟩ s) := by
  obtain ⟨c, u, rfl⟩ := List.exists_cons_of_ne_nil hne
  have hsilent := (silent_cons.mp hsilent).2
  obtain ⟨nearer, farther, hs, hn⟩ :=
    stretches_append_cons (v := v) fun d hd => hu d (List.mem_cons_of_mem c hd)
  have hone := readings_one (ι := ι) (hu c List.mem_cons_self) before (u ++ v)
  have hsplit : (part label (run1 accepts .shortest) : Pattern ι).readings before (c :: (u ++ v)) =
      (nearer.map fun s => ⟨c :: s.1, [(label, c :: s.1)], s.2⟩) ++
        ⟨c :: u, [(label, c :: u)], v⟩ ::
          farther.map fun s => ⟨c :: s.1, [(label, c :: s.1)], s.2⟩ := by
    rw [readings_part, run1, readings_seq_of_single hone, readings, hs]
    simp only [List.map_append, List.map_cons, List.map_map]
    rfl
  refine read?_seq_of_skipped hsplit ?_ hq
  intro a ha
  obtain ⟨s', hs', rfl⟩ := List.mem_map.mp ha
  obtain ⟨y, hy, hu', hv⟩ := hn s' hs'
  simpa only [lastOf_cons, hv] using silent_iff.mp hsilent s'.1 y hu' hy

end Pattern
end SchemaDump
