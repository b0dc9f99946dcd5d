import SchemaDump.Proofs.Pattern.Many
import SchemaDump.Proofs.Pattern.Words
/- Texts that a pattern reads to their end, whatever stands in front of them. Such facts compose
along the pattern, so that what is read is put together piece by piece. -/
namespace SchemaDump

variable {ι : Type}

namespace Pattern

/-- The preferred reading in front of `v` takes exactly `u`, with these parts. -/
def Reads (p : Pattern ι) (u v : Text) (parts : List (ι × Text)) : Prop :=
  ∀ before, p.read? before (u ++ v) = some ⟨u, parts, v⟩

/-- The pattern cannot be read at the start of a text, whatever stands in front of it. -/
def Rejects (p : Pattern ι) (t : Text) : Prop := ∀ before, p.read? before t = none

variable {p q : Pattern ι} {t u v w : Text} {ps qs : List (ι × Text)}

theorem Reads.seq (hp : p.Reads u (w ++ v) ps) (hq : q.Reads w v qs) :
    (p ++ q).Reads (u ++ w) v (qs ++ ps) := by
  intro before
  rw [List.append_assoc]
  exact read?_seq (hp before) (hq _)

theorem Reads.seq_end (hp : p.Reads u w ps) (hq : q.Reads w [] qs) :
    (p ++ q).Reads (u ++ w) [] (qs ++ ps) := by
  have hp : p.Reads u (w ++ []) ps := by rwa [List.append_nil]
  exact hp.seq hq

theorem reads_assoc (p q s : Pattern ι) (u v : Text) (ps : List (ι × Text)) :
    (p ++ q ++ s).Reads u v ps ↔ (p ++ (q ++ s)).Reads u v ps := by
  simp only [Reads, read?_seq_assoc]

theorem rejects_assoc (p q s : Pattern ι) (t : Text) :
    (p ++ q ++ s).Rejects t ↔ (p ++ (q ++ s)).Rejects t := by
  simp only [Rejects, read?_seq_assoc]

theorem Reads.of_single (h : ∀ before, p.readings before (u ++ v) = [⟨u, ps, v⟩]) :
    p.Reads u v ps := fun before => read?_of_single (h before)

theorem reads_one {accepts : Char → Bool} {c : Char} (h : accepts c) (v : Text) :
    (one accepts : Pattern ι).Reads [c] v [] := fun before => read?_one h before v

theorem reads_keyword (word : String) (v : Text) :
    (keyword word : Pattern ι).Reads word.toList v [] := fun before => read?_keyword word before v

theorem reads_literal (mark : String) (v : Text) :
    (literal mark : Pattern ι).Reads mark.toList v [] :=
  .of_single fun before => readings_literal mark before v

theorem reads_run {accepts : Char → Bool} (hu : ∀ c ∈ u, accepts c) (hv : Stops accepts v) :
    (run accepts .longest : Pattern ι).Reads u v [] := fun _ => read?_longest hu hv

theorem reads_run1 {accepts : Char → Bool} (hne : u ≠ []) (hu : ∀ c ∈ u, accepts c)
    (hv : Stops accepts v) : (run1 accepts .longest : Pattern ι).Reads u v [] :=
  fun _ => read?_run1_longest hne hu hv

theorem reads_blanks (hv : Stops isBlank v) : (blanks : Pattern ι).Reads [' '] v [] :=
  .of_single fun before => readings_blanks hv before

theorem reads_no_gap (hv : Stops isBlank v) : (gap : Pattern ι).Reads [] v [] :=
  .of_single fun _ => readings_run_of_stops hv

theorem reads_gap (hv : Stops isBlank v) : (gap : Pattern ι).Reads [' '] v [] :=
  reads_run (by simp [isBlank]) hv

theorem Reads.part (label : ι) (h : p.Reads u v ps) :
    (part label p).Reads u v ((label, u) :: ps) := by
  intro before
  rw [read?_part, h before]
  rfl

theorem Reads.preferred (h : p.Reads u v ps) (q : Pattern ι) : (alt p q).Reads u v ps :=
  fun before => read?_alt_of_some (h before)

theorem Reads.other (hp : p.Rejects (u ++ v)) (h : q.Reads u v qs) : (alt p q).Reads u v qs :=
  fun before => (read?_alt_of_none (hp before)).trans (h before)

theorem Reads.maybe (h : p.Reads u v ps) : (maybe p).Reads u v ps := h.preferred empty

/-- A part that may be missing is read if what follows it can be read behind it. -/
theorem Reads.maybe_seq (h : (p ++ q).Reads u v ps) : (Pattern.maybe p ++ q).Reads u v ps := by
  intro before
  rw [read?_maybe_seq, h before, Option.some_or]

/-- A part that may be missing is left out if what follows it cannot be read behind it. -/
theorem Reads.skipped (hp : (p ++ q).Rejects (u ++ v)) (hq : q.Reads u v qs) :
    (Pattern.maybe p ++ q).Reads u v qs := by
  intro before
  rw [read?_maybe_seq, hp before, Option.none_or, hq before]

theorem Reads.preferred_seq (s : Pattern ι) (h : (p ++ q).Reads u v ps) : (Pattern.alt p s ++ q).Reads u v ps := by
  intro before
  rw [read?_alt_seq, h before, Option.some_or]

theorem Reads.other_seq {s : Pattern ι} (hp : (p ++ q).Rejects (u ++ v)) (h : (s ++ q).Reads u v qs) :
    (Pattern.alt p s ++ q).Reads u v qs := by
  intro before
  rw [read?_alt_seq, hp before, Option.none_or, h before]

theorem reads_missing (h : p.Rejects v) : (maybe p).Reads [] v [] :=
  fun before => read?_maybe_none (h before)

theorem reads_rounds_none (hc : p.Consumes) (h : p.Rejects v) : (many p).Reads [] v [] :=
  fun before => read?_many_of_none hc (h before)

theorem Reads.round (hc : p.Consumes) (h : p.Reads u (w ++ v) ps) (hr : (many p).Reads w v qs) :
    (many p).Reads (u ++ w) v (qs ++ ps) := by
  intro before
  rw [List.append_assoc]
  exact read?_many_of_some hc (h before) (hr _)

/-- Rounds that read a text each, where `Follows` tells what may stand behind one of them. -/
theorem reads_rounds {α : Type} (hc : p.Consumes) (text : α → Text) (Follows : Text → Prop)
    {l : List α} (h : ∀ a ∈ l, ∀ w, Follows w → p.Reads (text a) w [])
    (hnext : ∀ a ∈ l, ∀ w, Follows (text a ++ w)) (hv : Follows v) (hend : p.Rejects v) :
    (many p).Reads (l.flatMap text) v [] := by
  induction l with
  | nil => exact reads_rounds_none hc hend
  | cons a l ih =>
      have hl := ih (fun b hb => h b (List.mem_cons_of_mem a hb))
        fun b hb => hnext b (List.mem_cons_of_mem a hb)
      have hfollows : Follows (l.flatMap text ++ v) := by
        cases l with
        | nil => exact hv
        | cons b l =>
            rw [List.flatMap_cons, List.append_assoc]
            exact hnext b (by simp) _
      exact Reads.round hc (h a List.mem_cons_self _ hfollows) hl

theorem Reads.characters (hc : p.Consumes) (h : ∀ c ∈ u, ∀ w, p.Reads [c] w [])
    (hr : (many p).Reads w v qs) : (many p).Reads (u ++ w) v qs := by
  induction u with
  | nil => exact hr
  | cons c u ih =>
      have hu := ih fun d hd => h d (List.mem_cons_of_mem c hd)
      have hround := Reads.round hc (h c List.mem_cons_self _) hu
      rwa [List.append_nil] at hround

/-- Words with single blanks between them, none of which starts with a blank. -/
theorem reads_phrase {words : List String} (hne : words ≠ [])
    (hwords : ∀ word ∈ words, word.toList ≠ [] ∧ Stops isBlank word.toList) (v : Text) :
    (phrase words : Pattern ι).Reads (spacedWords words) v [] := by
  induction words with
  | nil => exact absurd rfl hne
  | cons word words ih =>
      cases words with
      | nil => exact reads_keyword word v
      | cons next words =>
          have hrest := ih (List.cons_ne_nil next words)
            fun w hw => hwords w (List.mem_cons_of_mem word hw)
          obtain ⟨hnext, hblank⟩ := hwords next (by simp)
          have hstops : ∀ w, Stops isBlank (next.toList ++ w) := by
            intro w
            obtain ⟨c, letters, hletters⟩ := List.exists_cons_of_ne_nil hnext
            rw [hletters] at hblank ⊢
            exact stops_cons.mpr (stops_cons.mp hblank)
          have hgap : (blanks : Pattern ι).Reads [' '] (spacedWords (next :: words) ++ v) [] := by
            apply reads_blanks
            cases words with
            | nil => exact hstops v
            | cons => exact (List.append_assoc _ _ v).symm ▸ hstops _
          have h := ((reads_keyword word _).seq hgap).seq hrest
          rwa [List.append_assoc] at h

/-- A run that is as short as possible stops in front of the first place where the next pattern
can be read. -/
theorem reads_shortest {accepts : Char → Bool} {label : ι} (hne : u ≠ []) (hu : ∀ c ∈ u, accepts c)
    (hsilent : ∀ before, q.Silent before u (w ++ v)) (hq : q.Reads w v qs) :
    (part label (run1 accepts .shortest) ++ q).Reads (u ++ w) v (qs ++ [(label, u)]) := by
  intro before
  rw [List.append_assoc]
  exact read?_part_shortest_seq hne hu (hsilent before) (hq (lastOf before u))

theorem reads_shortest_run {accepts : Char → Bool} (hu : ∀ c ∈ u, accepts c)
    (hsilent : ∀ before, q.Silent before u (w ++ v)) (hq : q.Reads w v qs) :
    (run accepts .shortest ++ q).Reads (u ++ w) v qs := by
  intro before
  rw [List.append_assoc, read?_shortest_seq hu (hsilent before) (hq (lastOf before u))]
  simp [Match.andThen]

theorem reads_part_shortest_run {accepts : Char → Bool} {label : ι} (hu : ∀ c ∈ u, accepts c)
    (hsilent : ∀ before, q.Silent before u (w ++ v)) (hq : q.Reads w v qs) :
    (part label (run accepts .shortest) ++ q).Reads (u ++ w) v (qs ++ [(label, u)]) := by
  intro before
  rw [List.append_assoc]
  exact read?_part_run_shortest_seq hu (hsilent before) (hq (lastOf before u))

/-- A run that is as short as possible stops somewhere behind `u`, if the next pattern can be read at the
end of the text. -/
theorem exists_read?_shortest {accepts : Char → Bool} {label : ι} {before : Option Char} (hne : u ≠ [])
    (hu : ∀ c ∈ u ++ w, accepts c) (hsilent : q.Silent before u w) (hend : ∀ before, q.read? before [] ≠ none) :
    ∃ x y r, w = x ++ y ∧ q.read? (lastOf before (u ++ x)) y = some r ∧
      (part label (run1 accepts .shortest) ++ q).read? before (u ++ w) =
        some (Match.andThen ⟨u ++ x, [(label, u ++ x)], y⟩ r) := by
  -- the run stops where the next pattern can be read
  have hstop : ∀ {u w r}, u ≠ [] → (∀ c ∈ u ++ w, accepts c) → q.Silent before u w →
      q.read? (lastOf before u) w = some r → ∃ x y r, w = x ++ y ∧
        q.read? (lastOf before (u ++ x)) y = some r ∧
          (part label (run1 accepts .shortest) ++ q).read? before (u ++ w) =
            some (Match.andThen ⟨u ++ x, [(label, u ++ x)], y⟩ r) := by
    intro u w r hne hu hsilent hr
    refine ⟨[], w, r, rfl, by rwa [List.append_nil], ?_⟩
    rw [List.append_nil]
    exact read?_part_shortest_seq hne (fun d hd => hu d (List.mem_append_left _ hd)) hsilent hr
  induction w generalizing u with
  | nil =>
      obtain ⟨r, hr⟩ := Option.ne_none_iff_exists'.mp (hend (lastOf before u))
      exact hstop hne hu hsilent hr
  | cons d w ih =>
      cases hread : q.read? (lastOf before u) (d :: w) with
      | some r => exact hstop hne hu hsilent hread
      | none =>
          -- the run goes on for one more character
          have hlonger : q.Silent before (u ++ [d]) w :=
            Silent.append hsilent (silent_cons.mpr ⟨hread, silent_nil _⟩)
          have hsplit : u ++ d :: w = (u ++ [d]) ++ w := List.append_cons u d w
          obtain ⟨x, y, r, rfl, hr, hall⟩ := ih (List.append_ne_nil_of_left_ne_nil hne [d]) (hsplit ▸ hu) hlonger
          simp only [← List.append_cons] at hr hall
          exact ⟨d :: x, y, r, rfl, hr, hall⟩

theorem reads_textEnd : (textEnd : Pattern ι).Reads [] [] [] := fun _ => rfl

/-- What is read starts with a character that the pattern starts with. -/
theorem Reads.stops (h : p.Reads u v ps) (hp : p.nullable = false) {accepts : Char → Bool}
    (hstart : ∀ c, accepts c → p.starts c = false) (w : Text) : Stops accepts (u ++ w) := by
  have hmem := mem_of_read? (h none)
  obtain ⟨c, rest, hu⟩ := List.exists_cons_of_ne_nil (read_ne_nil hp hmem)
  have hc := starts_of_mem hmem c (by rw [hu]; rfl)
  have hu : u = c :: rest := hu
  rw [hu]
  refine stops_cons.mpr ?_
  cases hblank : accepts c with
  | false => rfl
  | true =>
      rw [hstart c hblank] at hc
      cases hc

theorem Rejects.of_starts (hp : p.nullable = false) (h : Stops p.starts t) : p.Rejects t :=
  fun _ => read?_eq_none_of_starts hp h

theorem Rejects.not_mem (h : p.Rejects t) {before : Option Char} {r : Match ι} : r ∉ p.readings before t := by
  rw [List.head?_eq_none_iff.mp (h before)]
  exact List.not_mem_nil

theorem Rejects.seq (h : p.Rejects t) (q : Pattern ι) : (p ++ q).Rejects t :=
  fun before => read?_seq_none (h before)

theorem Rejects.missing (hp : p.Rejects t) (hq : q.Rejects t) : (Pattern.maybe p ++ q).Rejects t :=
  fun before => (read?_maybe_seq_of_none (hp before)).trans (hq before)

theorem Rejects.maybe_seq (hp : (p ++ q).Rejects t) (hq : q.Rejects t) :
    (Pattern.maybe p ++ q).Rejects t := by
  intro before
  rw [read?_maybe_seq, hp before, Option.none_or, hq before]

theorem Rejects.alt (hp : p.Rejects t) (hq : q.Rejects t) : (Pattern.alt p q).Rejects t :=
  fun before => (read?_alt_of_none (hp before)).trans (hq before)

theorem Rejects.anyOf_seq {ps : List (Pattern ι)} (h : ∀ p ∈ ps, (p ++ q).Rejects t) :
    (anyOf ps ++ q).Rejects t := by
  induction ps with
  | nil =>
      have hnone : (one fun _ => false : Pattern ι).Rejects t := by
        refine .of_starts rfl ?_
        intro c _
        rfl
      exact hnone.seq q
  | cons p ps ih =>
      cases ps with
      | nil => exact h p List.mem_cons_self
      | cons next ps =>
          intro before
          rw [anyOf, read?_alt_seq, h p List.mem_cons_self before,
            ih (fun p hp => h p (List.mem_cons_of_mem _ hp)) before]
          rfl
          intro h; cases h

theorem Rejects.behind (h : ∀ before, p.readings before (u ++ v) = [⟨u, ps, v⟩])
    (hq : q.Rejects v) : (p ++ q).Rejects (u ++ v) := by
  intro before
  rw [read?_seq_of_single (h before), hq]
  rfl

theorem Rejects.keyword_seq {word : String} (hq : q.Rejects v) :
    (Pattern.keyword word ++ q).Rejects (word.toList ++ v) :=
  .behind (fun before => readings_keyword word before v) hq

theorem Rejects.part_seq (label : ι) (h : (p ++ q).Rejects t) :
    (Pattern.part label p ++ q).Rejects t := by
  intro before
  rw [read?_seq_eq_none]
  intro a ha
  obtain ⟨b, hb, rfl⟩ := List.mem_map.mp ha
  exact read?_seq_eq_none.mp (h before) b hb

theorem Rejects.blanks (hv : Stops isBlank v) (h : q.Rejects v) :
    (Pattern.blanks ++ q).Rejects (' ' :: v) := by
  intro before
  rw [read?_blanks_seq hv, h]
  rfl

theorem rejects_blanks (ht : Stops isBlank t) : (blanks ++ q).Rejects t :=
  Rejects.seq (fun _ => read?_run1_of_stops ht) q

theorem Rejects.gap (hu : ∀ c ∈ u, isBlank c) (hv : Stops isBlank v) (hq : q.nullable = false)
    (hstart : ∀ c, isBlank c → q.starts c = false) (h : q.Rejects v) :
    (Pattern.gap ++ q).Rejects (u ++ v) := by
  intro before
  rw [read?_gap_seq hu hv hq hstart, h]
  rfl

theorem Rejects.keyword {word : String} {c : Char} {letters : Text}
    (hword : word.toList = c :: letters) (h : Stops (sameLetter c) t) :
    (Pattern.keyword word : Pattern ι).Rejects t := by
  refine .of_starts (by rw [Pattern.keyword, hword]; rfl) ?_
  intro d hd
  rw [Pattern.keyword, hword, starts_spelled_cons]
  exact h d hd

/-- Whether a letter of a word differs from the character at its place in a text. -/
def clashes : (word t : Text) → Bool
  | c :: word, d :: t => !sameLetter c d || clashes word t
  | _, _ => false

theorem append_ne_of_clash {letters e x y : Text} (h : clashes letters u)
    (he : spells sameLetter letters e) : e ++ x ≠ u ++ y := by
  induction letters generalizing u e with
  | nil => simp [clashes] at h
  | cons c letters ih =>
      cases u with
      | nil => simp [clashes] at h
      | cons d u =>
          cases e with
          | nil => simp [spells] at he
          | cons k e =>
              obtain ⟨hk, he⟩ := Bool.and_eq_true_iff.mp he
              intro ht
              obtain ⟨rfl, hrest⟩ := List.cons.inj ht
              rw [clashes, hk, Bool.not_true, Bool.false_or] at h
              exact ih h he hrest

theorem Rejects.of_clash {word : String} (h : clashes word.toList u) (v : Text) :
    (Pattern.keyword word : Pattern ι).Rejects (u ++ v) := by
  intro before
  cases hr : (Pattern.keyword word : Pattern ι).read? before (u ++ v) with
  | none => rfl
  | some r =>
      obtain ⟨-, hspells, ht⟩ := mem_readings_keyword.mp (mem_of_read? hr)
      exact absurd ht (append_ne_of_clash h hspells)

/-- Two words clash in whatever letter case one of them is written. -/
theorem clashes_spelled {word letters : Text} (hword : ∀ c ∈ word, c.isAlpha) (hletters : ∀ c ∈ letters, c.isAlpha)
    (h : spells sameLetter letters u) : clashes word u = clashes word letters := by
  induction word generalizing letters u with
  | nil => simp [clashes]
  | cons c word ih =>
      cases letters with
      | nil =>
          cases u with
          | nil => rfl
          | cons d u => cases h
      | cons e letters =>
          cases u with
          | nil => cases h
          | cons d u =>
              obtain ⟨he, hrest⟩ := Bool.and_eq_true_iff.mp h
              have hc := hword c List.mem_cons_self
              have hsame : sameLetter c d = sameLetter c e := by
                have hfold := (sameLetter_iff (hletters e List.mem_cons_self)).mp he
                have hself := (sameLetter_iff (hletters e List.mem_cons_self)).mp (sameLetter_self e)
                rw [Bool.eq_iff_iff, sameLetter_iff hc, sameLetter_iff hc, hfold, hself]
              rw [clashes, clashes, hsame, ih (fun c hc => hword c (List.mem_cons_of_mem _ hc))
                (fun c hc => hletters c (List.mem_cons_of_mem _ hc)) hrest]

end Pattern
end SchemaDump
