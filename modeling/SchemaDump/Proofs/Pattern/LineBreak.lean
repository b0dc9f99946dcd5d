import SchemaDump.Proofs.Pattern.Find
import SchemaDump.Proofs.Pattern.Frame
import SchemaDump.Proofs.Pattern.Many
import SchemaDump.Proofs.Text.LineBreak
/- Patterns that do not tell the two forms of a line break apart. In a text with carriage returns
they have the same readings; readings that end inside a line break come to nothing. -/
namespace SchemaDump
open Text

variable {ι : Type}

namespace Match

/-- The same reading where line breaks have carriage returns. -/
def withReturns (r : Match ι) : Match ι :=
  ⟨Text.withReturns r.read, r.parts.map fun part => (part.1, Text.withReturns part.2),
    Text.withReturns r.rest⟩

/-- The reading does not stop in front of the line feed of a line break. -/
def keepsBreaks (r : Match ι) : Bool := r.rest.head? != some '\n'

theorem withReturns_andThen (r s : Match ι) :
    r.withReturns.andThen s.withReturns = (r.andThen s).withReturns := by
  simp [withReturns, andThen]

theorem withReturns_andThen_feed (t : Text) (r : Match ι) :
    (Match.mk ['\r'] [] ('\n' :: Text.withReturns t)).andThen
        ((Match.mk ['\n'] [] (Text.withReturns t)).andThen r.withReturns) =
      ((Match.mk ['\n'] [] t).andThen r).withReturns := by
  simp [withReturns, andThen]

theorem part?_withReturns [DecidableEq ι] (r : Match ι) (label : ι) :
    r.withReturns.part? label = (r.part? label).map Text.withReturns := by
  simp only [part?, withReturns, List.find?_map, Option.map_map]
  rfl

theorem part_withReturns [DecidableEq ι] (r : Match ι) (label : ι) :
    r.withReturns.part label = Text.withReturns (r.part label) := by
  rw [part, part?_withReturns, part]
  cases r.part? label <;> rfl

end Match

theorem getLast?_of_withReturns_eq {t u v : Text} (h : t.withReturns = u ++ '\n' :: v) :
    u.getLast? = some '\r' := by
  induction t generalizing u with
  | nil => simp at h
  | cons c t ih =>
      by_cases hc : c = '\n'
      · subst hc
        rw [withReturns_feed] at h
        cases u with
        | nil => exact absurd (List.cons.inj h).1 (by decide)
        | cons d u =>
            obtain ⟨rfl, htail⟩ := List.cons.inj h
            cases u with
            | nil => rfl
            | cons e u =>
                have hu := ih (u := u) (List.cons.inj htail).2
                rw [List.getLast?_cons_cons, List.getLast?_cons, hu]
                rfl
      · rw [withReturns_cons hc] at h
        cases u with
        | nil => exact absurd (List.cons.inj h).1 hc
        | cons d u =>
            rw [List.getLast?_cons, ih (u := u) (List.cons.inj h).2]
            rfl

theorem head?_withReturns (t : Text) : t.withReturns.head? ≠ some '\n' := by
  intro h
  obtain ⟨v, hv⟩ := List.head?_eq_some_iff.mp h
  have hlast := getLast?_of_withReturns_eq (u := []) hv
  cases hlast

theorem lastOf_withReturns (before : Option Char) (t : Text) :
    lastOf before t.withReturns = lastOf before t := by
  induction t generalizing before with
  | nil => rfl
  | cons c t ih =>
      by_cases hc : c = '\n'
      · subst hc
        exact ih _
      · rw [withReturns_cons hc]
        exact ih _

/-- Where a stretch of characters that may span line breaks can end. -/
theorem stretches_withReturns {accepts : Char → Bool} (h : Alike accepts) (t : Text) :
    (stretches accepts t.withReturns).filter (fun s => s.2.head? != some '\n') =
      (stretches accepts t).map fun s => (withReturns s.1, withReturns s.2) := by
  induction t with
  | nil => rfl
  | cons c t ih =>
      by_cases hc : c = '\n'
      · subst hc
        cases hfeed : accepts '\n' with
        | true =>
            simp only [withReturns_feed, stretches, show accepts '\r' = _ from h, hfeed, if_true,
              List.map_cons, List.filter_cons, List.filter_map, Function.comp_def, ih, List.map_map]
            rfl
        | false =>
            simp only [withReturns_feed, stretches, show accepts '\r' = _ from h, hfeed]
            rfl
      · have hhead : ((c :: withReturns t).head? != some '\n') = true := by simpa using hc
        rw [withReturns_cons hc]
        cases haccepts : accepts c with
        | true =>
            simp only [stretches, haccepts, if_true, List.filter_cons, hhead, List.filter_map,
              Function.comp_def, ih, List.map_map, List.map_cons, withReturns_nil,
              withReturns_cons hc]
        | false =>
            simp only [stretches, haccepts, Bool.false_eq_true, if_false, List.filter_cons, hhead,
              if_true, List.filter_nil, List.map_cons, List.map_nil, withReturns_nil,
              withReturns_cons hc]

namespace Pattern

variable {p q : Pattern ι} {before : Option Char} {t : Text} {r : Match ι}

/-- The readings of a pattern in a text with carriage returns are those in the text without,
apart from some that end inside a line break. -/
def SeesThrough (p : Pattern ι) : Prop :=
  ∀ before t, '\r' ∉ t → (p.readings before t.withReturns).filter (·.keepsBreaks) =
    (p.readings before t).map (·.withReturns)

/-- A check for it. A single character is never part of a line break, unless more characters of
its kind may follow, and what starts with a line feed does not stand behind a carriage return. -/
def lineBlind : Pattern ι → Bool
  | empty | wordEdge | textEnd => true
  | one accepts => !accepts '\r' && !accepts '\n'
  | run accepts _ => accepts '\r' == accepts '\n'
  | seq (one first) (run more _) =>
      first '\r' == first '\n' && more '\r' == more '\n' && (!first '\n' || more '\n')
  | seq p q => p.lineBlind && q.lineBlind && (!p.ends '\r' || !q.starts '\n')
  | alt p q => p.lineBlind && q.lineBlind
  | many (alt (one accepts) q) =>
      accepts '\r' && accepts '\n' && q.lineBlind && !q.nullable && !q.starts '\r' &&
        !q.starts '\n' && !q.ends '\r'
  | many _ => false
  | part _ p => p.lineBlind

theorem not_mem_rest {d : Char} (h : d ∉ t) (hr : r ∈ p.readings before t) : d ∉ r.rest := by
  intro hd
  apply h
  rw [← readings_text p before t r hr]
  exact List.mem_append_right _ hd

theorem getLast?_of_not_keepsBreaks (hr : r ∈ p.readings before t.withReturns)
    (hbreak : r.keepsBreaks = false) : r.read.getLast? = some '\r' := by
  have hhead : r.rest.head? = some '\n' := by simpa [Match.keepsBreaks] using hbreak
  obtain ⟨v, hv⟩ := List.head?_eq_some_iff.mp hhead
  have ht := readings_text p before _ r hr
  rw [hv] at ht
  exact getLast?_of_withReturns_eq ht.symm

theorem keepsBreaks_of_ends (hends : p.ends '\r' = false)
    (hr : r ∈ p.readings before t.withReturns) : r.keepsBreaks = true := by
  cases hbreak : r.keepsBreaks with
  | true => rfl
  | false =>
      have hend := ends_of_mem hr '\r' (getLast?_of_not_keepsBreaks hr hbreak)
      rw [hends] at hend
      cases hend

/-- Inside a line break a pattern that does not start with a line feed gets no further. -/
theorem keepsBreaks_of_starts (hstarts : p.starts '\n' = false) {v : Text}
    (hr : r ∈ p.readings before ('\n' :: v)) : r.keepsBreaks = false := by
  have ht := readings_text p before _ r hr
  cases hread : r.read with
  | nil =>
      rw [hread, List.nil_append] at ht
      rw [Match.keepsBreaks, ht]
      rfl
  | cons c u =>
      rw [hread] at ht
      have hstart := starts_of_mem hr c (by rw [hread]; rfl)
      rw [(List.cons.inj ht).1, hstarts] at hstart
      cases hstart

theorem SeesThrough.readings (h : p.SeesThrough) (hends : p.ends '\r' = false) (ht : '\r' ∉ t) :
    p.readings before t.withReturns = (p.readings before t).map (·.withReturns) := by
  rw [← h before t ht, List.filter_eq_self.mpr fun r hr => keepsBreaks_of_ends hends hr]

theorem seesThrough_one {accepts : Char → Bool} (hreturn : accepts '\r' = false)
    (hfeed : accepts '\n' = false) : (one accepts : Pattern ι).SeesThrough := by
  intro before t _
  cases t with
  | nil => rfl
  | cons c t =>
      by_cases hc : c = '\n'
      · subst hc
        simp [Pattern.readings, hreturn, hfeed]
      · rw [withReturns_cons hc]
        have hkeeps := head?_withReturns t
        cases haccepts : accepts c <;>
          simp [Pattern.readings, haccepts, Match.withReturns, Match.keepsBreaks, hkeeps,
            withReturns_cons hc]

theorem seesThrough_run {accepts : Char → Bool} (h : Alike accepts) (preference : Preference) :
    (run accepts preference : Pattern ι).SeesThrough := by
  intro before t _
  have hstretches := congrArg (List.map fun s => (⟨s.1, [], s.2⟩ : Match ι))
    (stretches_withReturns h t)
  rw [List.map_map] at hstretches
  cases preference with
  | longest =>
      simp only [Pattern.readings, List.filter_map, List.filter_reverse, List.map_reverse,
        List.map_map, Function.comp_def]
      exact congrArg List.reverse hstretches
  | shortest =>
      simp only [Pattern.readings, List.filter_map, List.map_map, Function.comp_def]
      exact hstretches

/-- Behind a line break that has been cut a run goes on with the line feed. -/
theorem filter_readings_run_feed {accepts : Char → Bool} (h : Alike accepts) (hfeed : accepts '\n')
    (preference : Preference) (before after : Option Char) (t : Text) :
    ((run accepts preference : Pattern ι).readings before ('\n' :: t.withReturns)).filter
        (·.keepsBreaks) =
      ((run accepts preference : Pattern ι).readings after t).map fun r =>
        Match.andThen ⟨['\n'], [], t.withReturns⟩ r.withReturns := by
  have hstretches := congrArg (List.map fun s => (⟨'\n' :: s.1, [], s.2⟩ : Match ι))
    (stretches_withReturns h t)
  simp only [List.map_map, Function.comp_def] at hstretches
  cases preference with
  | longest =>
      simp only [Pattern.readings, stretches, hfeed, if_true, List.reverse_cons, List.map_append,
        List.map_reverse, List.map_map, List.filter_append, List.filter_reverse, List.filter_map,
        Function.comp_def]
      simpa [Match.keepsBreaks, Match.withReturns, Match.andThen] using hstretches
  | shortest =>
      simp only [Pattern.readings, stretches, hfeed, if_true, List.map_cons, List.map_map,
        List.filter_cons, List.filter_map, Function.comp_def]
      simpa [Match.keepsBreaks, Match.withReturns, Match.andThen] using hstretches

/-- One character and more of its kind take a line break as a whole. -/
theorem seesThrough_one_run {first more : Char → Bool} (hfirst : Alike first) (hmore : Alike more)
    (hfeed : first '\n' → more '\n') (preference : Preference) :
    (one first ++ run more preference : Pattern ι).SeesThrough := by
  intro before t ht
  cases t with
  | nil => rfl
  | cons c t =>
      have ht := List.not_mem_of_not_mem_cons ht
      have hrun := seesThrough_run (ι := ι) hmore preference
      by_cases hc : c = '\n'
      · subst hc
        cases hone : first '\n' with
        | true =>
            have hreturn : first '\r' := hfirst.trans hone
            rw [withReturns_feed, readings_seq_of_single (readings_one hreturn _ _),
              readings_seq_of_single (readings_one hone _ _), List.filter_map]
            refine (congrArg (List.map _)
              (filter_readings_run_feed hmore (hfeed hone) preference _ (some '\n') t)).trans ?_
            rw [List.map_map, List.map_map]
            exact List.map_congr_left fun r _ => Match.withReturns_andThen_feed t r
        | false =>
            have hreturn : first '\r' = false := hfirst.trans hone
            simp [readings_seq, Pattern.readings, hone, hreturn]
      · rw [withReturns_cons hc]
        cases hone : first c with
        | true =>
            rw [readings_seq_of_single (readings_one hone _ _),
              readings_seq_of_single (readings_one hone _ _), List.filter_map]
            refine (congrArg (List.map _) (hrun _ t ht)).trans ?_
            rw [List.map_map, List.map_map]
            apply List.map_congr_left
            intro r _
            simp [Match.withReturns, Match.andThen, withReturns_cons hc]
        | false => simp [readings_seq, Pattern.readings, hone]

theorem SeesThrough.seq (hp : p.SeesThrough) (hq : q.SeesThrough)
    (hseam : p.ends '\r' = false ∨ q.starts '\n' = false) : (p ++ q).SeesThrough := by
  intro before t ht
  simp only [readings_seq, List.filter_flatMap, List.filter_map, List.map_flatMap]
  rw [flatMap_filter_of_nil (·.keepsBreaks), hp before t ht, List.flatMap_map, List.flatMap_def,
    List.flatMap_def]
  · refine congrArg List.flatten (List.map_congr_left ?_)
    intro r hr
    have hrest := hq (lastOf before r.read) r.rest (not_mem_rest ht hr)
    have hlast : lastOf before r.withReturns.read = lastOf before r.read :=
      lastOf_withReturns before r.read
    rw [hlast]
    refine (congrArg (List.map _) hrest).trans ?_
    rw [List.map_map, List.map_map]
    exact List.map_congr_left fun s _ => Match.withReturns_andThen r s
  · -- a reading of the first pattern that ends inside a line break leads nowhere
    intro r hr hbreak
    rw [List.map_eq_nil_iff, List.filter_eq_nil_iff]
    intro s hs hkeeps
    rcases hseam with hends | hstarts
    · rw [keepsBreaks_of_ends hends hr] at hbreak
      cases hbreak
    · have hhead : r.rest.head? = some '\n' := by simpa [Match.keepsBreaks] using hbreak
      obtain ⟨v, hv⟩ := List.head?_eq_some_iff.mp hhead
      rw [hv] at hs
      have hsbreak := keepsBreaks_of_starts hstarts hs
      have hkeeps : s.keepsBreaks = true := hkeeps
      rw [hsbreak] at hkeeps
      cases hkeeps

theorem SeesThrough.alt (hp : p.SeesThrough) (hq : q.SeesThrough) :
    (Pattern.alt p q).SeesThrough := by
  intro before t ht
  rw [readings_alt, readings_alt, List.filter_append, List.map_append, hp before t ht,
    hq before t ht]

theorem SeesThrough.part (label : ι) (hp : p.SeesThrough) : (Pattern.part label p).SeesThrough := by
  intro before t ht
  rw [readings_part, readings_part, List.filter_map, List.map_map]
  refine (congrArg (List.map _) (hp before t ht)).trans ?_
  rw [List.map_map]
  rfl

/-- Rounds that take any character, of a line break first the one and then the other. -/
theorem seesThrough_many {accepts : Char → Bool} (hreturn : accepts '\r') (hfeed : accepts '\n')
    (hq : q.SeesThrough) (hnull : q.nullable = false) (hstartsReturn : q.starts '\r' = false)
    (hstartsFeed : q.starts '\n' = false) (hends : q.ends '\r' = false) :
    (many (Pattern.alt (one accepts) q)).SeesThrough := by
  have hconsumes : (Pattern.alt (one accepts) q).Consumes :=
    consumes_of_not_nullable (by simp [nullable, hnull])
  have hnone : ∀ {c : Char} {before : Option Char} {v : Text}, q.starts c = false →
      q.readings before (c :: v) = [] := fun hc =>
    readings_eq_nil_iff.mpr (read?_eq_none_of_starts hnull (stops_cons.mpr hc))
  intro before t ht
  induction hl : t.length using Nat.strongRecOn generalizing t before with
  | ind n ih =>
      subst hl
      rw [readings_many hconsumes, readings_many hconsumes before t, List.filter_append,
        List.map_append]
      have hstop : (⟨[], [], t.withReturns⟩ : Match ι).keepsBreaks = true :=
        bne_iff_ne.mpr (head?_withReturns t)
      congr 1
      swap
      · rw [List.filter_cons_of_pos hstop]
        rfl
      cases t with
      | nil => simp [Pattern.readings, readings_eq_nil_iff.mpr (read?_eq_none_of_starts hnull (stops_nil _))]
      | cons c t =>
          have htail := List.not_mem_of_not_mem_cons ht
          by_cases hc : c = '\n'
          · subst hc
            have hmany := ih t.length (by simp) (some '\n') t htail rfl
            have hinside : ((many (Pattern.alt (one accepts) q)).readings (some '\r')
                ('\n' :: withReturns t)).filter (·.keepsBreaks) =
                  ((many (Pattern.alt (one accepts) q)).readings (some '\n') t).map fun r =>
                    Match.andThen ⟨['\n'], [], withReturns t⟩ r.withReturns := by
              rw [readings_many hconsumes, readings_alt, readings_one hfeed, hnone hstartsFeed,
                List.append_nil, List.flatMap_cons, List.flatMap_nil, List.append_nil,
                List.filter_append, List.filter_map]
              refine (congrArg₂ (· ++ ·) (congrArg (List.map _) hmany) rfl).trans ?_
              rw [List.map_map]
              exact List.append_nil _
            rw [withReturns_feed, readings_alt, readings_one hreturn, hnone hstartsReturn,
              readings_alt, readings_one hfeed, hnone hstartsFeed]
            simp only [List.append_nil, List.flatMap_cons, List.flatMap_nil, List.filter_map]
            refine (congrArg (List.map _) hinside).trans ?_
            rw [List.map_map, List.map_map]
            exact List.map_congr_left fun r _ => Match.withReturns_andThen_feed t r
          · have hround : (Pattern.alt (one accepts) q).readings before (withReturns (c :: t)) =
                ((Pattern.alt (one accepts) q).readings before (c :: t)).map (·.withReturns) := by
              rw [readings_alt, readings_alt, List.map_append, hq.readings hends ht]
              congr 1
              rw [withReturns_cons hc]
              cases haccepts : accepts c <;>
                simp [Pattern.readings, haccepts, Match.withReturns, withReturns_cons hc]
            rw [hround, List.flatMap_map, List.filter_flatMap, List.map_flatMap, List.flatMap_def,
              List.flatMap_def]
            refine congrArg List.flatten (List.map_congr_left ?_)
            intro r hr
            have hpos := List.length_pos_iff.mpr (hconsumes _ _ r hr)
            have hlen : r.read.length + r.rest.length = (c :: t).length := by
              rw [← List.length_append, readings_text _ before _ r hr]
            have hmany := ih r.rest.length (by omega) (lastOf before r.read) r.rest
              (not_mem_rest ht hr) rfl
            have hlast : lastOf before r.withReturns.read = lastOf before r.read :=
              lastOf_withReturns before r.read
            rw [List.filter_map, hlast]
            refine (congrArg (List.map _) hmany).trans ?_
            rw [List.map_map, List.map_map]
            exact List.map_congr_left fun s _ => Match.withReturns_andThen r s

theorem seesThrough_empty : (empty : Pattern ι).SeesThrough := by
  intro before t _
  simp [Pattern.readings, Match.keepsBreaks, Match.withReturns, head?_withReturns t]

theorem seesThrough_wordEdge : (wordEdge : Pattern ι).SeesThrough := by
  intro before t _
  have hhead : (withReturns t).head?.any isWordChar = t.head?.any isWordChar :=
    head?_withReturns_any (show Alike isWordChar by decide) t
  simp only [Pattern.readings, hhead]
  split
  · exact seesThrough_empty before t ‹_›
  · rfl

theorem seesThrough_textEnd : (textEnd : Pattern ι).SeesThrough := by
  intro before t _
  have hnil : (withReturns t).isEmpty = t.isEmpty := by
    apply Bool.eq_iff_iff.mpr
    rw [List.isEmpty_iff, List.isEmpty_iff, withReturns_eq_nil_iff]
  simp only [Pattern.readings, hnil]
  split
  · exact seesThrough_empty before t ‹_›
  · rfl

theorem seesThrough_of_lineBlind (h : p.lineBlind) : p.SeesThrough := by
  fun_induction lineBlind p with
  | case1 => exact seesThrough_empty
  | case2 => exact seesThrough_wordEdge
  | case3 => exact seesThrough_textEnd
  | case4 accepts =>
      rw [Bool.and_eq_true, Bool.not_eq_true', Bool.not_eq_true'] at h
      exact seesThrough_one h.1 h.2
  | case5 accepts preference => exact seesThrough_run (beq_iff_eq.mp h) preference
  | case6 first more preference =>
      rw [Bool.and_eq_true, Bool.and_eq_true, beq_iff_eq, beq_iff_eq, Bool.or_eq_true,
        Bool.not_eq_true'] at h
      refine seesThrough_one_run h.1.1 h.1.2 ?_ preference
      intro hfeed
      exact h.2.resolve_left (Bool.not_eq_false _ ▸ hfeed)
  | case7 p q _ ihp ihq =>
      rw [Bool.and_eq_true, Bool.and_eq_true, Bool.or_eq_true, Bool.not_eq_true',
        Bool.not_eq_true'] at h
      exact (ihp h.1.1).seq (ihq h.1.2) h.2
  | case8 p q ihp ihq =>
      rw [Bool.and_eq_true] at h
      exact (ihp h.1).alt (ihq h.2)
  | case9 accepts q ih =>
      simp only [Bool.and_eq_true, Bool.not_eq_true'] at h
      obtain ⟨⟨⟨⟨⟨⟨hreturn, hfeed⟩, hblind⟩, hnull⟩, hstartsReturn⟩, hstartsFeed⟩, hends⟩ := h
      exact seesThrough_many hreturn hfeed (ih hblind) hnull hstartsReturn hstartsFeed hends
  | case10 => cases h
  | case11 label p ih => exact (ih h).part label

/-- The checks for a pattern that is searched for where line breaks may stand. -/
structure LineBlind (p : Pattern ι) : Prop where
  blind : p.lineBlind
  ends : p.ends '\r' = false
  starts : p.starts '\n' = false
  nonempty : p.nullable = false

instance (p : Pattern ι) : Decidable p.LineBlind :=
  decidable_of_iff
    (p.lineBlind ∧ p.ends '\r' = false ∧ p.starts '\n' = false ∧ p.nullable = false)
    ⟨fun h => ⟨h.1, h.2.1, h.2.2.1, h.2.2.2⟩, fun h => ⟨h.blind, h.ends, h.starts, h.nonempty⟩⟩

theorem LineBlind.read?_withReturns (h : p.LineBlind) (before : Option Char) (ht : '\r' ∉ t) :
    p.read? before t.withReturns = (p.read? before t).map (·.withReturns) := by
  rw [read?, (seesThrough_of_lineBlind h.blind).readings h.ends ht, List.head?_map, read?]

theorem LineBlind.opening?_withReturns (h : p.LineBlind) (ht : '\r' ∉ t) :
    (p.opening? t.withReturns).map (·.reading) =
      ((p.opening? t).map (·.reading)).map (·.withReturns) := by
  have hread : ∀ u, (p.opening? u).map (·.reading) = p.read? none u := by
    intro u
    cases ho : p.opening? u with
    | none => exact (at?_eq_none_iff.mp ho).symm
    | some o => exact (at?_eq_some ho).1.symm
  rw [hread, hread, h.read?_withReturns none ht]

/-- What is found does not depend on the form of the line breaks, except that it carries them. -/
theorem LineBlind.found_withReturns (h : p.LineBlind) (before : Option Char) (ht : '\r' ∉ t) :
    p.found before t.withReturns = (p.found before t).map (·.withReturns) := by
  have hconsumes : p.Consumes := consumes_of_not_nullable h.nonempty
  induction hl : t.length using Nat.strongRecOn generalizing t before with
  | ind n ih =>
      subst hl
      have hread := h.read?_withReturns before ht
      cases hr : p.read? before t with
      | some r =>
          have hpos := List.length_pos_iff.mpr (hconsumes _ _ r (mem_of_read? hr))
          have hlen : r.read.length + r.rest.length = t.length := by
            rw [← List.length_append, read?_text hr]
          have hrest := ih r.rest.length (by omega) (lastOf before r.read)
            (not_mem_rest ht (mem_of_read? hr)) rfl
          have hlast : lastOf before r.withReturns.read = lastOf before r.read :=
            lastOf_withReturns before r.read
          rw [hr, Option.map_some] at hread
          rw [found_of_read? hconsumes hr, found_of_read? hconsumes hread, hlast, List.map_cons]
          exact congrArg (r.withReturns :: ·) hrest
      | none =>
          rw [hr, Option.map_none] at hread
          cases t with
          | nil => rfl
          | cons c t =>
              have htail := List.not_mem_of_not_mem_cons ht
              have hrest := ih t.length (by simp) (some c) htail rfl
              rw [found_of_none hr]
              by_cases hc : c = '\n'
              · subst hc
                have hinside : p.read? (some '\r') ('\n' :: withReturns t) = none :=
                  read?_eq_none_of_starts h.nonempty (stops_cons.mpr h.starts)
                rw [withReturns_feed] at hread ⊢
                rw [found_of_none hread, found_of_none hinside, hrest]
              · rw [withReturns_cons hc] at hread ⊢
                rw [found_of_none hread, hrest]

theorem found_eq_nil_iff (hc : p.Consumes) : p.found before t = [] ↔ p.Silent before t [] := by
  refine ⟨fun h => ?_, found_eq_nil_of_silent⟩
  induction t generalizing before with
  | nil => exact silent_nil []
  | cons c t ih =>
      cases hr : p.read? before (c :: t) with
      | some r =>
          rw [found_of_read? hc hr] at h
          cases h
      | none =>
          rw [found_of_none hr] at h
          exact silent_cons.mpr ⟨by rwa [List.append_nil], ih h⟩

theorem occursIn_eq (hc : p.Consumes) (t : Text) : p.occursIn t = !(p.found none t).isEmpty := by
  have hnone : p.find? t = none ↔ p.found none t = [] := by
    rw [find?_eq_none_iff, found_eq_nil_iff hc, hc.read?_nil]
    simp
  rw [occursIn]
  cases hfind : p.find? t with
  | none => simp [hnone.mp hfind]
  | some o =>
      have hne : p.found none t ≠ [] := by
        rw [ne_eq, ← hnone, hfind]
        exact Option.some_ne_none o
      simp [hne]

theorem LineBlind.occursIn_withReturns (h : p.LineBlind) (ht : '\r' ∉ t) :
    p.occursIn t.withReturns = p.occursIn t := by
  have hconsumes : p.Consumes := consumes_of_not_nullable h.nonempty
  rw [occursIn_eq hconsumes, occursIn_eq hconsumes, h.found_withReturns none ht, List.isEmpty_map]

theorem exists_of_mem_found (hr : r ∈ p.found none t) :
    ∃ u v, t = u ++ v ∧ r ∈ p.readings (lastOf none u) v := by
  rw [show p.found none t = _ from (p.occurrences_reading t).symm] at hr
  obtain ⟨o, ho, rfl⟩ := List.mem_map.mp hr
  obtain ⟨v, ht, hread⟩ := exists_of_mem_occurrences ho
  exact ⟨o.before, v, ht, mem_of_read? hread⟩

end Pattern

theorem Match.not_mem_part [DecidableEq ι] {p : Pattern ι} {before : Option Char} {t : Text}
    {r : Match ι} {d : Char} (ht : d ∉ t) (hr : r ∈ p.readings before t) (label : ι) :
    d ∉ r.part label := by
  intro hd
  rw [part, part?] at hd
  cases hfind : r.parts.find? (fun part => part.1 = label) with
  | none =>
      rw [hfind] at hd
      cases hd
  | some labelled =>
      rw [hfind] at hd
      have hread := Pattern.mem_read_of_mem_parts hr labelled (List.mem_of_find?_eq_some hfind) d hd
      apply ht
      rw [← Pattern.readings_text p before t r hr]
      exact List.mem_append_left _ hread

end SchemaDump
