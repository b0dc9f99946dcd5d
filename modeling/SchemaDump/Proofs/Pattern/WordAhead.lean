import Mathlib.Data.List.TakeWhile
import SchemaDump.Proofs.Definition.Identifier
import SchemaDump.Proofs.Pattern.Keyword
import SchemaDump.Proofs.Pattern.Seam
import SchemaDump.Proofs.Text.Trim
/- Keywords as words by themselves. A keyword is not read in the place of another word, and a pattern that is only
read in front of certain words is silent in a text in which none of them stands by itself with what has to follow
it. -/
namespace SchemaDump
open SqlPattern Pattern

variable {before : Option Char} {p q : SqlPattern} {words more : List String} {word : String}
  {Ends : Text → Prop} {t u v w : Text}

/-- The pattern can only be read behind the end of a word. -/
def EndsWord (q : SqlPattern) : Prop :=
  ∀ c t, isWordChar c → q.read? (some c) t ≠ none → Stops isWordChar t

theorem EndsWord.seq (h : EndsWord q) (r : SqlPattern) : EndsWord (q ++ r) := by
  intro c t hc hread
  exact h c t hc fun hnone => hread (read?_seq_none hnone)

theorem endsWord_of_starts (hnull : q.nullable = false) (h : ∀ c, isWordChar c → q.starts c = false) : EndsWord q := by
  intro c t _ hread
  cases t with
  | nil => exact stops_nil _
  | cons d t =>
      refine stops_cons.mpr ?_
      cases hd : isWordChar d with
      | false => rfl
      | true => exact absurd (read?_eq_none_of_starts hnull (stops_cons.mpr (h d hd))) hread

theorem endsWord_blanks : EndsWord blanks := endsWord_of_starts rfl fun c hc => by
  simpa [blanks, run1, append_eq_seq, starts, nullable] using isBlank_eq_false_of_isWordChar hc

theorem endsWord_wordEdge : EndsWord wordEdge := by
  intro c t hc hread
  cases t with
  | nil => exact stops_nil _
  | cons d t =>
      refine stops_cons.mpr ?_
      cases hd : isWordChar d with
      | false => rfl
      | true => exact absurd (by simp [read?, readings, hc, hd]) hread

theorem read?_keyword_seq_eq_none (hword : ∀ c ∈ word.toList, c.isAlpha) (hne : word.toList ≠ [])
    (hq : EndsWord q) (hw : ∀ c ∈ w, isWordChar c) (hv : Stops isWordChar v)
    (h : spells sameLetter word.toList w = false ∨ q.Rejects v) :
    (keyword word ++ q).Rejects (w ++ v) := by
  intro before
  rw [read?_seq_eq_none]
  intro a ha
  obtain ⟨-, hspells, htext⟩ := mem_readings_keyword.mp ha
  have hchars := isWordChar_of_spells hword hspells
  cases hread : q.read? (lastOf before a.read) a.rest with
  | none => rfl
  | some r =>
      exfalso
      have hane : a.read ≠ [] := by
        intro hnil
        have hlen := spells_length hspells
        rw [hnil] at hlen
        exact hne (List.length_eq_zero_iff.mp hlen.symm)
      have hlast : ∃ c, lastOf before a.read = some c ∧ isWordChar c := by
        rw [lastOf_eq]
        cases hc : a.read.getLast? with
        | none => exact absurd (List.getLast?_eq_none_iff.mp hc) hane
        | some c => exact ⟨c, rfl, hchars c (List.mem_of_getLast? hc)⟩
      obtain ⟨c, hc, hcword⟩ := hlast
      rw [hc] at hread
      have hstops : Stops isWordChar a.rest :=
        hq c a.rest hcword (by rw [hread]; exact Option.some_ne_none r)
      have hrest : a.rest = v := by
        rw [← dropWhile_append_of_stops hchars hstops, htext, dropWhile_append_of_stops hw hv]
      rw [hrest] at htext hread
      have hwhole : a.read = w := List.append_cancel_right htext
      rcases h with h | h
      · rw [← hwhole, hspells] at h
        cases h
      · rw [h (some c)] at hread
        cases hread

theorem rejects_keyword_blank (hletters : ∀ c ∈ word.toList, c.isAlpha)
    (hnull : (keyword word : SqlPattern).nullable = false) (c : Char) (hc : isBlank c) (t : Text) :
    (keyword word ++ q).Rejects (c :: t) := by
  have hstart : (keyword word : SqlPattern).starts c = false :=
    starts_keyword_eq_false hletters (isWordChar_eq_false_of_isBlank hc)
  exact Rejects.seq (.of_starts hnull (stops_cons.mpr hstart)) q

section

variable {g : Text} (hg : ∀ c ∈ g, isBlank c) (hstops : Stops isBlank v)
  (hblank : ∀ c, isBlank c → ∀ t, q.Rejects (c :: t)) (hv : q.Rejects v)

include hg hstops hblank hv

/-- Blanks are read to their end in front of a pattern that starts with none. -/
theorem rejects_behind_blanks {x y : Text} (htext : x ++ y = g ++ v) (hx : ∀ c ∈ x, isBlank c) :
    q.Rejects y := by
  rcases exists_append_of_length htext with ⟨z, hz, hrest⟩ | ⟨d, z, hz, hrest⟩
  · rw [hrest]
    cases z with
    | nil => exact hv
    | cons d z => exact hblank d (hg d (by rw [hz]; simp)) _
  · rw [hrest, stops_cons, hx d (by rw [hz]; simp)] at hstops
    cases hstops

theorem rejects_blanks_run : (blanks ++ q).Rejects (g ++ v) := by
  intro before
  rw [read?_seq_eq_none]
  intro a ha
  obtain ⟨-, -, htext, hread⟩ := mem_readings_run1 ha
  exact rejects_behind_blanks hg hstops hblank hv htext.symm hread _

theorem rejects_gap_run : (gap ++ q).Rejects (g ++ v) := by
  intro before
  rw [read?_seq_eq_none]
  intro a ha
  obtain ⟨-, htext, hread⟩ := mem_readings_run.mp ha
  exact rejects_behind_blanks hg hstops hblank hv htext hread _

end

/-- At a place stands one of some words, as a word by itself and in front of a text of some kind.
Blanks may stand in front of it. -/
def WordAhead (words : List String) (Ends : Text → Prop) (before : Option Char) (t : Text) : Prop :=
  (∀ c ∈ lastOf before (t.takeWhile isBlank), isWordChar c = false) ∧
    ∃ word ∈ words, spells sameLetter word.toList ((t.dropWhile isBlank).takeWhile isWordChar) ∧
      Ends ((t.dropWhile isBlank).dropWhile isWordChar)

/-- A pattern that is read in front of such a word only. -/
def OpensWith (words : List String) (Ends : Text → Prop) (p : SqlPattern) : Prop :=
  ∀ before t, p.read? before t ≠ none → WordAhead words Ends before t

def Lettered (words : List String) : Prop :=
  ∀ word ∈ words, word.toList ≠ [] ∧ ∀ c ∈ word.toList, c.isAlpha

instance (words : List String) : Decidable (Lettered words) :=
  inferInstanceAs (Decidable (∀ word ∈ words, word.toList ≠ [] ∧ ∀ c ∈ word.toList, c.isAlpha))

def BlankAhead (t : Text) : Prop := ¬ Stops isBlank t

theorem starts_keyword_digit (hletters : ∀ c ∈ word.toList, c.isAlpha) {c : Char} (hc : c.isDigit) :
    (keyword word : SqlPattern).starts c = false := by
  rw [keyword]
  cases h : word.toList with
  | nil => rfl
  | cons letter letters =>
      rw [starts_spelled_cons]
      exact sameLetter_eq_false_of_isDigit (hletters letter (by rw [h]; exact List.mem_cons_self)) hc

theorem WordAhead.mono {Ends' : Text → Prop} (h : WordAhead words Ends before t)
    (hwords : ∀ word ∈ words, word ∈ more) (hends : ∀ v, Ends v → Ends' v) :
    WordAhead more Ends' before t := by
  obtain ⟨hedge, word, hmem, hspells, hend⟩ := h
  exact ⟨hedge, word, hwords word hmem, hspells, hends _ hend⟩

theorem stops_blanks_append (ht : ∀ c ∈ t, isBlank c) (hv : Stops isWordChar v) : Stops isWordChar (t ++ v) := by
  cases t with
  | nil => exact hv
  | cons c t => exact stops_cons.mpr (isWordChar_eq_false_of_isBlank (ht c List.mem_cons_self))

theorem wordAhead_blank {c : Char} (hc : isBlank c) :
    WordAhead words Ends before (c :: t) ↔ WordAhead words Ends (some c) t := by
  rw [WordAhead, WordAhead, List.takeWhile_cons_of_pos hc, List.dropWhile_cons_of_pos hc, lastOf_cons]

theorem wordAhead_blanks {g : Text} (hg : ∀ c ∈ g, isBlank c) :
    WordAhead words Ends before (g ++ t) ↔ WordAhead words Ends (lastOf before g) t := by
  induction g generalizing before with
  | nil => rfl
  | cons c g ih =>
      rw [List.cons_append, wordAhead_blank (hg c List.mem_cons_self),
        ih fun d hd => hg d (List.mem_cons_of_mem c hd), lastOf_cons]

theorem wordAhead_word (hw : ∀ c ∈ w, isWordChar c) (hne : w ≠ []) (hv : Stops isWordChar v) :
    WordAhead words Ends before (w ++ v) ↔
      (∀ c ∈ before, isWordChar c = false) ∧
        ∃ word ∈ words, spells sameLetter word.toList w ∧ Ends v := by
  have hsolid : Stops isBlank (w ++ v) := by
    obtain ⟨c, rest, rfl⟩ := List.exists_cons_of_ne_nil hne
    exact stops_cons.mpr (isBlank_eq_false_of_isWordChar (hw c List.mem_cons_self))
  have htake : (w ++ v).takeWhile isBlank = [] :=
    takeWhile_append_of_stops (u := []) (fun c hc => nomatch hc) hsolid
  have hdrop : (w ++ v).dropWhile isBlank = w ++ v := dropWhile_eq_self hsolid
  rw [WordAhead, htake, hdrop, takeWhile_append_of_stops hw hv, dropWhile_append_of_stops hw hv,
    lastOf_nil]

/-- No word is ahead in front of a character that neither is a blank nor starts a word. -/
theorem not_wordAhead_cons (hwords : Lettered words) {c : Char} (hblank : isBlank c = false)
    (hc : isWordChar c = false ∨ c.isDigit) : ¬WordAhead words Ends before (c :: t) := by
  rintro ⟨-, word, hmem, hspells, -⟩
  obtain ⟨hne, hletters⟩ := hwords word hmem
  obtain ⟨letter, letters, hword⟩ := List.exists_cons_of_ne_nil hne
  rw [hword] at hspells hletters
  have hletter := hletters letter List.mem_cons_self
  rw [List.dropWhile_cons_of_neg (by simp [hblank])] at hspells
  rcases hc with hc | hc
  · rw [List.takeWhile_cons_of_neg (by simp [hc])] at hspells
    cases hspells
  · rw [List.takeWhile_cons_of_pos (isWordChar_of_isDigit hc), spells,
      sameLetter_eq_false_of_isDigit hletter hc]
      at hspells
    cases hspells

theorem not_wordAhead_inside {c d : Char} (hc : isWordChar c) (hd : isWordChar d) :
    ¬WordAhead words Ends (some c) (d :: t) := by
  rintro ⟨hedge, -⟩
  have hblank := isBlank_eq_false_of_isWordChar hd
  rw [List.takeWhile_cons_of_neg (by simp [hblank]), lastOf_nil] at hedge
  rw [hedge c rfl] at hc
  cases hc

/-- A word is not ahead that is none of the given ones, or is not followed as it would have to be. -/
theorem not_wordAhead_word (hw : ∀ c ∈ w, isWordChar c) (hne : w ≠ []) (hv : Stops isWordChar v)
    (hno : (∀ word ∈ words, spells sameLetter word.toList w = false) ∨ ¬Ends v) :
    ¬WordAhead words Ends before (w ++ v) := by
  intro h
  obtain ⟨-, word, hmem, hspells, hends⟩ := (wordAhead_word hw hne hv).mp h
  rcases hno with hno | hno
  · rw [hno word hmem] at hspells
    cases hspells
  · exact hno hends

/-- A word that is ahead of a place stands behind blanks. -/
theorem WordAhead.exists_split (h : WordAhead words Ends before t) :
    ∃ g e z, t = g ++ (e ++ z) ∧ (∀ c ∈ g, isBlank c) ∧ (∀ c ∈ lastOf before g, isWordChar c = false) ∧
      (∃ word ∈ words, spells sameLetter word.toList e) ∧ Stops isWordChar z ∧ Ends z := by
  obtain ⟨hedge, word, hword, hspells, hends⟩ := h
  refine ⟨t.takeWhile isBlank, (t.dropWhile isBlank).takeWhile isWordChar,
    (t.dropWhile isBlank).dropWhile isWordChar, ?_, fun _ => List.mem_takeWhile_imp, hedge,
    ⟨word, hword, hspells⟩, ?_, hends⟩
  · rw [List.takeWhile_append_dropWhile, List.takeWhile_append_dropWhile]
  · intro c hc
    have hfirst := List.head?_dropWhile_not isWordChar (t.dropWhile isBlank)
    rw [Option.mem_def.mp hc] at hfirst
    exact hfirst

theorem isDigit_eq_false_of_spells {w : Text} (hw : ∀ c ∈ w, c.isAlpha) (h : spells sameLetter w u) :
    ∀ c ∈ u, c.isDigit = false := by
  induction w generalizing u with
  | nil =>
      cases u with
      | nil => exact fun _ hc => nomatch hc
      | cons c u => cases h
  | cons letter w ih =>
      cases u with
      | nil => exact fun _ hc => nomatch hc
      | cons c u =>
          obtain ⟨hfirst, hrest⟩ := Bool.and_eq_true_iff.mp h
          intro d hd
          rcases List.mem_cons.mp hd with rfl | hd
          · rw [Bool.eq_false_iff]
            intro hdigit
            rw [sameLetter_eq_false_of_isDigit (hw letter List.mem_cons_self) hdigit] at hfirst
            cases hfirst
          · exact ih (fun e he => hw e (List.mem_cons_of_mem _ he)) hrest d hd

theorem staysWithin_blanks (hu : ∀ c ∈ u.getLast?, isBlank c = false) :
    (blanks : SqlPattern).StaysWithin u v := by
  intro x y hxy hy before r hr
  obtain ⟨-, -, htext, hall⟩ := mem_readings_run1 hr
  refine length_read_le htext.symm fun c z hread => ?_
  obtain ⟨d, hd, -, hsolid⟩ := exists_of_getLast? hy (hxy ▸ hu)
  rw [hall d (by rw [hread]; exact List.mem_append_left _ hd)] at hsolid
  cases hsolid

theorem opensWith_assoc {words : List String} {Ends : Text → Prop} (p q s : SqlPattern) :
    OpensWith words Ends (p ++ q ++ s) ↔ OpensWith words Ends (p ++ (q ++ s)) := by
  simp only [OpensWith, read?_seq_assoc]

theorem opensWith_edge (hletters : ∀ c ∈ word.toList, c.isAlpha) (hne : word.toList ≠ [])
    (hread : ∀ t, ∀ before, p.read? before t ≠ none →
      ∃ e w, t = e ++ w ∧ spells sameLetter word.toList e ∧ Stops isWordChar w ∧ Ends w) :
    OpensWith [word] Ends (wordEdge ++ p) := by
  intro before t hsome
  obtain ⟨r, hr⟩ := Option.ne_none_iff_exists'.mp hsome
  obtain ⟨a, ha, b, hb, -⟩ := mem_readings_seq.mp (mem_of_read? hr)
  simp only [readings] at ha
  split at ha
  · next hedge =>
    rw [List.mem_singleton.mp ha, lastOf_nil] at hb
    obtain ⟨e, w, ht, hspells, hstops, hends⟩ := hread t before
      fun hnone => List.ne_nil_of_mem hb (readings_eq_nil_iff.mpr hnone)
    have hchars := isWordChar_of_spells hletters hspells
    have hene : e ≠ [] := by
      rintro rfl
      exact hne (List.length_eq_zero_iff.mp (spells_length hspells).symm)
    rw [ht, wordAhead_word hchars hene hstops]
    refine ⟨?_, word, List.mem_singleton_self word, hspells, hends⟩
    intro c hc
    obtain ⟨d, rest, rfl⟩ := List.exists_cons_of_ne_nil hene
    rw [Option.mem_def.mp hc, ht] at hedge
    simpa [hchars d List.mem_cons_self] using hedge
  · cases ha

theorem exists_of_read?_keyword_seq (h : (keyword word ++ q).read? before t ≠ none) :
    ∃ e w, t = e ++ w ∧ spells sameLetter word.toList e ∧ q.read? (lastOf before e) w ≠ none := by
  obtain ⟨r, hr⟩ := Option.ne_none_iff_exists'.mp h
  obtain ⟨a, ha, b, hb, -⟩ := mem_readings_seq.mp (mem_of_read? hr)
  obtain ⟨-, hspells, htext⟩ := mem_readings_keyword.mp ha
  exact ⟨a.read, a.rest, htext.symm, hspells,
    fun hnone => List.ne_nil_of_mem hb (readings_eq_nil_iff.mpr hnone)⟩

theorem blankAhead_of_read? (h : (blanks ++ q).read? before t ≠ none) : BlankAhead t :=
  fun hstops => h (rejects_blanks hstops before)

theorem BlankAhead.stops {accepts : Char → Bool} (h : BlankAhead t)
    (haccepts : ∀ c, isBlank c → accepts c = false) : Stops accepts t := by
  intro c hc
  cases hblank : isBlank c with
  | true => exact haccepts c hblank
  | false => exact absurd (fun d hd => Option.some.inj (hc.symm.trans hd) ▸ hblank) h

theorem BlankAhead.stopsWord (h : BlankAhead t) : Stops isWordChar t :=
  h.stops fun _ => isWordChar_eq_false_of_isBlank

theorem BlankAhead.stopsBare (h : BlankAhead t) : Stops isBareChar t :=
  h.stops fun _ => isBareChar_eq_false_of_isBlank

theorem BlankAhead.stopsDot (h : BlankAhead t) : Stops (· == '.') t :=
  h.stops fun c hc => beq_eq_false_iff_ne.mpr (by rintro rfl; exact absurd hc (by decide))

theorem opensWith_blanks (hletters : ∀ c ∈ word.toList, c.isAlpha) (hne : word.toList ≠ [])
    (q : SqlPattern) : OpensWith [word] BlankAhead (wordEdge ++ (keyword word ++ (blanks ++ q))) :=
  opensWith_edge hletters hne fun t before h => by
    obtain ⟨e, w, ht, hspells, hread⟩ := exists_of_read?_keyword_seq h
    have hblank := blankAhead_of_read? hread
    exact ⟨e, w, ht, hspells, hblank.stopsWord, hblank⟩

theorem opensWith_phrase (hletters : ∀ c ∈ word.toList, c.isAlpha) (hne : word.toList ≠ [])
    (next : String) (words : List String) (q : SqlPattern) :
    OpensWith [word] BlankAhead (wordEdge ++ (phrase (word :: next :: words) ++ q)) :=
  opensWith_edge hletters hne fun t before h => by
    simp only [phrase, read?_seq_assoc] at h
    obtain ⟨e, w, ht, hspells, hread⟩ := exists_of_read?_keyword_seq h
    have hblank := blankAhead_of_read? hread
    exact ⟨e, w, ht, hspells, hblank.stopsWord, hblank⟩

theorem opensWith_behind_blanks (hletters : ∀ c ∈ word.toList, c.isAlpha) (hne : word.toList ≠ [])
    (hread : ∀ before t, p.read? before t ≠ none →
      ∃ e w, t = e ++ w ∧ spells sameLetter word.toList e ∧ BlankAhead w) :
    OpensWith [word] BlankAhead (blanks ++ p) := by
  intro before t hsome
  obtain ⟨r, hr⟩ := Option.ne_none_iff_exists'.mp hsome
  obtain ⟨g, hg, m, hm, -⟩ := mem_readings_seq.mp (mem_of_read? hr)
  obtain ⟨e, w, hrest, hspells, hahead⟩ := hread _ _
    fun hnone => List.ne_nil_of_mem hm (readings_eq_nil_iff.mpr hnone)
  obtain ⟨hgne, -, htext, hblank⟩ := mem_readings_run1 hg
  have hene : e ≠ [] := by
    rintro rfl
    exact hne (List.length_eq_zero_iff.mp (spells_length hspells).symm)
  rw [htext, hrest, wordAhead_blanks hblank,
    wordAhead_word (isWordChar_of_spells hletters hspells) hene hahead.stopsWord]
  refine ⟨fun c hc => ?_, word, List.mem_singleton_self word, hspells, hahead⟩
  obtain ⟨d, hd, hlast, -⟩ := exists_of_getLast? (x := []) (P := fun _ => True) hgne fun _ _ => trivial
  rw [lastOf_eq, Option.mem_def.mp hlast] at hc
  exact isWordChar_eq_false_of_isBlank (Option.some.inj hc ▸ hblank d hd)

theorem opensWith_word (hletters : ∀ c ∈ word.toList, c.isAlpha) (hne : word.toList ≠ []) :
    OpensWith [word] (Stops isWordChar) (wordEdge ++ (keyword word ++ wordEdge)) :=
  opensWith_edge hletters hne fun t before h => by
    obtain ⟨e, w, ht, hspells, hread⟩ := exists_of_read?_keyword_seq h
    have hlast : ∃ c, lastOf before e = some c ∧ isWordChar c := by
      have hchars := isWordChar_of_spells hletters hspells
      rw [lastOf_eq]
      cases hc : e.getLast? with
      | some c => exact ⟨c, rfl, hchars c (List.mem_of_getLast? hc)⟩
      | none =>
          rw [List.getLast?_eq_none_iff.mp hc] at hspells
          exact absurd (List.length_eq_zero_iff.mp (spells_length hspells).symm) hne
    obtain ⟨c, hc, hword⟩ := hlast
    have hstops := endsWord_wordEdge c w hword (hc ▸ hread)
    exact ⟨e, w, ht, hspells, hstops, hstops⟩

theorem OpensWith.gap (h : OpensWith words Ends p) : OpensWith words Ends (Pattern.gap ++ p) := by
  intro before t hsome
  obtain ⟨r, hr⟩ := Option.ne_none_iff_exists'.mp hsome
  obtain ⟨a, ha, b, hb, -⟩ := mem_readings_seq.mp (mem_of_read? hr)
  obtain ⟨-, htext, hblank⟩ := mem_readings_run.mp ha
  rw [← htext, wordAhead_blanks hblank]
  exact h _ _ fun hnone => List.ne_nil_of_mem hb (readings_eq_nil_iff.mpr hnone)

/-- The pattern may be read behind another one that opens with a word. -/
theorem OpensWith.maybe (hp : OpensWith words Ends p) (hq : OpensWith more Ends q) :
    OpensWith (words ++ more) Ends (Pattern.maybe p ++ q) := by
  intro before t hsome
  rw [read?_maybe_seq] at hsome
  cases hfirst : p.read? before t with
  | some r =>
      exact (hp before t (by rw [hfirst]; exact Option.some_ne_none r)).mono
        (fun _ h => List.mem_append_left _ h) fun _ h => h
  | none =>
      rw [read?_seq_none hfirst, Option.none_or] at hsome
      exact (hq before t hsome).mono (fun _ h => List.mem_append_right _ h) fun _ h => h

namespace OpensWith

theorem read?_eq_none (h : OpensWith words Ends p) (hno : ¬WordAhead words Ends before t) :
    p.read? before t = none := by
  cases hr : p.read? before t with
  | none => rfl
  | some r => exact absurd (h before t (by rw [hr]; exact Option.some_ne_none r)) hno

theorem rejects_cons (h : OpensWith words Ends p) (hwords : Lettered words) {c : Char}
    (hblank : isBlank c = false) (hc : isWordChar c = false ∨ c.isDigit) (t : Text) :
    p.Rejects (c :: t) := fun _ => h.read?_eq_none (not_wordAhead_cons hwords hblank hc)

theorem silent_marks (h : OpensWith words Ends p) (hwords : Lettered words)
    (hu : ∀ c ∈ u, isBlank c = false ∧ (isWordChar c = false ∨ c.isDigit)) :
    p.Silent before u v := by
  rw [silent_iff]
  intro x y hxy hy
  obtain ⟨c, rest, rfl⟩ := List.exists_cons_of_ne_nil hy
  obtain ⟨hblank, hc⟩ := hu c (by rw [hxy]; exact List.mem_append_right x List.mem_cons_self)
  exact h.rejects_cons hwords hblank hc _ _

theorem silent_blanks (h : OpensWith words Ends p) (hwords : Lettered words) (ht : ∀ c ∈ t, isBlank c)
    (hv : Stops (fun c => isBlank c || isWordChar c) v) : p.Silent before t v := by
  have hblank : Stops isBlank v := fun c hc => (Bool.or_eq_false_iff.mp (hv c hc)).1
  have hword : Stops isWordChar v := fun c hc => (Bool.or_eq_false_iff.mp (hv c hc)).2
  have htake : v.takeWhile isWordChar = [] := takeWhile_append_of_stops (u := []) (fun _ hc => nomatch hc) hword
  rw [silent_iff]
  intro x y hxy _
  refine h.read?_eq_none fun hahead => ?_
  obtain ⟨-, word, hmem, hspells, -⟩ :=
    (wordAhead_blanks fun c hc => ht c (hxy ▸ List.mem_append_right x hc)).mp hahead
  rw [dropWhile_eq_self hblank, htake] at hspells
  exact (hwords word hmem).1 (List.length_eq_zero_iff.mp (spells_length hspells).symm)

theorem rejects_blank_word (h : OpensWith words Ends p) (hw : ∀ c ∈ w, isWordChar c) (hne : w ≠ [])
    (hv : Stops isWordChar v)
    (hno : (∀ word ∈ words, spells sameLetter word.toList w = false) ∨ ¬Ends v) :
    p.Rejects (' ' :: (w ++ v)) := fun _ => h.read?_eq_none fun hahead =>
  not_wordAhead_word hw hne hv hno ((wordAhead_blank (by decide)).mp hahead)

theorem silent_word (h : OpensWith words Ends p) (hw : ∀ c ∈ w, isWordChar c)
    (hv : Stops isWordChar v)
    (hno : (∀ word ∈ words, spells sameLetter word.toList w = false) ∨ ¬Ends v) :
    p.Silent before w v := by
  cases w with
  | nil => exact silent_nil v
  | cons c w =>
      have hword : ¬WordAhead words Ends before (c :: w ++ v) :=
        not_wordAhead_word hw (List.cons_ne_nil c w) hv hno
      have hfirst := h.read?_eq_none hword
      refine silent_cons.mpr ⟨hfirst, silent_iff.mpr ?_⟩
      intro x y hxy hy
      obtain ⟨d, rest, rfl⟩ := List.exists_cons_of_ne_nil hy
      have hd : isWordChar d := hw d (by rw [hxy]; simp)
      obtain ⟨k, hk, hkword⟩ : ∃ k, lastOf (some c) x = some k ∧ isWordChar k := by
        rw [lastOf_eq]
        cases hlast : x.getLast? with
        | none => exact ⟨c, rfl, hw c List.mem_cons_self⟩
        | some k => exact ⟨k, rfl, hw k (by rw [hxy]; simp [List.mem_of_getLast? hlast])⟩
      rw [hk]
      exact h.read?_eq_none (not_wordAhead_inside hkword hd)

theorem silent_blanks_word {g : Text} (h : OpensWith words Ends p) (hg : ∀ c ∈ g, isBlank c) (hw : ∀ c ∈ w, isWordChar c)
    (hne : w ≠ []) (hv : Stops isWordChar v)
    (hno : (∀ word ∈ words, spells sameLetter word.toList w = false) ∨ ¬Ends v) :
    p.Silent before (g ++ w) v := by
  induction g generalizing before with
  | nil => exact h.silent_word hw hv hno
  | cons c g ih =>
      have hahead : ¬WordAhead words Ends before ((c :: g) ++ (w ++ v)) := fun hahead =>
        not_wordAhead_word hw hne hv hno ((wordAhead_blanks hg).mp hahead)
      have hfirst : p.read? before (c :: ((g ++ w) ++ v)) = none := by
        rw [List.append_assoc]
        exact h.read?_eq_none hahead
      exact silent_cons.mpr ⟨hfirst, ih fun d hd => hg d (List.mem_cons_of_mem c hd)⟩

theorem silent_blank_word (h : OpensWith words Ends p) (hw : ∀ c ∈ w, isWordChar c) (hne : w ≠ [])
    (hv : Stops isWordChar v)
    (hno : (∀ word ∈ words, spells sameLetter word.toList w = false) ∨ ¬Ends v) :
    p.Silent before (' ' :: w) v :=
  h.silent_blanks_word (g := [' ']) (by decide) hw hne hv hno

/-- In front of the end of a word the pattern is silent in a text that has none of its words. -/
theorem silent_of_no_word (h : OpensWith words Ends p) (hwords : Lettered words)
    (hno : ∀ word ∈ words, hasWord word u = false) (hsolid : ∀ c ∈ u.getLast?, isBlank c = false)
    (hv : Stops isWordChar v) : p.Silent before u v := by
  rw [silent_iff]
  intro x y hxy hy
  refine h.read?_eq_none fun hahead => ?_
  obtain ⟨g, e, z, hsplit, hg, hedge, ⟨word, hword, hspells⟩, hz, -⟩ := hahead.exists_split
  obtain ⟨hne, hletters⟩ := hwords word hword
  have hlast : ∀ c ∈ (x ++ y).getLast?, isBlank c = false := hxy ▸ hsolid
  rcases exists_append_of_length hsplit with ⟨k, rfl, -⟩ | ⟨c, k, rfl, hek⟩
  · -- no text is left behind the blanks
    obtain ⟨d, hd, -, hblank⟩ := exists_of_getLast? hy hlast
    rw [hg d (List.mem_append_left _ hd)] at hblank
    cases hblank
  · rcases exists_append_of_length (show e ++ z = (c :: k) ++ v from hek) with ⟨m, hm, rfl⟩ | ⟨d, m, rfl, rfl⟩
    · have hene : e ≠ [] := by
        rintro rfl
        exact hne (List.length_eq_zero_iff.mp (spells_length hspells).symm)
      have hstops : Stops isWordChar m := by
        cases m with
        | nil => exact stops_nil _
        | cons d m => exact stops_cons.mpr (stops_cons.mp hz)
      have hstart : ∀ c ∈ lastOf none (x ++ g), isWordChar c = false := by
        intro c hc
        refine hedge c ?_
        rw [lastOf_eq] at hc
        rw [← lastOf_append, lastOf_eq]
        cases hlast : (x ++ g).getLast? with
        | none => rw [hlast] at hc; cases hc
        | some d => rwa [hlast] at hc
      have hoccurs := hasWord_of_split hletters hene hspells hstart hstops
      rw [List.append_assoc, ← hm, ← hxy, hno word hword] at hoccurs
      cases hoccurs
    · rw [stops_cons, isWordChar_of_spells hletters hspells d (by simp)] at hv
      cases hv

/-- A pattern that needs a blank behind its word is silent in a text without blanks, unless the text ends with
a letter. -/
theorem silent_unspaced (h : OpensWith words BlankAhead p) (hwords : Lettered words)
    (hu : ∀ c ∈ u, isBlank c = false) (hlast : ∀ c ∈ u.getLast?, isWordChar c = false ∨ c.isDigit) :
    p.Silent before u v := by
  rw [silent_iff]
  intro x y hxy hy
  refine h.read?_eq_none fun hahead => ?_
  obtain ⟨g, e, z, hsplit, hg, -, ⟨word, hword, hspells⟩, -, hz⟩ := hahead.exists_split
  obtain ⟨-, hletters⟩ := hwords word hword
  have hend : ∀ c ∈ (x ++ y).getLast?, isWordChar c = false ∨ c.isDigit := hxy ▸ hlast
  obtain ⟨d, hd, -, hdigit⟩ := exists_of_getLast? hy hend
  have hde : d ∉ e := by
    intro hmem
    rcases hdigit with hdigit | hdigit
    · rw [isWordChar_of_spells hletters hspells d hmem] at hdigit
      cases hdigit
    · rw [isDigit_eq_false_of_spells hletters hspells d hmem] at hdigit
      cases hdigit
  have hsolid : ∀ c ∈ y, isBlank c = false := fun c hc => hu c (hxy ▸ List.mem_append_right x hc)
  have hnil : g = [] := by
    obtain ⟨c, y, rfl⟩ := List.exists_cons_of_ne_nil hy
    cases g with
    | nil => rfl
    | cons b g =>
        obtain ⟨rfl, -⟩ := List.cons.inj hsplit
        have hblank := hsolid c List.mem_cons_self
        rw [hg c List.mem_cons_self] at hblank
        cases hblank
  rw [hnil, List.nil_append] at hsplit
  rcases exists_append_of_length hsplit with ⟨m, rfl, -⟩ | ⟨c, m, rfl, rfl⟩
  · exact hde (List.mem_append_left m hd)
  · exact hz (stops_cons.mpr (hsolid c (by simp)))

end OpensWith

end SchemaDump
