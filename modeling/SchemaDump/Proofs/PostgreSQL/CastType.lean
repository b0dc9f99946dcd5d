import SchemaDump.Proofs.PostgreSQL.DefaultValue
import SchemaDump.Proofs.PostgreSQL.MarkRemoval
import SchemaDump.Proofs.PostgreSQL.TypeText
/- The type of a cast: words with numbers behind any of them, and the dimensions of an array. A cast to it is
read if and only if numbers stand only behind its last word. -/
namespace SchemaDump.PostgreSQL
open SqlPattern Pattern

variable {before : Option Char} {t u v : Text}

/-- One number or two in parentheses, with blanks anywhere. -/
structure SpacedNumbers where
  space : Indent
  behind : Indent
  precision : Digits
  scale : Option (Indent × Indent × Digits)
  close : Indent

namespace SpacedNumbers

variable (n : SpacedNumbers)

def scaleText : Option (Indent × Indent × Digits) → Text
  | none => []
  | some (before, behind, digits) => before.text ++ ',' :: (behind.text ++ digits.text)

def inner : Text := n.behind.text ++ (n.precision.text ++ (scaleText n.scale ++ n.close.text))

def listText : Text := '(' :: (n.inner ++ [')'])

def text : Text := n.space.text ++ n.listText

def textOf : Option SpacedNumbers → Text
  | none => []
  | some n => n.text

end SpacedNumbers

/-- A word of a type, or several of them, which may be quoted or qualified, and the numbers behind it. -/
structure CastWord where
  name : Text
  nonempty : name ≠ []
  chars : ∀ c ∈ name, isCastChar c
  solid : ∀ c ∈ name.getLast?, isBlank c = false
  numbers : Option SpacedNumbers

def CastWord.text (w : CastWord) : Text := w.name ++ SpacedNumbers.textOf w.numbers

/-- A type: words, each with or without numbers, and the dimensions of an array. -/
structure CastType where
  front : List CastWord
  last : CastWord
  dimensions : Nat

namespace CastType

def text (t : CastType) : Text :=
  t.front.flatMap (·.text) ++ (t.last.text ++ Extent.dimensionText t.dimensions)

/-- Whether numbers stand only behind the last word. -/
def isSimple (t : CastType) : Bool := t.front.all fun w => w.numbers.isNone

end CastType

theorem isCastChar_of_isBlank {c : Char} (h : isBlank c) : isCastChar c := by simp [isCastChar, h]

theorem flat_of_mem_readings {p : SqlPattern} {r : Match Part} (hr : r ∈ p.readings before t)
    (h : p.mentions '\'' = false ∧ p.mentions '(' = false ∧ p.mentions ')' = false) : Flat r.read := by
  intro c hc
  refine ⟨?_, ?_, ?_⟩
  · rintro rfl
    exact not_mem_read hr h.1 hc
  · rintro rfl
    exact not_mem_read hr h.2.1 hc
  · rintro rfl
    exact not_mem_read hr h.2.2 hc

theorem Flat.append (hu : Flat u) (hv : Flat v) : Flat (u ++ v) := fun c hc =>
  (List.mem_append.mp hc).elim (hu c) (hv c)

/-- The parts of a cast. What stands behind its numbers is no word. -/
theorem exists_of_mem_trailingCast {r : Match Part} (hr : r ∈ trailingCast.readings before t) :
    ∃ w n d, t = ':' :: ':' :: (w ++ (n ++ d)) ∧ (∀ c ∈ w, isCastChar c) ∧
      (n = [] ∨ ∃ m, n = '(' :: (m ++ [')']) ∧ Flat m) ∧ ∀ c ∈ d, isBlank c ∨ c = '[' ∨ c = ']' := by
  have hrest : r.rest = [] := rest_of_mem_readings_textEnd hr
  have htext := readings_text _ _ _ r hr
  rw [hrest, List.append_nil] at htext
  rw [readings_trailingCast] at hr
  obtain ⟨a, ha, x, hx, rfl⟩ := mem_readings_seq.mp hr
  obtain ⟨g, hg, y, hy, rfl⟩ := mem_readings_seq.mp hx
  obtain ⟨w, hw, z, hz, rfl⟩ := mem_readings_seq.mp hy
  obtain ⟨n, hn, d, hd, rfl⟩ := mem_readings_seq.mp hz
  refine ⟨g.read ++ w.read, n.read, d.read, ?_, ?_, ?_, ?_⟩
  · rw [← htext, Match.andThen_read, (mem_readings_literal.mp ha).2.1]
    simp
  · intro c hc
    rcases List.mem_append.mp hc with hc | hc
    · exact isCastChar_of_isBlank ((mem_readings_run.mp hg).2.2 c hc)
    · exact (mem_readings_run1 hw).2.2.2 c hc
  · rcases List.mem_append.mp hn with hn | hn
    · right
      simp only [castNumbers, readings_seq_assoc] at hn
      obtain ⟨o, ho, i, hi, rfl⟩ := mem_readings_seq.mp hn
      obtain ⟨b, hb, j, hj, rfl⟩ := mem_readings_seq.mp hi
      obtain ⟨p, hp, k, hk, rfl⟩ := mem_readings_seq.mp hj
      obtain ⟨s, hs, l, hl, rfl⟩ := mem_readings_seq.mp hk
      obtain ⟨e, he, c, hc, rfl⟩ := mem_readings_seq.mp hl
      refine ⟨b.read ++ (p.read ++ (s.read ++ e.read)), ?_, (flat_of_mem_readings hb (by decide)).append
        ((flat_of_mem_readings hp (by decide)).append ((flat_of_mem_readings hs (by decide)).append
          (flat_of_mem_readings he (by decide))))⟩
      simp [(mem_readings_literal.mp ho).2.1, (mem_readings_literal.mp hc).2.1]
    · left
      rw [List.mem_singleton.mp hn]
  · intro c hc
    have hmentions := mentions_of_mem hd c hc
    simpa [append_eq_seq, mentions, literal, spelled, gap, textEnd, or_comm, or_assoc] using hmentions

theorem isDecimalDigit_of_isDigit {c : Char} (h : c.isDigit) : isDecimalDigit c := by
  have hle : c.toNat ≤ 57 := (Bool.and_eq_true_iff.mp h).2 |> of_decide_eq_true
  rw [isDecimalDigit, if_pos (by omega)]
  exact h

theorem isDecimalDigit_eq_false_of_isBlank {c : Char} (h : isBlank c) : isDecimalDigit c = false := by
  have hall : ∀ n ∈ blanksByCode, isDecimalDigit (Char.ofNat n) = false := by decide +kernel
  have hc := hall _ (mem_blanksByCode_of_isBlank h)
  rwa [Char.ofNat_toNat] at hc

theorem stops_append_of_blank {accepts : Char → Bool} (hu : ∀ c ∈ u, isBlank c)
    (h : ∀ c, isBlank c → accepts c = false) (hv : Stops accepts v) : Stops accepts (u ++ v) := by
  cases u with
  | nil => exact hv
  | cons c u => exact stops_cons.mpr (h c (hu c List.mem_cons_self))

theorem Digits.stops_blank (d : Digits) (v : Text) : Stops isBlank (d.text ++ v) := by
  obtain ⟨c, rest, hd⟩ := List.exists_cons_of_ne_nil d.nonempty
  rw [hd]
  refine stops_cons.mpr (isBlank_eq_false_of_isWordChar (isWordChar_of_isDigit (d.chars c ?_)))
  rw [hd]
  exact List.mem_cons_self

theorem Digits.reads (d : Digits) (hv : Stops isDecimalDigit v) :
    (run1 isDecimalDigit .longest : SqlPattern).Reads d.text v [] :=
  reads_run1 d.nonempty (fun c hc => isDecimalDigit_of_isDigit (d.chars c hc)) hv

namespace SpacedNumbers

theorem stops_scaleText (scale : Option (Indent × Indent × Digits)) (close : Indent) (v : Text) :
    Stops isDecimalDigit (scaleText scale ++ (close.text ++ ')' :: v)) := by
  have hstops : ∀ (i : Indent) {w : Text}, Stops isDecimalDigit w → Stops isDecimalDigit (i.text ++ w) :=
    fun i _ hw => stops_append_of_blank i.blank (fun _ => isDecimalDigit_eq_false_of_isBlank) hw
  cases scale with
  | none => exact hstops close (stops_cons.mpr (by decide))
  | some s =>
      obtain ⟨front, behind, digits⟩ := s
      rw [scaleText, List.append_assoc]
      exact hstops front (stops_cons.mpr (by decide))

theorem reads_scale (scale : Option (Indent × Indent × Digits)) (close : Indent) (v : Text) :
    (maybe castScale).Reads (scaleText scale) (close.text ++ ')' :: v) [] := by
  cases scale with
  | none =>
      have hcomma : (literal "," ++ (gap ++ run1 isDecimalDigit .longest) : SqlPattern).Rejects (')' :: v) :=
        .of_starts rfl (stops_cons.mpr (by decide))
      refine reads_missing ?_
      simp only [castScale, rejects_assoc]
      refine Rejects.gap close.blank (stops_cons.mpr (by decide)) rfl (fun c hc => ?_) hcomma
      have hne : c ≠ ',' := by
        rintro rfl
        exact absurd hc (by decide)
      simp [append_eq_seq, starts, literal, spelled, nullable, hne]
  | some s =>
      obtain ⟨front, behind, digits⟩ := s
      have hdigits : (run1 isDecimalDigit .longest : SqlPattern).Reads digits.text (close.text ++ ')' :: v) [] :=
        digits.reads (stops_append_of_blank close.blank (fun _ => isDecimalDigit_eq_false_of_isBlank)
          (stops_cons.mpr (by decide)))
      have hbehind : (gap : SqlPattern).Reads behind.text (digits.text ++ (close.text ++ ')' :: v)) [] :=
        reads_run behind.blank (digits.stops_blank _)
      have hfront : ∀ w, (gap : SqlPattern).Reads front.text (',' :: w) [] :=
        fun w => reads_run front.blank (stops_cons.mpr (by decide))
      have hall := (hfront _).seq ((reads_literal "," _).seq (hbehind.seq hdigits))
      refine Reads.maybe ?_
      simp only [castScale, reads_assoc]
      exact hall

theorem reads_listText (n : SpacedNumbers) (v : Text) : castNumbers.Reads n.listText v [] := by
  have hclose : (gap : SqlPattern).Reads n.close.text ([')'] ++ v) [] :=
    reads_run n.close.blank (stops_cons.mpr (by decide))
  have hscale : (maybe castScale).Reads (scaleText n.scale) ((n.close.text ++ [')']) ++ v) [] := by
    rw [List.append_assoc]
    exact reads_scale n.scale n.close v
  have hprecision : (run1 isDecimalDigit .longest : SqlPattern).Reads n.precision.text
      ((scaleText n.scale ++ (n.close.text ++ [')'])) ++ v) [] := by
    refine n.precision.reads ?_
    rw [List.append_assoc, List.append_assoc]
    exact stops_scaleText n.scale n.close v
  have hbehind : ∀ w, (gap : SqlPattern).Reads n.behind.text ((n.precision.text ++ w) ++ v) [] := by
    intro w
    rw [List.append_assoc]
    exact reads_run n.behind.blank (n.precision.stops_blank _)
  have hall := (reads_literal "(" _).seq ((hbehind _).seq (hprecision.seq (hscale.seq
    (hclose.seq (reads_literal ")" v)))))
  have htext : n.listText = '(' :: (n.behind.text ++ (n.precision.text ++ (scaleText n.scale ++
      (n.close.text ++ [')'])))) := by
    simp [listText, inner]
  rw [htext]
  simp only [castNumbers, reads_assoc]
  exact hall

/-- The list of numbers without the blanks in front of it. -/
def listTextOf : Option SpacedNumbers → Text
  | none => []
  | some n => n.listText

def spaceOf : Option SpacedNumbers → Text
  | none => []
  | some n => n.space.text

theorem textOf_eq (n : Option SpacedNumbers) : textOf n = spaceOf n ++ listTextOf n := by
  cases n <;> rfl

theorem blank_spaceOf (n : Option SpacedNumbers) : ∀ c ∈ spaceOf n, isBlank c := by
  cases n with
  | none => exact fun c hc => nomatch hc
  | some n => exact n.space.blank

end SpacedNumbers

theorem reads_castDimensions (n : Nat) :
    (many (literal "[]") : SqlPattern).Reads (Extent.dimensionText n) [] [] := by
  have hconsumes : (literal "[]" : SqlPattern).Consumes := consumes_of_not_nullable rfl
  induction n with
  | zero => exact reads_rounds_none hconsumes (.of_starts rfl (stops_nil _))
  | succ n ih => exact Reads.round hconsumes (reads_literal "[]" _) ih

theorem stops_dimensionText {accepts : Char → Bool} (h : accepts '[' = false) (n : Nat) :
    Stops accepts (Extent.dimensionText n) := by
  cases n with
  | zero => exact stops_nil _
  | succ n => exact stops_cons.mpr h

/-- Words, the numbers behind them and dimensions are a cast. -/
theorem reads_trailingCast {w : Text} (hw : ∀ c ∈ w, isCastChar c) (hsolid : ∃ c ∈ w, isBlank c = false)
    (n : Option SpacedNumbers) (dimensions : Nat) :
    trailingCast.Reads (':' :: ':' :: (w ++ (SpacedNumbers.listTextOf n ++ Extent.dimensionText dimensions)))
      [] [] := by
  have hcore : w.dropWhile isBlank ≠ [] := by
    obtain ⟨c, hc, hblank⟩ := hsolid
    intro hnil
    rw [List.dropWhile_eq_nil_iff.mp hnil c hc] at hblank
    cases hblank
  have hstart : ∀ v, Stops isBlank (w.dropWhile isBlank ++ v) := by
    intro v
    refine stops_append hcore (fun c hc => ?_) v
    have hhead := List.head?_dropWhile_not isBlank w
    rw [hc] at hhead
    exact hhead
  have hgap : (gap : SqlPattern).Reads (w.takeWhile isBlank)
      (w.dropWhile isBlank ++ (SpacedNumbers.listTextOf n ++ Extent.dimensionText dimensions)) [] :=
    reads_run (fun c hc => List.mem_takeWhile_imp hc) (hstart _)
  have hwords : (run1 isCastChar .longest : SqlPattern).Reads (w.dropWhile isBlank)
      (SpacedNumbers.listTextOf n ++ Extent.dimensionText dimensions) [] := by
    refine reads_run1 hcore (fun c hc => hw c ((List.dropWhile_suffix isBlank).subset hc)) ?_
    cases n with
    | none => exact stops_dimensionText (by decide) dimensions
    | some n => exact stops_cons.mpr (by decide)
  have hnumbers : (maybe castNumbers).Reads (SpacedNumbers.listTextOf n) (Extent.dimensionText dimensions) [] := by
    cases n with
    | none => exact reads_missing (.of_starts rfl (stops_dimensionText (by decide) dimensions))
    | some n => exact (n.reads_listText _).maybe
  have hend : (gap ++ textEnd : SqlPattern).Reads [] [] [] :=
    (reads_no_gap (stops_nil _)).seq reads_textEnd
  have hdimensions := (reads_castDimensions dimensions).seq_end hend
  rw [List.append_nil] at hdimensions
  have hall := (reads_literal "::" _).seq_end (hgap.seq_end (hwords.seq_end (hnumbers.seq_end hdimensions)))
  rw [← List.append_assoc (w.takeWhile isBlank), List.takeWhile_append_dropWhile] at hall
  intro before
  rw [read?, readings_trailingCast]
  exact hall before

namespace SpacedNumbers

variable (n : SpacedNumbers)

theorem mem_inner {c : Char} (hc : c ∈ n.inner) : isBlank c ∨ c.isDigit ∨ c = ',' := by
  have hscale : c ∈ scaleText n.scale → isBlank c ∨ c.isDigit ∨ c = ',' := by
    intro hc
    cases hs : n.scale with
    | none =>
        rw [hs] at hc
        cases hc
    | some s =>
        rw [hs] at hc
        rcases List.mem_append.mp hc with hc | hc
        · exact .inl (s.1.blank c hc)
        rcases List.mem_cons.mp hc with hc | hc
        · exact .inr (.inr hc)
        rcases List.mem_append.mp hc with hc | hc
        · exact .inl (s.2.1.blank c hc)
        · exact .inr (.inl (s.2.2.chars c hc))
  rcases List.mem_append.mp hc with hc | hc
  · exact .inl (n.behind.blank c hc)
  rcases List.mem_append.mp hc with hc | hc
  · exact .inr (.inl (n.precision.chars c hc))
  rcases List.mem_append.mp hc with hc | hc
  · exact hscale hc
  · exact .inl (n.close.blank c hc)

theorem close_not_mem_inner : ')' ∉ n.inner := by
  intro hc
  rcases n.mem_inner hc with h | h | h
  · exact absurd h (by decide)
  · exact absurd h (by decide)
  · exact absurd h (by decide)

theorem colon_not_mem_textOf (n : Option SpacedNumbers) : ':' ∉ textOf n := by
  cases n with
  | none => exact List.not_mem_nil
  | some n =>
      intro hc
      rcases List.mem_append.mp hc with hc | hc
      · exact absurd (n.space.blank _ hc) (by decide)
      rcases List.mem_cons.mp hc with hc | hc
      · exact absurd hc (by decide)
      rcases List.mem_append.mp hc with hc | hc
      · rcases n.mem_inner hc with h | h | h
        · exact absurd h (by decide)
        · exact absurd h (by decide)
        · exact absurd h (by decide)
      · exact absurd (List.mem_singleton.mp hc) (by decide)

end SpacedNumbers

namespace CastWord

variable (w : CastWord)

theorem exists_solid : ∃ c ∈ w.name, isCastChar c ∧ isBlank c = false := by
  obtain ⟨c, hc⟩ := Option.ne_none_iff_exists'.mp (mt List.getLast?_eq_none_iff.mp w.nonempty)
  exact ⟨c, List.mem_of_getLast? hc, w.chars c (List.mem_of_getLast? hc), w.solid c hc⟩

theorem not_mem_name {c : Char} (hc : isCastChar c = false) : c ∉ w.name := by
  intro hmem
  rw [w.chars c hmem] at hc
  cases hc

theorem colon_not_mem_text : ':' ∉ w.text := by
  intro hc
  rcases List.mem_append.mp hc with hc | hc
  · exact w.not_mem_name (by decide) hc
  · exact SpacedNumbers.colon_not_mem_textOf w.numbers hc

end CastWord

namespace CastType

variable (t : CastType)

theorem colon_not_mem_text : ':' ∉ t.text := by
  intro hc
  rcases List.mem_append.mp hc with hc | hc
  · obtain ⟨w, -, hc⟩ := List.mem_flatMap.mp hc
    exact w.colon_not_mem_text hc
  rcases List.mem_append.mp hc with hc | hc
  · exact t.last.colon_not_mem_text hc
  · rcases Extent.mem_dimensionText hc with h | h
    · exact absurd h (by decide)
    · exact absurd h (by decide)

theorem getLast?_text : ∃ c, t.text.getLast? = some c ∧ isBlank c = false ∧ c ≠ '\'' := by
  have hlast : ∃ c, t.last.text.getLast? = some c ∧ isBlank c = false ∧ c ≠ '\'' := by
    rw [CastWord.text]
    cases t.last.numbers with
    | none =>
        obtain ⟨c, hc⟩ := Option.ne_none_iff_exists'.mp (mt List.getLast?_eq_none_iff.mp t.last.nonempty)
        refine ⟨c, by rw [SpacedNumbers.textOf, List.append_nil, hc], t.last.solid c hc, ?_⟩
        rintro rfl
        exact t.last.not_mem_name (by decide) (List.mem_of_getLast? hc)
    | some n =>
        refine ⟨')', ?_, by decide, by decide⟩
        rw [SpacedNumbers.textOf, SpacedNumbers.text, SpacedNumbers.listText, ← List.cons_append,
          ← List.append_assoc, ← List.append_assoc, List.getLast?_concat]
  rw [text, List.getLast?_append, List.getLast?_append]
  cases hc : (Extent.dimensionText t.dimensions).getLast? with
  | none =>
      obtain ⟨c, hc, hblank⟩ := hlast
      exact ⟨c, by rw [hc]; rfl, hblank⟩
  | some c =>
      rcases Extent.mem_dimensionText (List.mem_of_getLast? hc) with rfl | rfl
      · exact ⟨'[', rfl, by decide, by decide⟩
      · exact ⟨']', rfl, by decide, by decide⟩

theorem reads_of_isSimple (h : t.isSimple) : trailingCast.Reads (':' :: ':' :: t.text) [] [] := by
  have hfront : ∀ w ∈ t.front, w.text = w.name := by
    intro w hw
    have hnone := Option.isNone_iff_eq_none.mp (List.all_eq_true.mp h w hw)
    rw [CastWord.text, hnone, SpacedNumbers.textOf, List.append_nil]
  have htext : t.text = (t.front.flatMap (·.name) ++ (t.last.name ++ SpacedNumbers.spaceOf t.last.numbers)) ++
      (SpacedNumbers.listTextOf t.last.numbers ++ Extent.dimensionText t.dimensions) := by
    have hnames : t.front.flatMap (·.text) = t.front.flatMap (·.name) := List.flatMap_congr hfront
    rw [text, hnames, CastWord.text, SpacedNumbers.textOf_eq]
    simp
  rw [htext]
  refine reads_trailingCast (fun c hc => ?_) ?_ t.last.numbers t.dimensions
  · rcases List.mem_append.mp hc with hc | hc
    · obtain ⟨w, -, hc⟩ := List.mem_flatMap.mp hc
      exact w.chars c hc
    rcases List.mem_append.mp hc with hc | hc
    · exact t.last.chars c hc
    · exact isCastChar_of_isBlank (SpacedNumbers.blank_spaceOf _ c hc)
  · obtain ⟨c, hc, -, hblank⟩ := t.last.exists_solid
    exact ⟨c, by simp [hc], hblank⟩

/-- Behind the first numbers of a type that is not simple stands a word. -/
theorem exists_behind_numbers (h : t.isSimple = false) :
    ∃ a b, t.text = a ++ ')' :: b ∧ ')' ∉ a ∧ ∃ c ∈ b, isCastChar c ∧ isBlank c = false := by
  obtain ⟨front, last, dimensions⟩ := t
  obtain ⟨c, hc, hword⟩ := last.exists_solid
  rw [text]
  induction front with
  | nil => cases h
  | cons w front ih =>
      cases hn : w.numbers with
      | none =>
          rw [isSimple, List.all_cons, hn, Option.isNone_none, Bool.true_and] at h
          obtain ⟨a, b, hab, ha, hb⟩ := ih h
          refine ⟨w.name ++ a, b, ?_, fun hmem => ?_, hb⟩
          · rw [List.flatMap_cons, CastWord.text, hn, SpacedNumbers.textOf, List.append_nil, List.append_assoc, hab,
              List.append_assoc]
          · rcases List.mem_append.mp hmem with hmem | hmem
            · exact w.not_mem_name (by decide) hmem
            · exact ha hmem
      | some n =>
          refine ⟨w.name ++ (n.space.text ++ '(' :: n.inner), front.flatMap (·.text) ++ (last.text ++
            Extent.dimensionText dimensions), ?_, fun hmem => ?_, c, ?_, hword⟩
          · rw [List.flatMap_cons, CastWord.text, hn]
            simp [SpacedNumbers.textOf, SpacedNumbers.text, SpacedNumbers.listText]
          · rcases List.mem_append.mp hmem with hmem | hmem
            · exact w.not_mem_name (by decide) hmem
            rcases List.mem_append.mp hmem with hmem | hmem
            · exact absurd (n.space.blank _ hmem) (by decide)
            rcases List.mem_cons.mp hmem with hmem | hmem
            · exact absurd hmem (by decide)
            · exact n.close_not_mem_inner hmem
          · rw [CastWord.text]
            simp [hc]

theorem rejects_of_not_isSimple (h : t.isSimple = false) : trailingCast.Rejects (':' :: ':' :: t.text) := by
  intro before
  cases hr : trailingCast.read? before (':' :: ':' :: t.text) with
  | none => rfl
  | some r =>
      exfalso
      obtain ⟨w, n, d, hsplit, hw, hn, hd⟩ := exists_of_mem_trailingCast (mem_of_read? hr)
      have htext : t.text = w ++ (n ++ d) := (List.cons.inj (List.cons.inj hsplit).2).2
      obtain ⟨a, b, hab, ha, c, hc, hword, hblank⟩ := t.exists_behind_numbers h
      have hwords : ')' ∉ w := fun hmem => absurd (hw _ hmem) (by decide)
      have hdimension : ∀ e ∈ d, e ≠ ')' ∧ (isCastChar e → isBlank e) := by
        intro e he
        rcases hd e he with h | rfl | rfl
        · exact ⟨by rintro rfl; exact absurd h (by decide), fun _ => h⟩
        · exact ⟨by decide, fun h => absurd h (by decide)⟩
        · exact ⟨by decide, fun h => absurd h (by decide)⟩
      rw [htext] at hab
      rcases hn with rfl | ⟨m, rfl, hm⟩
      · have hclose : ')' ∈ w ++ ([] ++ d) := by
          rw [hab]
          simp
        rcases List.mem_append.mp hclose with hmem | hmem
        · exact hwords hmem
        · exact (hdimension _ hmem).1 rfl
      · have hsame : (w ++ '(' :: m) ++ ')' :: d = a ++ ')' :: b := by
          rw [← hab]
          simp
        have hfront : ')' ∉ w ++ '(' :: m := by
          intro hmem
          rcases List.mem_append.mp hmem with hmem | hmem
          · exact hwords hmem
          rcases List.mem_cons.mp hmem with hmem | hmem
          · exact absurd hmem (by decide)
          · exact (hm _ hmem).2.2 rfl
        obtain ⟨-, rfl⟩ := append_cons_inj hfront ha hsame
        rw [(hdimension c hc).2 hword] at hblank
        cases hblank

end CastType

end SchemaDump.PostgreSQL
