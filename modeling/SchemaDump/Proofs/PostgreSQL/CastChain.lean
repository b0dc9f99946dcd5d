import Mathlib.Data.List.DropRight
import SchemaDump.Proofs.PostgreSQL.CastType
/- Casts behind a literal, a call or an expression in parentheses. They are taken off one by one from the end,
as long as numbers stand only behind the last word of a type. So the value is recovered if and only if every
cast is of that form. No cast is found in the operand, whatever casts it holds. -/
namespace SchemaDump.PostgreSQL
open SqlPattern Pattern

variable {before : Option Char} {t u v : Text}

/-- A cast, with blanks in front of its colons. Those behind the colons belong to the first word. -/
structure WrittenCast where
  before : Indent
  type : CastType

namespace WrittenCast

def text (c : WrittenCast) : Text := c.before.text ++ ':' :: ':' :: c.type.text

def chainText (casts : List WrittenCast) : Text := casts.flatMap (·.text)

end WrittenCast

/-- What is cast: a literal, or an expression in parentheses, which may have the name of a function in front.
Parentheses in the literals of an expression may count or not. -/
inductive CastOperand
  | literal (content : Text) (closed : '\'' ∉ content)
  | expression (name inner : Text) (opens : ∀ c ∈ name.head?, isBlank c = false)
      (plain : ∀ c ∈ name, c ≠ ':' ∧ c ≠ '(')
      (balanced : Balanced inner ∨ Balanced (inner.filter (· != '\'')))

namespace CastOperand

def text : CastOperand → Text
  | literal content _ => '\'' :: (content ++ ['\''])
  | expression name inner _ _ _ => name ++ '(' :: (inner ++ [')'])

def value : CastOperand → Text
  | literal content _ => content
  | o => o.text

end CastOperand

/-- Behind an open parenthesis that nothing closes the nesting is not the outermost. -/
theorem not_balanced_of_open (hv : Flat v) : ¬Balanced (u ++ '(' :: v) := by
  intro h
  rw [Balanced, Nesting.after, List.foldl_append, List.foldl_cons, hv.foldl_next] at h
  generalize u.foldl Nesting.next .outermost = n at h
  obtain ⟨inLiteral, depth⟩ := n
  cases inLiteral with
  | true => exact Bool.noConfusion (show true = false from congrArg Nesting.inLiteral h)
  | false => exact Nat.succ_ne_zero depth (congrArg Nesting.depth h)

/-- A cast that ends with a parenthesis has numbers, and nothing stands behind them. -/
theorem exists_numbers_of_cast {y w n d : Text} (hsplit : y = ':' :: ':' :: (w ++ (n ++ d))) (hw : ∀ c ∈ w, isCastChar c)
    (hn : n = [] ∨ ∃ m, n = '(' :: (m ++ [')']) ∧ Flat m) (hd : ∀ c ∈ d, isBlank c ∨ c = '[' ∨ c = ']')
    (hlast : ∀ c ∈ y.getLast?, c = ')') : ∃ m, y = (':' :: ':' :: w) ++ '(' :: (m ++ [')']) ∧ Flat m := by
  have hdnil : d = [] := by
    by_contra hne
    obtain ⟨c, hc, -, hclose⟩ := exists_of_getLast? (P := (· = ')')) (x := ':' :: ':' :: (w ++ n)) hne
      fun c hc => hlast c (by rw [hsplit]; simpa using hc)
    rcases hd c hc with h | h | h
    · rw [hclose] at h
      exact absurd h (by decide)
    · exact absurd (hclose.symm.trans h) (by decide)
    · exact absurd (hclose.symm.trans h) (by decide)
  subst hdnil
  rcases hn with rfl | ⟨m, rfl, hm⟩
  · obtain ⟨c, hc, -, hclose⟩ := exists_of_getLast? (P := (· = ')')) (x := [':']) (y := ':' :: w)
      (List.cons_ne_nil _ _) fun c hc => hlast c (by rw [hsplit]; simpa using hc)
    rcases List.mem_cons.mp hc with h | h
    · exact absurd (hclose.symm.trans h) (by decide)
    · have hword := hw c h
      rw [hclose] at hword
      exact absurd hword (by decide)
  · exact ⟨m, by rw [hsplit, List.append_nil]; rfl, hm⟩

/-- What looks like a cast at the end of an expression would have to close its parenthesis. -/
theorem silent_trailingCast_expression {name inner : Text} (plain : ∀ c ∈ name, c ≠ ':' ∧ c ≠ '(')
    (balanced : Balanced inner ∨ Balanced (inner.filter (· != '\''))) :
    trailingCast.Silent before (name ++ '(' :: (inner ++ [')'])) [] := by
  rw [silent_iff]
  intro x y hxy hy
  cases hr : trailingCast.read? (lastOf before x) (y ++ []) with
  | none => rfl
  | some r =>
      exfalso
      obtain ⟨w, n, d, hsplit, hw, hn, hd⟩ := exists_of_mem_trailingCast (mem_of_read? hr)
      rw [List.append_nil] at hsplit
      have hlast : ∀ c ∈ y.getLast?, c = ')' := by
        intro c hc
        have hwhole : (name ++ '(' :: (inner ++ [')'])).getLast? = some c := by
          rw [hxy, List.getLast?_append, hc]
          rfl
        rw [← List.cons_append, ← List.append_assoc, List.getLast?_concat] at hwhole
        exact (Option.some.inj hwhole).symm
      obtain ⟨m, rfl, hm⟩ := exists_numbers_of_cast hsplit hw hn hd hlast
      have hwhole : (name ++ '(' :: inner) ++ [')'] = ((x ++ ':' :: ':' :: w) ++ '(' :: m) ++ [')'] := by
        simpa using hxy
      have hparens : name ++ '(' :: inner = (x ++ ':' :: ':' :: w) ++ '(' :: m := List.append_cancel_right hwhole
      rcases exists_append_of_length hparens with ⟨z, hz, hinner⟩ | ⟨c, z, hname, hz⟩
      · cases z with
        | nil =>
            -- The parenthesis of the numbers cannot be the one behind the name, which holds no colon.
            rw [List.append_nil] at hz
            exact absurd rfl (plain ':' (by rw [← hz]; simp)).1
        | cons c z =>
            have htail : inner = z ++ '(' :: m := (List.cons.inj hinner).2
            rcases balanced with h | h
            · rw [htail] at h
              exact not_balanced_of_open hm h
            · have hfilter : m.filter (· != '\'') = m :=
                List.filter_eq_self.mpr fun c hc => bne_iff_ne.mpr (hm c hc).1
              rw [htail, List.filter_append, List.filter_cons_of_pos (by decide), hfilter] at h
              exact not_balanced_of_open hm h
      · obtain ⟨rfl, -⟩ := List.cons.inj hz
        exact absurd rfl (plain '(' (by rw [hname]; simp)).2

namespace CastOperand

variable (o : CastOperand)

theorem silent : trailingCast.Silent before o.text [] := by
  cases o with
  | literal content closed =>
      exact silent_trailingCast_closed (u := '\'' :: content)
  | expression name inner opens plain balanced => exact silent_trailingCast_expression plain balanced

theorem text_ne_nil : o.text ≠ [] := by
  cases o with
  | literal content closed => exact List.cons_ne_nil _ _
  | expression name inner opens plain balanced => exact List.append_ne_nil_of_right_ne_nil _ (List.cons_ne_nil _ _)

theorem getLast?_text : o.text.getLast? = some '\'' ∨ o.text.getLast? = some ')' := by
  cases o with
  | literal content closed =>
      left
      rw [text, ← List.cons_append, List.getLast?_concat]
  | expression name inner opens plain balanced =>
      right
      rw [text, ← List.cons_append, ← List.append_assoc, List.getLast?_concat]

theorem trimmed_text : Trimmed o.text := by
  constructor
  · cases o with
    | literal content closed => exact fun c hc => Option.some.inj hc ▸ by decide
    | expression name inner opens plain balanced =>
        cases name with
        | nil => exact fun c hc => Option.some.inj hc ▸ by decide
        | cons d name => exact opens
  · intro c hc
    rcases o.getLast?_text with h | h
    · exact Option.some.inj (h.symm.trans hc) ▸ by decide
    · exact Option.some.inj (h.symm.trans hc) ▸ by decide

end CastOperand

open WrittenCast (chainText)

theorem chainText_append (casts : List WrittenCast) (c : WrittenCast) :
    chainText (casts ++ [c]) = (chainText casts ++ c.before.text) ++ ':' :: ':' :: c.type.text := by
  simp [chainText, WrittenCast.text]

theorem getLast?_chain (o : CastOperand) (casts : List WrittenCast) :
    ∀ c ∈ (o.text ++ chainText casts).getLast?, isBlank c = false := by
  rcases List.eq_nil_or_concat casts with rfl | ⟨front, c, rfl⟩
  · rw [chainText, List.flatMap_nil, List.append_nil]
    exact o.trimmed_text.2
  · obtain ⟨e, he, hblank, -⟩ := c.type.getLast?_text
    intro d hd
    rw [List.concat_eq_append, chainText_append, List.getLast?_append, List.getLast?_append, List.getLast?_cons,
      List.getLast?_cons, he] at hd
    exact Option.some.inj hd ▸ hblank

theorem trimmed_chain (o : CastOperand) (casts : List WrittenCast) : Trimmed (o.text ++ chainText casts) := by
  refine ⟨fun c hc => ?_, getLast?_chain o casts⟩
  obtain ⟨d, rest, ho⟩ := List.exists_cons_of_ne_nil o.text_ne_nil
  refine o.trimmed_text.1 c ?_
  rw [ho] at hc ⊢
  exact hc

theorem silent_of_rejects {w : Text} (hw : ':' ∉ w) (h : trailingCast.Rejects (':' :: ':' :: w)) :
    trailingCast.Silent before (u ++ ':' :: ':' :: w) [] := by
  rw [silent_iff]
  intro x y hxy _
  cases hr : trailingCast.read? (lastOf before x) (y ++ []) with
  | none => rfl
  | some r =>
      obtain ⟨z, hz, hcolon, -⟩ := exists_of_read?_trailingCast (by rw [hr]; exact Option.some_ne_none r)
      rw [List.append_nil] at hz
      have hsplit : (u ++ [':']) ++ ':' :: w = (x ++ [':']) ++ ':' :: z := by
        rw [hz] at hxy
        simpa using hxy
      obtain ⟨-, rfl⟩ := append_cons_inj_last hw hcolon hsplit
      rw [List.append_nil, hz, h] at hr
      cases hr

/-- Casts are taken off from the end up to the first one that is not simple. -/
theorem dropCastsWithin_chain (o : CastOperand) (casts : List WrittenCast) (bound : Text)
    (hbound : casts.length ≤ bound.length) :
    DefaultValue.dropCastsWithin bound (o.text ++ chainText casts) =
      o.text ++ chainText (casts.rdropWhile (·.type.isSimple)) := by
  induction bound generalizing casts with
  | nil =>
      obtain rfl := List.length_eq_zero_iff.mp (Nat.le_zero.mp hbound)
      rfl
  | cons _ bound ih =>
      rcases List.eq_nil_or_concat casts with rfl | ⟨front, c, rfl⟩
      · have hnone : trailingCast.find? o.text = none :=
          find?_eq_none_of_silent consumes_trailingCast o.silent
        rw [chainText, List.flatMap_nil, List.append_nil, DefaultValue.dropCastsWithin, hnone,
          List.rdropWhile_nil, chainText, List.flatMap_nil, List.append_nil]
      rw [List.concat_eq_append, chainText_append, ← List.append_assoc]
      cases hsimple : c.type.isSimple with
      | false =>
          have hsilent : trailingCast.Silent none
              ((o.text ++ (chainText front ++ c.before.text)) ++ ':' :: ':' :: c.type.text) [] :=
            silent_of_rejects c.type.colon_not_mem_text (c.type.rejects_of_not_isSimple hsimple)
          rw [DefaultValue.dropCastsWithin, find?_eq_none_of_silent consumes_trailingCast hsilent,
            List.rdropWhile_concat_neg _ _ _ (by simp [hsimple]), chainText_append, List.append_assoc]
      | true =>
          have hread := c.type.reads_of_isSimple hsimple
            (lastOf none (o.text ++ (chainText front ++ c.before.text)))
          rw [List.append_nil] at hread
          obtain ⟨f, hf, -, hbefore⟩ := find?_of_silent (silent_trailingCast _ _) hread
          have htrim : Text.trimEnd (o.text ++ (chainText front ++ c.before.text)) = o.text ++ chainText front := by
            rw [← List.append_assoc, trimEnd_append_blanks _ c.before.blank,
              trimEnd_eq_self (getLast?_chain o front)]
          have hlength : front.length ≤ bound.length := by simpa using hbound
          rw [DefaultValue.dropCastsWithin, hf]
          simp only [hbefore, htrim]
          rw [ih front hlength, List.rdropWhile_concat_pos (fun c : WrittenCast => c.type.isSimple) front c hsimple]

theorem between?_eq_none {quote : Char} {t : Text} (h : t.head? ≠ some quote ∨ t.getLast? ≠ some quote) :
    DefaultValue.between? quote t = none := by
  cases t with
  | nil => rfl
  | cons c rest =>
      rw [DefaultValue.between?, if_neg]
      intro hquotes
      rw [Bool.and_eq_true, decide_eq_true_eq, decide_eq_true_eq] at hquotes
      rcases h with h | h
      · exact h (by rw [hquotes.1]; rfl)
      · exact h (by rw [List.getLast?_cons, hquotes.2]; rfl)

theorem length_between? {quote : Char} {t inner : Text} (h : DefaultValue.between? quote t = some inner) :
    inner.length + 2 = t.length := by
  cases t with
  | nil => cases h
  | cons c rest =>
      rw [DefaultValue.between?] at h
      split at h
      · next hquotes =>
        rw [Bool.and_eq_true, decide_eq_true_eq, decide_eq_true_eq] at hquotes
        have hne : rest ≠ [] := by
          rintro rfl
          cases hquotes.2
        have hpos := List.length_pos_iff.mpr hne
        rw [← Option.some.inj h, List.length_dropLast, List.length_cons]
        omega
      · cases h

theorem unquoteLiteral_cases (t : Text) : DefaultValue.unquoteLiteral t = t ∨
    (DefaultValue.unquoteLiteral t).length + 2 = t.length := by
  rw [DefaultValue.unquoteLiteral]
  cases hsingle : DefaultValue.between? '\'' t with
  | some inner => exact .inr (length_between? hsingle)
  | none =>
      cases hdouble : DefaultValue.between? '"' t with
      | some inner => exact .inr (length_between? hdouble)
      | none => exact .inl rfl

namespace CastOperand

variable (o : CastOperand)

theorem unquoteLiteral_text : DefaultValue.unquoteLiteral o.text = o.value := by
  cases o with
  | literal content closed =>
      simp [DefaultValue.unquoteLiteral, DefaultValue.between?, text, value]
  | expression name inner opens plain balanced =>
      have hlast : ∀ quote, quote ≠ ')' → (name ++ '(' :: (inner ++ [')'])).getLast? ≠ some quote := by
        intro quote hquote h
        rw [← List.cons_append, ← List.append_assoc, List.getLast?_concat] at h
        exact hquote (Option.some.inj h).symm
      rw [text, DefaultValue.unquoteLiteral, between?_eq_none (.inr (hlast '\'' (by decide))),
        between?_eq_none (.inr (hlast '"' (by decide)))]
      rfl

theorem length_value_le : o.value.length ≤ o.text.length := by
  cases o with
  | literal content closed =>
      rw [value, text, List.length_cons, List.length_append]
      omega
  | expression name inner opens plain balanced => exact Nat.le_refl _

end CastOperand

theorem length_le_chainText (casts : List WrittenCast) : 3 * casts.length ≤ (chainText casts).length := by
  induction casts with
  | nil => exact Nat.le_refl _
  | cons c casts ih =>
      obtain ⟨e, he, -⟩ := c.type.getLast?_text
      have hpos : 0 < c.type.text.length := List.length_pos_of_mem (List.mem_of_getLast? he)
      have hlength : (chainText (c :: casts)).length = c.text.length + (chainText casts).length := by
        simp [chainText]
      rw [hlength, WrittenCast.text, List.length_append, List.length_cons, List.length_cons, List.length_cons]
      omega

/-- A default as it is written, with blanks around it. -/
def writtenDefault (front : Indent) (o : CastOperand) (casts : List WrittenCast) (back : Indent) : Text :=
  front.text ++ (o.text ++ (chainText casts ++ back.text))

theorem trim_writtenDefault (front back : Indent) (o : CastOperand) (casts : List WrittenCast) :
    (writtenDefault front o casts back).trim = o.text ++ chainText casts := by
  rw [writtenDefault, Text.trim, Text.trimStart, List.dropWhile_append_of_pos front.blank, ← List.append_assoc]
  have hstart : ((o.text ++ chainText casts) ++ back.text).dropWhile isBlank =
      (o.text ++ chainText casts) ++ back.text := by
    refine dropWhile_eq_self fun c hc => (trimmed_chain o casts).1 c ?_
    obtain ⟨d, rest, ho⟩ := List.exists_cons_of_ne_nil o.text_ne_nil
    rw [ho] at hc ⊢
    exact hc
  rw [hstart, trimEnd_append_blanks _ back.blank, trimEnd_eq_self (getLast?_chain o casts)]

theorem clean_writtenDefault (front back : Indent) (o : CastOperand) (casts : List WrittenCast) :
    DefaultValue.clean true (writtenDefault front o casts back) =
      DefaultValue.unquoteLiteral (o.text ++ chainText (casts.rdropWhile (·.type.isSimple))) := by
  have hbound : casts.length ≤ (o.text ++ chainText casts).length := by
    have h := length_le_chainText casts
    rw [List.length_append]
    omega
  simp only [DefaultValue.clean, trim_writtenDefault, if_true, DefaultValue.dropCasts,
    dropCastsWithin_chain o casts _ hbound]

/-- The value of a default is recovered if and only if all its casts are simple. -/
theorem clean_eq_value_iff (front back : Indent) (o : CastOperand) (casts : List WrittenCast) :
    DefaultValue.clean true (writtenDefault front o casts back) = o.value ↔ ∀ c ∈ casts, c.type.isSimple := by
  rw [clean_writtenDefault, ← List.rdropWhile_eq_nil_iff (p := fun c : WrittenCast => c.type.isSimple)]
  constructor
  · intro h
    by_contra hne
    have hlength := length_le_chainText (casts.rdropWhile (·.type.isSimple))
    have hpos := List.length_pos_iff.mpr hne
    have hvalue := o.length_value_le
    rcases unquoteLiteral_cases (o.text ++ chainText (casts.rdropWhile (·.type.isSimple))) with heq | heq
    · rw [heq] at h
      rw [← h, List.length_append] at hvalue
      omega
    · rw [h, List.length_append] at heq
      omega
  · intro h
    rw [h, chainText, List.flatMap_nil, List.append_nil, o.unquoteLiteral_text]

/-- Where casts are not taken off, a default with casts is kept, unless it stands between double quotes that
belong to the name of a function and to a type. -/
theorem clean_false_eq_iff (front back : Indent) (o : CastOperand) (c : WrittenCast) (casts : List WrittenCast) :
    DefaultValue.clean false (writtenDefault front o (c :: casts) back) = o.text ++ chainText (c :: casts) ↔
      ¬(o.text.head? = some '"' ∧ (chainText (c :: casts)).getLast? = some '"') := by
  obtain ⟨first, rest, htext⟩ := List.exists_cons_of_ne_nil o.text_ne_nil
  obtain ⟨last, hlast, hquote⟩ : ∃ last, (chainText (c :: casts)).getLast? = some last ∧ last ≠ '\'' := by
    rcases List.eq_nil_or_concat (c :: casts) with h | ⟨front, d, h⟩
    · cases h
    · obtain ⟨e, he, -, hquote⟩ := d.type.getLast?_text
      refine ⟨e, ?_, hquote⟩
      rw [h, List.concat_eq_append, chainText_append, List.getLast?_append, List.getLast?_cons,
        List.getLast?_cons, he]
      rfl
  have hend : (rest ++ chainText (c :: casts)).getLast? = some last := by
    rw [List.getLast?_append, hlast]
    rfl
  have hsingle : DefaultValue.between? '\'' (o.text ++ chainText (c :: casts)) = none := by
    refine between?_eq_none (.inr ?_)
    rw [List.getLast?_append, hlast]
    exact fun h => hquote (Option.some.inj h)
  simp only [DefaultValue.clean, trim_writtenDefault, Bool.false_eq_true, if_false, DefaultValue.unquoteLiteral,
    hsingle]
  rw [htext, hlast, List.head?_cons, Option.some_inj, Option.some_inj, List.cons_append, DefaultValue.between?, hend]
  by_cases hquotes : first = '"' ∧ last = '"'
  · obtain ⟨rfl, rfl⟩ := hquotes
    simp only [and_self, not_true_eq_false, iff_false]
    intro h
    have hlength := congrArg List.length h
    simp at hlength
  · simp [hquotes]

/-- Casts behind a literal or an expression are taken off, whatever casts stand in it, if and only if in all of
them numbers stand only behind the last word of the type. Where casts are not to be taken off, they are kept,
unless the text starts with a double quote of its function's name and ends with one of its last type. -/
theorem clean_casts_iff (front back : Indent) (o : CastOperand) (c : WrittenCast) (casts : List WrittenCast) :
    (DefaultValue.clean true (writtenDefault front o (c :: casts) back) = o.value ↔
      ∀ d ∈ c :: casts, d.type.isSimple) ∧
    (DefaultValue.clean false (writtenDefault front o (c :: casts) back) = o.text ++ chainText (c :: casts) ↔
      ¬(o.text.head? = some '"' ∧ (chainText (c :: casts)).getLast? = some '"')) :=
  ⟨clean_eq_value_iff front back o (c :: casts), clean_false_eq_iff front back o c casts⟩

namespace Cast

def noBlanks : Indent := ⟨[], nofun⟩

/-- Numbers without blanks among them. -/
def spacedNumbers (n : Digits × Option Digits) : SpacedNumbers where
  space := noBlanks
  behind := noBlanks
  precision := n.1
  scale := n.2.map fun d => (noBlanks, noBlanks, d)
  close := noBlanks

theorem textOf_spacedNumbers (n : Option (Digits × Option Digits)) :
    SpacedNumbers.textOf (n.map spacedNumbers) = Extent.numberText n := by
  match n with
  | none => rfl
  | some (length, none) =>
      simp [SpacedNumbers.textOf, SpacedNumbers.text, SpacedNumbers.listText, SpacedNumbers.inner,
        SpacedNumbers.scaleText, spacedNumbers, noBlanks, Extent.numberText]
  | some (precision, some scale) =>
      simp [SpacedNumbers.textOf, SpacedNumbers.text, SpacedNumbers.listText, SpacedNumbers.inner,
        SpacedNumbers.scaleText, spacedNumbers, noBlanks, Extent.numberText]

theorem words_chars (c : Cast) : ∀ e ∈ c.words.text, isWordChar e ∨ e = ' ' := by
  have hword : ∀ w : TypeWord, ∀ e ∈ ColumnType.wordText (w, .none), isWordChar e := by
    intro w e he
    have hnone : Extent.text .none = [] := rfl
    rw [ColumnType.wordText, hnone, List.append_nil] at he
    exact w.chars e he
  intro e he
  rcases List.mem_append.mp he with he | he
  · exact .inl (hword c.first e he)
  · obtain ⟨w, hw, he⟩ := List.mem_flatMap.mp he
    obtain ⟨w, -, rfl⟩ := List.mem_map.mp hw
    rcases List.mem_cons.mp he with he | he
    · exact .inr he
    · exact .inl (hword w e he)

/-- The cast with its words as one. -/
def written (c : Cast) : WrittenCast where
  before := noBlanks
  type :=
    { front := []
      last :=
        { name := c.words.text
          nonempty := List.append_ne_nil_of_left_ne_nil (List.append_ne_nil_of_left_ne_nil c.first.nonempty _) _
          chars := fun e he => by
            rcases c.words_chars e he with h | rfl
            · simp [isCastChar, h]
            · decide
          solid := (trimmed_type c.words).2
          numbers := c.extent.numbers.map spacedNumbers }
      dimensions := c.extent.dimensions }

theorem text_written (c : Cast) : c.written.text = c.text := by
  rw [written, WrittenCast.text, CastType.text, CastWord.text, textOf_spacedNumbers]
  simp [noBlanks, text, Extent.text]

end Cast

/-- A default means the content of its literal, whatever it is cast to. -/
theorem clean_default (d : FreeDefault) : DefaultValue.clean true d.text = d.content.text := by
  have hquote : '\'' ∉ d.content.text := fun hmem => (d.content.chars _ hmem).1 rfl
  have htext : d.text = writtenDefault Cast.noBlanks (.literal d.content.text hquote) (d.casts.map Cast.written)
      Cast.noBlanks := by
    have hcasts : chainText (d.casts.map Cast.written) = d.casts.flatMap (·.text) := by
      rw [chainText, List.flatMap_map]
      exact List.flatMap_congr fun c _ => c.text_written
    rw [writtenDefault, hcasts, FreeDefault.text]
    simp [Cast.noBlanks, CastOperand.text, Content.quoted]
  rw [htext]
  refine (clean_eq_value_iff _ _ _ _).mpr fun c hc => ?_
  obtain ⟨d, -, rfl⟩ := List.mem_map.mp hc
  rfl

end SchemaDump.PostgreSQL
