import SchemaDump.Definition.Split
import SchemaDump.Proofs.Text.Trim
/- The definitions of a body that is written line by line. Commas at the ends of lines separate
the definitions, whatever the lines hold, and the blanks around a line do not count. -/
namespace SchemaDump

theorem splitAtSeparators_ne_nil (t : Text) : splitAtSeparators t ≠ [] := by
  fun_cases splitAtSeparators t <;> simp_all

theorem splitAtSeparators_cons {c : Char} {t : Text} (hfeed : c = ',' → ∀ u, t ≠ '\n' :: u)
    (hreturn : c = ',' → ∀ u, t ≠ '\r' :: '\n' :: u) :
    ∃ part parts, splitAtSeparators t = part :: parts ∧
      splitAtSeparators (c :: t) = (c :: part) :: parts := by
  obtain ⟨part, parts, h⟩ := List.exists_cons_of_ne_nil (splitAtSeparators_ne_nil t)
  refine ⟨part, parts, h, ?_⟩
  rw [splitAtSeparators, h]
  · intro u hc ht
    exact hfeed hc u ht
  · intro u hc ht
    exact hreturn hc u ht

/-- The separators: a comma at the end of a line, whichever form the line break has. -/
def separators : List Text := [[',', '\n'], [',', '\r', '\n']]

/-- A separator separates what stands before it from what stands behind it. -/
theorem splitAtSeparators_separator {s : Text} (hs : s ∈ separators) (a b : Text) :
    splitAtSeparators (a ++ (s ++ b)) = splitAtSeparators a ++ splitAtSeparators b := by
  obtain ⟨⟨s, rfl⟩, hsplit⟩ : (∃ w, s = ',' :: w) ∧
      splitAtSeparators (s ++ b) = [] :: splitAtSeparators b := by
    rcases List.mem_cons.mp hs with rfl | hs
    · exact ⟨⟨_, rfl⟩, rfl⟩
    · rw [List.mem_singleton.mp hs]
      exact ⟨⟨_, rfl⟩, rfl⟩
  fun_induction splitAtSeparators a with
  | case1 => exact hsplit
  | case2 rest ih => simpa [splitAtSeparators] using ih
  | case3 rest ih => simpa [splitAtSeparators] using ih
  | case4 c rest hfeed hreturn hnil ih => exact absurd hnil (splitAtSeparators_ne_nil rest)
  | case5 c rest hfeed hreturn part parts hparts ih =>
      have hcons := splitAtSeparators_cons (c := c) (t := rest ++ ((',' :: s) ++ b)) ?_ ?_
      · obtain ⟨q, qs, hq, hcq⟩ := hcons
        rw [List.cons_append, hcq]
        rw [ih, hparts] at hq
        obtain ⟨rfl, rfl⟩ := List.cons.inj hq
        rfl
      · intro hc u hu
        cases rest with
        | nil => exact absurd (List.cons.inj hu).1 (by decide)
        | cons d rest =>
            obtain ⟨rfl, -⟩ := List.cons.inj hu
            exact hfeed rest hc rfl
      · intro hc u hu
        cases rest with
        | nil => exact absurd (List.cons.inj hu).1 (by decide)
        | cons d rest =>
            obtain ⟨rfl, htail⟩ := List.cons.inj hu
            cases rest with
            | nil => exact absurd (List.cons.inj htail).1 (by decide)
            | cons e rest =>
                obtain ⟨rfl, -⟩ := List.cons.inj htail
                exact hreturn rest hc rfl

/-- A text in which no comma stands before a line break is not separated. -/
theorem splitAtSeparators_eq_singleton {t : Text} (hfeed : ∀ u v, t ≠ u ++ ',' :: '\n' :: v)
    (hreturn : ∀ u v, t ≠ u ++ ',' :: '\r' :: '\n' :: v) : splitAtSeparators t = [t] := by
  induction t with
  | nil => rfl
  | cons c t ih =>
      have hrest := ih (fun u v ht => hfeed (c :: u) v (by rw [ht, List.cons_append]))
        fun u v ht => hreturn (c :: u) v (by rw [ht, List.cons_append])
      obtain ⟨part, parts, hparts, hcons⟩ := splitAtSeparators_cons (c := c) (t := t)
        (fun hc u ht => hfeed [] u (by rw [hc, ht, List.nil_append]))
        fun hc u ht => hreturn [] u (by rw [hc, ht, List.nil_append])
      rw [hrest] at hparts
      obtain ⟨rfl, rfl⟩ := List.cons.inj hparts
      exact hcons

theorem splitDefinitions_separator {s : Text} (hs : s ∈ separators) (a b : Text) :
    splitDefinitions (a ++ (s ++ b)) = splitDefinitions a ++ splitDefinitions b := by
  simp only [splitDefinitions, splitAtSeparators_separator hs, List.map_append, List.filter_append]

theorem splitDefinitions_append (a b : Text) :
    splitDefinitions (a ++ ',' :: '\n' :: b) = splitDefinitions a ++ splitDefinitions b :=
  splitDefinitions_separator (s := [',', '\n']) List.mem_cons_self a b

/-- The lines of a fragment without comments, joined again. -/
def withoutComments (t : Text) : Text :=
  Text.unlines (t.lines.filter fun line => !isCommentLine line)

theorem splitAtChar_cons {d c : Char} {t : Text} (hc : c ≠ d) :
    ∃ part parts, t.splitAtChar d = part :: parts ∧
      Text.splitAtChar d (c :: t) = (c :: part) :: parts := by
  rw [Text.splitAtChar, if_neg hc]
  cases h : t.splitAtChar d with
  | nil =>
      cases t with
      | nil => cases h
      | cons e t =>
          rw [Text.splitAtChar] at h
          split at h
          · cases h
          · split at h <;> cases h
  | cons part parts => exact ⟨part, parts, rfl, rfl⟩

theorem splitAtChar_ne_nil (d : Char) (t : Text) : t.splitAtChar d ≠ [] := by
  fun_cases Text.splitAtChar d t <;> simp_all

theorem splitAtChar_append (d : Char) (u v : Text) :
    Text.splitAtChar d (u ++ d :: v) = Text.splitAtChar d u ++ Text.splitAtChar d v := by
  induction u with
  | nil => simp [Text.splitAtChar]
  | cons c u ih =>
      by_cases hc : c = d
      · subst hc
        simp only [List.cons_append, Text.splitAtChar, if_pos, ih]
      · obtain ⟨part, parts, hparts, hcons⟩ := splitAtChar_cons (t := u) hc
        obtain ⟨part', parts', hparts', hcons'⟩ := splitAtChar_cons (t := u ++ d :: v) hc
        rw [ih, hparts] at hparts'
        obtain ⟨rfl, rfl⟩ := List.cons.inj hparts'
        rw [List.cons_append, hcons, hcons']
        rfl

theorem splitAtChar_of_not_mem {d : Char} {t : Text} (h : d ∉ t) : t.splitAtChar d = [t] := by
  induction t with
  | nil => rfl
  | cons c t ih =>
      obtain ⟨part, parts, hparts, hcons⟩ :=
        splitAtChar_cons (t := t) (Ne.symm (List.ne_of_not_mem_cons h))
      rw [ih (List.not_mem_of_not_mem_cons h)] at hparts
      obtain ⟨rfl, rfl⟩ := List.cons.inj hparts
      exact hcons

theorem isCommentLine_cons_blank {c : Char} {t : Text} (hc : isBlank c) :
    isCommentLine (c :: t) = isCommentLine t := by
  rw [isCommentLine, isCommentLine, trimStart_cons_blank hc]

theorem unlines_cons_cons (c : Char) (line : Text) (lines : List Text) :
    Text.unlines ((c :: line) :: lines) = c :: Text.unlines (line :: lines) := by
  cases lines <;> rfl

theorem trimStart_unlines_nil (lines : List Text) :
    (Text.unlines ([] :: lines)).trimStart = (Text.unlines lines).trimStart := by
  cases lines with
  | nil => rfl
  | cons line lines => exact trimStart_cons_blank (by decide)

/-- The text of some lines without the comments among them. -/
theorem trimStart_unlines_filter_cons {c : Char} (hc : isBlank c) (line : Text) (lines : List Text) :
    (Text.unlines (((c :: line) :: lines).filter fun line => !isCommentLine line)).trimStart =
      (Text.unlines ((line :: lines).filter fun line => !isCommentLine line)).trimStart := by
  have hcomment := isCommentLine_cons_blank (t := line) hc
  cases h : isCommentLine line with
  | true =>
      rw [h] at hcomment
      simp only [List.filter_cons, h, hcomment, Bool.not_true, Bool.false_eq_true, if_false]
  | false =>
      rw [h] at hcomment
      simp only [List.filter_cons, h, hcomment, Bool.not_false, if_true]
      rw [unlines_cons_cons, trimStart_cons_blank hc]

theorem dropReturn_cons {c d : Char} (line : Text) :
    Text.dropReturn (c :: d :: line) = c :: Text.dropReturn (d :: line) := by
  simp only [Text.dropReturn, List.getLast?_cons_cons, List.dropLast_cons_cons]
  split <;> rfl

theorem closeLines_cons (line next : Text) (lines : List Text) :
    Text.closeLines (line :: next :: lines) = line.dropReturn :: Text.closeLines (next :: lines) :=
  rfl

/-- Blanks in front of a fragment, line breaks among them, do not count. -/
theorem trimStart_withoutComments_cons {c : Char} {t : Text} (hc : isBlank c) :
    (withoutComments (c :: t)).trimStart = (withoutComments t).trimStart := by
  have hnil : ∀ lines : List Text,
      (Text.unlines (([] :: lines).filter fun line => !isCommentLine line)).trimStart =
        (Text.unlines (lines.filter fun line => !isCommentLine line)).trimStart :=
    fun lines => trimStart_unlines_nil _
  rw [withoutComments, withoutComments, Text.lines, Text.lines]
  by_cases hfeed : c = '\n'
  · subst hfeed
    rw [Text.splitAtChar, if_pos rfl]
    cases t.splitAtChar '\n' with
    | nil => exact hnil []
    | cons part parts => exact hnil _
  · obtain ⟨part, parts, hparts, hcons⟩ := splitAtChar_cons (t := t) hfeed
    rw [hparts, hcons]
    cases parts with
    | nil =>
        have hline := trimStart_unlines_filter_cons hc part []
        cases part with
        | nil => exact hline.trans (hnil [])
        | cons d part => exact hline
    | cons next parts =>
        cases part with
        | nil =>
            have hdrop : Text.dropReturn [c] = [] ∨ Text.dropReturn [c] = [c] := by
              rw [Text.dropReturn]
              split
              · exact .inl rfl
              · exact .inr rfl
            rw [closeLines_cons, closeLines_cons]
            rcases hdrop with hdrop | hdrop
            · rw [hdrop]
              rfl
            · rw [hdrop]
              exact trimStart_unlines_filter_cons hc [] _
        | cons d part =>
            rw [closeLines_cons, closeLines_cons, dropReturn_cons]
            exact trimStart_unlines_filter_cons hc _ _

theorem trimStart_withoutComments_append {pad t : Text} (hpad : ∀ c ∈ pad, isBlank c) :
    (withoutComments (pad ++ t)).trimStart = (withoutComments t).trimStart := by
  induction pad with
  | nil => rfl
  | cons c pad ih =>
      rw [List.cons_append, trimStart_withoutComments_cons (hpad c List.mem_cons_self)]
      exact ih fun d hd => hpad d (List.mem_cons_of_mem c hd)

/-- A single line that is neither blank at its start nor a comment. -/
structure IsLine (line : Text) : Prop where
  unbroken : '\n' ∉ line
  opens : ∃ c rest, line = c :: rest ∧ isBlank c = false ∧ c ≠ '-'

instance (line : Text) : Decidable (IsLine line) :=
  decidable_of_iff ('\n' ∉ line ∧ line ≠ [] ∧ ∀ c ∈ line.head?, isBlank c = false ∧ c ≠ '-')
    ⟨fun ⟨unbroken, hne, hhead⟩ => by
      obtain ⟨c, rest, rfl⟩ := List.exists_cons_of_ne_nil hne
      exact ⟨unbroken, c, rest, rfl, hhead c rfl⟩,
      fun ⟨unbroken, c, rest, hline, hc⟩ => by
        subst hline
        exact ⟨unbroken, List.cons_ne_nil _ _, fun d hd => Option.some.inj hd ▸ hc⟩⟩

variable {line pad : Text}

theorem IsLine.isCommentLine_eq (h : IsLine line) : isCommentLine line = false := by
  obtain ⟨c, rest, rfl, hblank, hdash⟩ := h.opens
  have hstart : Text.trimStart (c :: rest) = c :: rest :=
    List.dropWhile_cons_of_neg (by simp [hblank])
  rw [isCommentLine, hstart]
  simp [List.isPrefixOf, Ne.symm hdash]

theorem IsLine.withoutComments_eq (h : IsLine line) : withoutComments line = line := by
  obtain ⟨c, rest, hline, -, -⟩ := h.opens
  have hne : line.isEmpty = false := by rw [hline]; rfl
  rw [withoutComments, Text.lines, splitAtChar_of_not_mem h.unbroken]
  simp [Text.closeLines, hne, h.isCommentLine_eq, Text.unlines]

theorem cleanFragment_eq (hpad : ∀ c ∈ pad, isBlank c) (h : IsLine line) :
    cleanFragment (pad ++ line) = line.trim := by
  have hstart := trimStart_withoutComments_append (t := line) hpad
  rw [h.withoutComments_eq] at hstart
  exact congrArg Text.trimEnd hstart

theorem trim_ne_nil (h : IsLine line) : line.trim.isEmpty = false := by
  obtain ⟨c, rest, rfl, hblank, -⟩ := h.opens
  have hstart : Text.trimStart (c :: rest) = c :: rest :=
    List.dropWhile_cons_of_neg (by simp [hblank])
  rw [Text.trim, hstart, Text.trimEnd, List.reverse_cons, List.dropWhile_append]
  split
  · rw [List.dropWhile_cons_of_neg (by simp [hblank])]
    rfl
  · rw [List.reverse_concat]
    rfl

theorem not_separated (hpad : ∀ c ∈ pad, isBlank c) (h : IsLine line) (u v w : Text) :
    pad ++ line ≠ u ++ ',' :: (v ++ '\n' :: w) := by
  intro ht
  rcases List.append_eq_append_iff.mp ht with ⟨z, -, hline⟩ | ⟨z, hpadz, hz⟩
  · apply h.unbroken
    rw [hline]
    simp
  · cases z with
    | nil =>
        apply h.unbroken
        rw [← List.nil_append line, ← hz]
        simp
    | cons d z =>
        obtain ⟨rfl, -⟩ := List.cons.inj hz
        have hc := hpad ',' (by rw [hpadz]; exact List.mem_append_right _ List.mem_cons_self)
        exact absurd hc (by decide)

theorem splitDefinitions_line (hpad : ∀ c ∈ pad, isBlank c) (h : IsLine line) :
    splitDefinitions (pad ++ line) = [line.trim] := by
  rw [splitDefinitions, splitAtSeparators_eq_singleton (fun u v => not_separated hpad h u [] v)
    fun u v => not_separated hpad h u ['\r'] v, List.map_singleton, cleanFragment_eq hpad h,
    List.filter_cons, trim_ne_nil h]
  rfl

theorem dropReturn_trim (t : Text) : t.dropReturn.trim = t.trim := by
  rw [Text.dropReturn]
  split
  · next h =>
    obtain ⟨u, rfl⟩ := List.getLast?_eq_some_iff.mp h
    rw [List.dropLast_concat, trim_concat_blank (by decide)]
  · rfl

theorem IsLine.dropReturn (h : IsLine line) : IsLine line.dropReturn := by
  obtain ⟨c, rest, rfl, hblank, hdash⟩ := h.opens
  cases rest with
  | nil =>
      have hself : Text.dropReturn [c] = [c] := by
        rw [Text.dropReturn, if_neg]
        intro hc
        have hreturn : c = '\r' := Option.some.inj hc
        rw [hreturn] at hblank
        exact absurd hblank (by decide)
      rw [hself]
      exact h
  | cons d rest =>
      rw [dropReturn_cons]
      refine ⟨?_, c, _, rfl, hblank, hdash⟩
      intro hmem
      apply h.unbroken
      rcases List.mem_cons.mp hmem with rfl | hmem
      · exact List.mem_cons_self
      · rw [Text.dropReturn] at hmem
        split at hmem
        · exact List.mem_cons_of_mem _ ((List.dropLast_sublist _).subset hmem)
        · exact List.mem_cons_of_mem _ hmem

theorem IsLine.withoutComments_feed (h : IsLine line) :
    withoutComments (line ++ ['\n']) = line.dropReturn := by
  have hsplit : ∀ t : Text, '\n' ∉ t → Text.splitAtChar '\n' (t ++ ['\n']) = [t, []] := by
    intro t ht
    induction t with
    | nil => rfl
    | cons c t ih =>
        obtain ⟨part, parts, hparts, hcons⟩ :=
          splitAtChar_cons (t := t ++ ['\n']) (Ne.symm (List.ne_of_not_mem_cons ht))
        rw [ih (List.not_mem_of_not_mem_cons ht)] at hparts
        obtain ⟨rfl, rfl⟩ := List.cons.inj hparts
        exact hcons
  rw [withoutComments, Text.lines, hsplit line h.unbroken, closeLines_cons]
  simp [Text.closeLines, h.dropReturn.isCommentLine_eq, Text.unlines]

theorem cleanFragment_feed (hpad : ∀ c ∈ pad, isBlank c) (h : IsLine line) :
    cleanFragment (pad ++ (line ++ ['\n'])) = line.trim := by
  have hstart := trimStart_withoutComments_append (t := line ++ ['\n']) hpad
  rw [h.withoutComments_feed] at hstart
  exact (congrArg Text.trimEnd hstart).trans (dropReturn_trim line)

/-- The same for the last line of a body, which ends with a line break. -/
theorem splitDefinitions_lastLine (hpad : ∀ c ∈ pad, isBlank c) (h : IsLine line)
    (hlast : ∀ c ∈ line.getLast?, c ≠ ',' ∧ c ≠ '\r') :
    splitDefinitions (pad ++ (line ++ ['\n'])) = [line.trim] := by
  have hcomma : ∀ u v w : Text, (∀ c ∈ (',' :: v).getLast?, c = ',' ∨ c = '\r') →
      pad ++ (line ++ ['\n']) ≠ u ++ ',' :: (v ++ '\n' :: w) := by
    intro u v w hv ht
    rcases List.eq_nil_or_concat w with rfl | ⟨x, k, rfl⟩
    · have hline : pad ++ line = u ++ ',' :: v := by
        have hlists : (pad ++ line) ++ ['\n'] = (u ++ ',' :: v) ++ ['\n'] := by simpa using ht
        exact List.append_cancel_right hlists
      obtain ⟨c, rest, hcons, -⟩ := h.opens
      have hlastpad : (pad ++ line).getLast? = line.getLast? := by
        rw [List.getLast?_append, hcons, List.getLast?_cons]
        rfl
      rw [hline, List.getLast?_append] at hlastpad
      cases hc : (',' :: v).getLast? with
      | none => exact List.cons_ne_nil _ _ (List.getLast?_eq_none_iff.mp hc)
      | some c =>
          rw [hc] at hlastpad
          have hends := hlast c hlastpad.symm
          rcases hv c hc with rfl | rfl
          · exact hends.1 rfl
          · exact hends.2 rfl
    · have hk : pad ++ line = u ++ ',' :: (v ++ '\n' :: x) := by
        have hlists : (pad ++ line) ++ ['\n'] = (u ++ ',' :: (v ++ '\n' :: x)) ++ [k] := by
          simpa using ht
        exact (List.append_inj' hlists rfl).1
      exact not_separated hpad h u v x hk
  rw [splitDefinitions, splitAtSeparators_eq_singleton
    (fun u v => hcomma u [] v (by simp)) fun u v => hcomma u ['\r'] v (by simp),
    List.map_singleton, cleanFragment_feed hpad h, List.filter_cons, trim_ne_nil h]
  rfl

end SchemaDump
