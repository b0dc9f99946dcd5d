import SchemaDump.Proofs.Definition.CommentLine
import SchemaDump.Proofs.Definition.Layout
import SchemaDump.Proofs.Definition.QuotedNames
import SchemaDump.Proofs.Text.LineBreak
/- Names in quotes are kept when comment lines are left out of a fragment: one that is found in the rest opens
where one opens in the fragment, and what the two hold differs by comment lines only. -/
namespace SchemaDump
open SqlPattern Pattern

variable {t u v w y : Text} {quote : Char}

theorem isHollow_append (u v : Text) : isHollow (u ++ v) = (isHollow u && isHollow v) := List.all_append

theorem isVoid_of_not_mem (h : '\n' ∉ t) : isVoid t = (isHollow t || isCommentLine t) := by
  rw [isVoid, splitAtChar_of_not_mem h, List.all_cons, List.all_nil, Bool.and_true]

theorem isVoid_line (hu : '\n' ∉ u) (v : Text) :
    isVoid (u ++ '\n' :: v) = ((isHollow u || isCommentLine u) && isVoid v) := by
  rw [isVoid, splitAtChar_append, splitAtChar_of_not_mem hu, List.singleton_append, List.all_cons, isVoid]

theorem isVoid_of_isHollow (h : isHollow t) : isVoid t := by
  refine List.all_eq_true.mpr fun line hline => ?_
  have hall := List.all_eq_true.mp h
  rw [Bool.or_eq_true_iff]
  exact .inl (List.all_eq_true.mpr fun c hc => hall c (Text.mem_of_mem_splitAtChar hline hc))

/-- Whether a line goes on with nothing but a carriage return. -/
def UpToReturn (kept line : Text) : Prop := ∃ e, line = kept ++ e ∧ (e = [] ∨ e = ['\r'])

theorem upToReturn_self (line : Text) : UpToReturn line line := ⟨[], (List.append_nil line).symm, .inl rfl⟩

theorem upToReturn_dropReturn (line : Text) : UpToReturn line.dropReturn line := by
  rw [Text.dropReturn]
  split
  · next hlast =>
    obtain ⟨u, rfl⟩ := List.getLast?_eq_some_iff.mp hlast
    exact ⟨['\r'], by rw [List.dropLast_concat], .inr rfl⟩
  · exact upToReturn_self line

namespace UpToReturn

variable {kept line : Text}

theorem isHollow (h : UpToReturn kept line) (hkept : isHollow kept) : isHollow line := by
  obtain ⟨e, rfl, he⟩ := h
  rw [isHollow_append, hkept]
  rcases he with rfl | rfl <;> decide

theorem not_mem (h : UpToReturn kept line) {c : Char} (hline : c ∉ line) : c ∉ kept := by
  obtain ⟨e, rfl, -⟩ := h
  exact fun hc => hline (List.mem_append_left e hc)

theorem behind (h : UpToReturn kept line) {x : Text} (hkept : kept = x ++ quote :: y) :
    ∃ z, line = x ++ quote :: z ∧ UpToReturn y z := by
  obtain ⟨e, rfl, he⟩ := h
  exact ⟨y ++ e, by rw [hkept, List.append_assoc, List.cons_append], e, rfl, he⟩

/-- A character that is no carriage return is kept. -/
theorem exists_kept (h : UpToReturn kept line) {x : Text} (hquote : quote ≠ '\r') (hline : line = x ++ quote :: y) :
    ∃ z, kept = x ++ quote :: z := by
  obtain ⟨e, rfl, he⟩ := h
  rcases exists_append_of_length hline with ⟨z, -, rfl⟩ | ⟨c, z, hkept, hc⟩
  · rcases he with he | he
    · simp at he
    · cases z with
      | nil => exact absurd (List.cons.inj he).1 hquote
      | cons d z => simp at he
  · obtain ⟨rfl, -⟩ := List.cons.inj hc
    exact ⟨z, hkept⟩

end UpToReturn

theorem isCommentLine_append (h : isCommentLine u) (v : Text) : isCommentLine (u ++ v) := by
  obtain ⟨w, hw⟩ := isCommentLine_iff.mp h
  refine isCommentLine_iff.mpr ⟨w ++ v, ?_⟩
  rw [Text.trimStart] at hw ⊢
  rw [List.dropWhile_append, hw]
  rfl

theorem isCommentLine_of_dropReturn (h : isCommentLine t.dropReturn) : isCommentLine t := by
  obtain ⟨e, ht, -⟩ := upToReturn_dropReturn t
  rw [ht]
  exact isCommentLine_append h e

/-- A comment goes on up to a character that is neither blank nor one of its dashes. -/
theorem isCommentLine_of_append {d : Char} (hd : d ≠ '-') (hblank : isBlank d = false)
    (h : isCommentLine (u ++ d :: v)) : isCommentLine u := by
  refine isCommentLine_of_concat hd (t := u) ?_
  obtain ⟨w, hw⟩ := isCommentLine_iff.mp h
  rw [Text.trimStart, List.dropWhile_append, List.dropWhile_cons_of_neg (by simp [hblank])] at hw
  rw [isCommentLine_iff, Text.trimStart, List.dropWhile_append, List.dropWhile_cons_of_neg (by simp [hblank])]
  split at hw
  · exact absurd (List.cons.inj hw).1 hd
  · next hne =>
    rw [if_neg hne]
    cases hs : u.dropWhile isBlank with
    | nil => simp [hs] at hne
    | cons a rest =>
        rw [hs] at hw
        obtain ⟨rfl, hrest⟩ := List.cons.inj hw
        cases rest with
        | nil => exact absurd (List.cons.inj hrest).1 hd
        | cons b rest =>
            obtain ⟨rfl, -⟩ := List.cons.inj hrest
            exact ⟨_, rfl⟩

/-- The lines that are left of some lines without the comments. -/
def keptOf (lines : List Text) : List Text := (Text.closeLines lines).filter fun line => !isCommentLine line

/-- A line is left out as a comment, or because nothing stands behind the last line break, or it is kept. -/
theorem keptOf_cons (line : Text) (lines : List Text) :
    (keptOf (line :: lines) = keptOf lines ∧ (isCommentLine line ∨ lines = [])) ∨
      ∃ kept, UpToReturn kept line ∧ keptOf (line :: lines) = kept :: keptOf lines := by
  cases lines with
  | nil =>
      cases hempty : line.isEmpty with
      | true => exact .inl ⟨by simp [keptOf, Text.closeLines, hempty], .inr rfl⟩
      | false =>
          cases hcomment : isCommentLine line with
          | true => exact .inl ⟨by simp [keptOf, Text.closeLines, hempty, hcomment], .inl rfl⟩
          | false =>
              exact .inr ⟨line, upToReturn_self line, by simp [keptOf, Text.closeLines, hempty, hcomment]⟩
  | cons next lines =>
      rw [keptOf, closeLines_cons, List.filter_cons]
      cases hcomment : isCommentLine line.dropReturn with
      | true => exact .inl ⟨by simp [keptOf], .inl (isCommentLine_of_dropReturn hcomment)⟩
      | false => exact .inr ⟨_, upToReturn_dropReturn line, by simp [keptOf]⟩

theorem keptOf_nil : keptOf [] = [] := rfl

variable {lines : List Text} {line kept : Text}

theorem unlines_append_cons (u v : Text) (lines : List Text) :
    Text.unlines ((u ++ v) :: lines) = u ++ Text.unlines (v :: lines) := by
  cases lines with
  | nil => rfl
  | cons next lines => exact List.append_assoc u v _

/-- What is kept up to a quote that is not in the first line begins with this line. -/
theorem exists_behind_line {others : Text} (hquote : quote ≠ '\n') (hkept : ∀ z, kept ≠ u ++ quote :: z)
    (h : kept ++ '\n' :: others = u ++ quote :: v) : ∃ x, u = kept ++ '\n' :: x ∧ others = x ++ quote :: v := by
  rcases exists_append_of_length h with ⟨x, rfl, hx⟩ | ⟨c, x, hx, hc⟩
  · cases x with
    | nil => exact absurd (List.cons.inj hx).1 hquote.symm
    | cons c x =>
        obtain ⟨rfl, hothers⟩ := List.cons.inj hx
        exact ⟨x, rfl, hothers⟩
  · obtain ⟨rfl, -⟩ := List.cons.inj hc
    exact absurd hx (hkept x)

/-- Hollow text up to a quote in the lines that are kept ends at one in all lines, with comment lines added. -/
def Closed (quote : Char) (lines : List Text) : Prop :=
  ∀ w y, Text.unlines (keptOf lines) = w ++ quote :: y → isHollow w → quote ∉ w →
    ∃ x z, Text.unlines lines = x ++ quote :: z ∧ quote ∉ x ∧ isVoid x

/-- The same for what stands behind an opening quote in what is kept and in the whole text. -/
def ClosedIn (quote : Char) (kept whole : Text) : Prop :=
  ∀ w y, kept = w ++ quote :: y → isHollow w → quote ∉ w →
    ∃ x z, whole = x ++ quote :: z ∧ quote ∉ x ∧ (x = [] → w = []) ∧ ∀ s, isHollow s → '\n' ∉ s → isVoid (s ++ x)

/-- A quote ends no line and stands in no indentation. -/
structure IsMark (quote : Char) : Prop where
  ne_dash : quote ≠ '-'
  notBlank : isBlank quote = false

theorem IsMark.ne_of_isBlank (h : IsMark quote) {c : Char} (hc : isBlank c) : quote ≠ c := by
  rintro rfl
  rw [h.notBlank] at hc
  cases hc

/-- The step from some lines to one in front of them, which may follow other text. -/
theorem Closed.closedIn (h : Closed quote lines) (hquote : IsMark quote) (hkept : UpToReturn kept line)
    (hline : '\n' ∉ line) : ClosedIn quote (Text.unlines (kept :: keptOf lines)) (Text.unlines (line :: lines)) := by
  intro w y htext hw hmem
  by_cases hin : quote ∈ line
  · -- The quote stands in the line itself.
    obtain ⟨x, z, rfl, hx⟩ := List.eq_append_cons_of_mem hin
    obtain ⟨z', rfl⟩ := hkept.exists_kept (hquote.ne_of_isBlank (by decide)) rfl
    rw [unlines_append_cons, unlines_cons_cons] at htext
    obtain ⟨rfl, -⟩ := append_cons_inj hx hmem htext
    refine ⟨x, _, by rw [unlines_append_cons, unlines_cons_cons], hx, id, fun s hs _ => ?_⟩
    exact isVoid_of_isHollow (by rw [isHollow_append, hs, hw]; rfl)
  · -- It stands behind the line, in the others.
    have hnot := hkept.not_mem hin
    have hne : keptOf lines ≠ [] := by
      intro hnil
      rw [hnil, Text.unlines] at htext
      exact hnot (htext ▸ List.mem_append_right w List.mem_cons_self)
    have hlines : lines ≠ [] := fun hnil => hne (by rw [hnil, keptOf_nil])
    have hfeed : quote ≠ '\n' := hquote.ne_of_isBlank (by decide)
    rw [unlines_cons kept hne] at htext
    have hbehind : ∀ z, kept ≠ w ++ quote :: z := by
      rintro z rfl
      exact hnot (List.mem_append_right w List.mem_cons_self)
    obtain ⟨rest, rfl, hrest⟩ := exists_behind_line hfeed hbehind htext
    rw [isHollow_append, Bool.and_eq_true_iff] at hw
    obtain ⟨x, z, hx, hxmem, hvoid⟩ := h rest y hrest hw.2
      fun hc => hmem (List.mem_append_right _ (List.mem_cons_of_mem _ hc))
    refine ⟨line ++ '\n' :: x, z, ?_, ?_, fun hnil => absurd hnil (by simp), fun s hs hsfeed => ?_⟩
    · rw [unlines_cons line hlines, hx, List.append_assoc]
      rfl
    · simp only [List.mem_append, List.mem_cons, not_or]
      exact ⟨hin, hfeed, hxmem⟩
    · have hsfeed : '\n' ∉ s ++ line := fun hc => (List.mem_append.mp hc).elim hsfeed hline
      rw [← List.append_assoc, isVoid_line hsfeed, hvoid, isHollow_append, hs, hkept.isHollow hw.1]
      rfl

theorem closed (hquote : IsMark quote) (hlines : ∀ line ∈ lines, '\n' ∉ line) : Closed quote lines := by
  induction lines with
  | nil => exact fun w y h => absurd h (by simp [keptOf_nil, Text.unlines])
  | cons line lines ih =>
      obtain ⟨hline, hrest⟩ := List.forall_mem_cons.mp hlines
      have ih := ih hrest
      intro w y htext hw hmem
      rcases keptOf_cons line lines with ⟨hkept, hcomment⟩ | ⟨kept, hkept, hcons⟩
      · rw [hkept] at htext
        obtain ⟨x, z, hx, hxmem, hvoid⟩ := ih w y htext hw hmem
        have hne : lines ≠ [] := fun hnil => by rw [hnil] at hx; simp [Text.unlines] at hx
        have hcomment := hcomment.resolve_right hne
        rw [unlines_cons line hne, hx]
        by_cases hin : quote ∈ line
        · -- The comment that is left out holds a quote already.
          obtain ⟨a, b, rfl, ha⟩ := List.eq_append_cons_of_mem hin
          refine ⟨a, _, by rw [List.append_assoc]; rfl, ha, ?_⟩
          rw [isVoid_of_not_mem fun hc => hline (List.mem_append_left _ hc),
            isCommentLine_of_append hquote.ne_dash hquote.notBlank hcomment, Bool.or_true]
        · refine ⟨line ++ '\n' :: x, z, by rw [List.append_assoc]; rfl, ?_, ?_⟩
          · simp only [List.mem_append, List.mem_cons, not_or]
            exact ⟨hin, hquote.ne_of_isBlank (by decide), hxmem⟩
          · rw [isVoid_line hline, hcomment, hvoid, Bool.or_true]
            rfl
      · rw [hcons] at htext
        obtain ⟨x, z, hx, hxmem, -, hvoid⟩ := ih.closedIn hquote hkept hline w y htext hw hmem
        exact ⟨x, z, hx, hxmem, hvoid [] rfl List.not_mem_nil⟩

/-- A quote of the lines that are kept, between `u` and `v`, stands in the whole text behind the same part of its
line, which is the first line only if nothing is kept in front of it. -/
structure IsPlace (quote : Char) (u v whole x y start rest : Text) : Prop where
  kept : u = x ++ start
  whole : whole = y ++ (start ++ quote :: rest)
  oneLine : '\n' ∉ start
  closedIn : ClosedIn quote v rest
  lineStart : x = [] ∧ y = [] ∨ (x = [] ∨ ∃ z, x = z ++ ['\n']) ∧ ∃ z, y = z ++ ['\n']

namespace IsPlace

variable {whole x start rest : Text}

theorem ends_break (h : y = [] ∨ ∃ z, y = z ++ ['\n']) (front : Text) : ∃ z, front ++ '\n' :: y = z ++ ['\n'] := by
  rcases h with rfl | ⟨z, rfl⟩
  · exact ⟨front, rfl⟩
  · exact ⟨front ++ '\n' :: z, by rw [List.append_assoc]; rfl⟩

/-- A line in front that is left out. -/
theorem behind_comment (h : IsPlace quote u v whole x y start rest) (line : Text) :
    IsPlace quote u v (line ++ '\n' :: whole) x (line ++ '\n' :: y) start rest where
  kept := h.kept
  whole := by rw [h.whole, List.append_assoc, List.cons_append]
  oneLine := h.oneLine
  closedIn := h.closedIn
  lineStart := .inr ⟨h.lineStart.elim (fun h => .inl h.1) And.left, ends_break (h.lineStart.imp And.right And.right) line⟩

/-- A line in front that is kept. -/
theorem behind_line (h : IsPlace quote u v whole x y start rest) (kept line : Text) :
    IsPlace quote (kept ++ '\n' :: u) v (line ++ '\n' :: whole) (kept ++ '\n' :: x) (line ++ '\n' :: y) start rest where
  kept := by rw [h.kept, List.append_assoc, List.cons_append]
  whole := by rw [h.whole, List.append_assoc, List.cons_append]
  oneLine := h.oneLine
  closedIn := h.closedIn
  lineStart := .inr ⟨.inr (ends_break (h.lineStart.elim (fun h => .inl h.1) And.left) kept),
    ends_break (h.lineStart.imp And.right And.right) line⟩

end IsPlace

theorem exists_place (hquote : IsMark quote) (hlines : ∀ line ∈ lines, '\n' ∉ line)
    (h : Text.unlines (keptOf lines) = u ++ quote :: v) :
    ∃ x y start rest, IsPlace quote u v (Text.unlines lines) x y start rest := by
  induction lines generalizing u with
  | nil => exact absurd h (by simp [keptOf_nil, Text.unlines])
  | cons line lines ih =>
      obtain ⟨hline, hrest⟩ := List.forall_mem_cons.mp hlines
      have hothers : ∀ {u : Text}, Text.unlines (keptOf lines) = u ++ quote :: v → lines ≠ [] := by
        rintro u h rfl
        simp [keptOf_nil, Text.unlines] at h
      rcases keptOf_cons line lines with ⟨hkept, -⟩ | ⟨kept, hkept, hcons⟩
      · rw [hkept] at h
        obtain ⟨x, y, start, rest, hplace⟩ := ih hrest h
        rw [unlines_cons line (hothers h)]
        exact ⟨x, _, start, rest, hplace.behind_comment line⟩
      · rw [hcons] at h
        by_cases hin : ∃ z, kept = u ++ quote :: z
        · obtain ⟨z, rfl⟩ := hin
          obtain ⟨rest, rfl, hreturn⟩ := hkept.behind rfl
          have hstart : '\n' ∉ u := fun hc => hline (List.mem_append_left _ hc)
          have hend : '\n' ∉ rest := fun hc => hline (List.mem_append_right u (List.mem_cons_of_mem _ hc))
          have hclose := (closed hquote hrest).closedIn hquote hreturn hend
          rw [unlines_append_cons, unlines_cons_cons] at h
          rw [(List.cons.inj (List.append_cancel_left h)).2] at hclose
          exact ⟨[], [], u, _, rfl, by rw [unlines_append_cons, unlines_cons_cons]; rfl, hstart, hclose, .inl ⟨rfl, rfl⟩⟩
        · have hne : keptOf lines ≠ [] := fun hnil => hin ⟨v, by rw [hnil] at h; exact h⟩
          rw [unlines_cons kept hne] at h
          obtain ⟨x, rfl, hbehind⟩ := exists_behind_line (hquote.ne_of_isBlank (by decide)) (not_exists.mp hin) h
          obtain ⟨x, y, start, rest, hplace⟩ := ih hrest hbehind
          rw [unlines_cons line (hothers hbehind)]
          exact ⟨_, _, start, rest, hplace.behind_line kept line⟩

theorem unlines_splitAtChar (t : Text) : Text.unlines (t.splitAtChar '\n') = t := by
  induction t with
  | nil => rfl
  | cons c t ih =>
      by_cases hc : c = '\n'
      · subst hc
        rw [Text.splitAtChar, if_pos rfl, unlines_cons [] (splitAtChar_ne_nil _ t), ih]
        rfl
      · obtain ⟨part, parts, hparts, hcons⟩ := splitAtChar_cons (t := t) hc
        rw [hcons, unlines_cons_cons, ← hparts, ih]

theorem not_mem_of_mem_splitAtChar {d : Char} {t part : Text} (h : part ∈ t.splitAtChar d) : d ∉ part := by
  induction t generalizing part with
  | nil => rw [List.mem_singleton.mp h]; exact List.not_mem_nil
  | cons c t ih =>
      by_cases hc : c = d
      · rw [Text.splitAtChar, if_pos hc] at h
        rcases List.mem_cons.mp h with rfl | h
        · exact List.not_mem_nil
        · exact ih h
      · obtain ⟨first, parts, hparts, hcons⟩ := splitAtChar_cons (t := t) hc
        rw [hcons] at h
        rcases List.mem_cons.mp h with rfl | h
        · have hfirst := ih (hparts ▸ List.mem_cons_self)
          exact fun hd => (List.mem_cons.mp hd).elim (fun hd => hc hd.symm) hfirst
        · exact ih (hparts ▸ List.mem_cons_of_mem _ h)

/-- What stands behind a line break in front of a name is blank. -/
theorem NameFront.blank_of_break {front start : Text} (h : NameFront quote front) (hstart : '\n' ∉ start)
    (hfront : front = u ++ '\n' :: start) : ∀ c ∈ start, isBlank c := by
  cases h with
  | @word word written space hword hwritten _ hspace =>
      have hletters : ∀ c ∈ word.toList, c.isAlpha := by
        clear hwritten
        revert word
        decide
      rcases exists_append_of_length hfront with ⟨x, rfl, hx⟩ | ⟨c, x, rfl, hx⟩
      · exact fun c hc => hspace c (hx ▸ List.mem_append_right x (List.mem_cons_of_mem _ hc))
      · obtain ⟨rfl, -⟩ := List.cons.inj hx
        have hfeed := isWordChar_of_spells hletters hwritten '\n' (List.mem_append_right u List.mem_cons_self)
        exact absurd hfeed (by decide)
  | @line space hspace =>
      cases u with
      | nil => obtain ⟨-, rfl⟩ := List.cons.inj hfront; exact hspace
      | cons c u =>
          obtain ⟨-, rfl⟩ := List.cons.inj hfront
          exact fun c hc => hspace c (List.mem_append_right u (List.mem_cons_of_mem _ hc))
  | @parenthesis space _ hspace =>
      cases u with
      | nil => exact absurd (List.cons.inj hfront).1 (by decide)
      | cons c u =>
          obtain ⟨-, rfl⟩ := List.cons.inj hfront
          exact fun c hc => hspace c (List.mem_append_right u (List.mem_cons_of_mem _ hc))

theorem isVoid_unlines_concat (hquote : isHollow [quote]) (hfeed : quote ≠ '\n') (hlines : ∀ line ∈ lines, '\n' ∉ line)
    (h : isVoid (Text.unlines lines)) : isVoid (Text.unlines lines ++ [quote]) := by
  induction lines with
  | nil => exact isVoid_of_isHollow hquote
  | cons line lines ih =>
      obtain ⟨hline, hrest⟩ := List.forall_mem_cons.mp hlines
      by_cases hne : lines = []
      · subst hne
        have hconcat : '\n' ∉ line ++ [quote] := by simp [hline, hfeed.symm]
        rw [Text.unlines] at h ⊢
        rw [isVoid_of_not_mem hline, Bool.or_eq_true_iff] at h
        rw [isVoid_of_not_mem hconcat, Bool.or_eq_true_iff]
        exact h.imp (fun h => by rw [isHollow_append, h, hquote]; rfl) fun h => isCommentLine_append h _
      · rw [unlines_cons line hne, isVoid_line hline, Bool.and_eq_true_iff] at h
        rw [unlines_cons line hne, List.append_assoc, List.cons_append, isVoid_line hline, h.1, ih hrest h.2]
        rfl

/-- A quote at the end of the last line changes nothing. -/
theorem isVoid_concat (hquote : isHollow [quote]) (hfeed : quote ≠ '\n') (h : isVoid t) : isVoid (t ++ [quote]) := by
  have hlines : ∀ line ∈ t.splitAtChar '\n', '\n' ∉ line := fun _ hline => not_mem_of_mem_splitAtChar hline
  have hvoid := isVoid_unlines_concat hquote hfeed hlines (by rwa [unlines_splitAtChar])
  rwa [unlines_splitAtChar] at hvoid

/-- Wherever a name may stand in what is kept, one may stand in the whole text behind its opening. -/
theorem IsPlace.exists_front {whole x start rest : Text} {opening : Char} (hopening : opening = '(' ∨ opening = '\n')
    (h : IsPlace quote u v whole x y start rest)
    (hfront : (∃ a front, u = a ++ front ∧ NameFront quote front) ∨ quote = backQuote ∧ ∀ c ∈ u, isBlank c) :
    ∃ p front, opening :: (y ++ start) = p ++ front ∧ NameFront quote front := by
  have hbreak : (∃ z, y = z ++ ['\n']) → (∀ c ∈ start, isBlank c) →
      ∃ p front, opening :: (y ++ start) = p ++ front ∧ NameFront quote front := by
    rintro ⟨z, rfl⟩ hblank
    exact ⟨opening :: z, '\n' :: start, by simp, .line hblank⟩
  rcases hfront with ⟨a, front, hu, hfront⟩ | ⟨hback, hblank⟩
  · rcases exists_append_of_length (h.kept.symm.trans hu) with ⟨s, rfl, rfl⟩ | ⟨c, s, rfl, rfl⟩
    · exact ⟨opening :: (y ++ s), front, by simp, hfront⟩
    · -- The front begins in an earlier line, so it ends with the break in front of this one and blanks.
      obtain ⟨hends, hy⟩ := h.lineStart.resolve_left fun h => by simp at h
      obtain ⟨e, he⟩ := hends.resolve_left (by simp)
      obtain ⟨s', d, hs⟩ := (List.eq_nil_or_concat (c :: s)).resolve_left (List.cons_ne_nil c s)
      rw [List.concat_eq_append] at hs
      rw [hs, ← List.append_assoc] at he
      obtain ⟨-, hd⟩ := List.append_inj' he rfl
      obtain rfl : d = '\n' := (List.cons.inj hd).1
      refine hbreak hy (hfront.blank_of_break h.oneLine (u := s') ?_)
      rw [← List.cons_append, hs, List.append_assoc]
      rfl
  · have hstart : ∀ c ∈ start, isBlank c := fun c hc => hblank c (h.kept ▸ List.mem_append_right x hc)
    rcases h.lineStart with ⟨-, rfl⟩ | ⟨-, hy⟩
    · refine ⟨[], opening :: start, rfl, ?_⟩
      rcases hopening with rfl | rfl
      · exact .parenthesis hback hstart
      · exact .line hstart
    · exact hbreak hy hstart

theorem InQuotes.isMark {name : Text} (h : InQuotes quote name) : IsMark quote := by
  rcases h.isQuote with rfl | rfl <;> exact ⟨by decide, by decide⟩

/-- A name of quotes and blanks that is found without the comment lines is one in the text itself, up to comment
lines in it, if the text stands behind a line break or a parenthesis. -/
theorem exists_void_name {name : Text} {opening : Char} (hopening : opening = '(' ∨ opening = '\n')
    (hname : InQuotes quote name) (hhollow : isHollow name) (htext : withoutComments t = u ++ (name ++ v))
    (hfront : (∃ x front, u = x ++ front ∧ NameFront quote front) ∨ quote = backQuote ∧ ∀ c ∈ u, isBlank c) :
    ∃ whole ∈ quotedNames (opening :: t), isVoid whole := by
  have hmark := hname.isMark
  obtain ⟨inner, hne, hinner, rfl⟩ := hname.enclosed
  have hkept : Text.unlines (keptOf (t.splitAtChar '\n')) = u ++ quote :: (inner ++ quote :: v) := by
    refine Eq.trans rfl (htext.trans ?_)
    simp only [List.cons_append, List.append_assoc, List.nil_append]
  obtain ⟨x, y, start, rest, hplace⟩ := exists_place hmark (fun _ hline => not_mem_of_mem_splitAtChar hline) hkept
  rw [unlines_splitAtChar] at hplace
  simp only [isHollow, List.all_cons, List.all_append, Bool.and_eq_true_iff] at hhollow
  have hquote : isHollow [quote] := by simpa [isHollow] using hhollow.1
  have hfeed : quote ≠ '\n' := hmark.ne_of_isBlank (by decide)
  obtain ⟨w, z, rfl, hw, hempty, hvoid⟩ := hplace.closedIn inner v rfl hhollow.2.1 hinner
  have hquotes : InQuotes quote (quote :: (w ++ [quote])) :=
    ⟨hname.isQuote, w, fun hnil => hne (hempty hnil), hw, rfl⟩
  have hsame : isVoid (quote :: (w ++ [quote])) :=
    isVoid_concat hquote hfeed (hvoid [quote] hquote (by simpa using hfeed.symm))
  obtain ⟨p, front, hp, hfront⟩ := hplace.exists_front hopening hfront
  have hmem := hquotes.mem_quotedNames hfront p z
  refine ⟨_, ?_, hsame⟩
  rw [hplace.whole]
  rw [← List.append_assoc p, ← hp] at hmem
  simpa using hmem

/-- Whether a text holds no name in quotes that consists of quotes, blanks and comment lines. -/
def Named (t : Text) : Prop := ∀ name ∈ quotedNames t, isVoid name = false

theorem Named.within (h : Named u) (ht : t <:+: u) : Named t := fun name hname => h name (mem_quotedNames_of_isInfix ht hname)

theorem Named.solid (h : Named t) : Solid t := by
  intro name hname
  rw [← Bool.not_eq_true]
  intro hhollow
  have hvoid := h name hname
  rw [isVoid_of_isHollow hhollow] at hvoid
  cases hvoid

variable {opening : Char} {name : Text}

/-- What is left of a fragment without its comment lines has a name wherever it has quotes. -/
theorem Named.solid_cleanFragment (h : Named (opening :: t)) (hopening : opening = '(' ∨ opening = '\n') :
    Solid (cleanFragment t) := by
  intro name hname
  rw [← Bool.not_eq_true]
  intro hhollow
  obtain ⟨quote, x, front, y, hquotes, hfront, htext⟩ := exists_of_mem_quotedNames hname
  obtain ⟨a, b, hab, -⟩ := exists_trim (withoutComments t)
  have hclean : (withoutComments t).trim = x ++ (front ++ (name ++ y)) := htext
  obtain ⟨whole, hwhole, hvoid⟩ := exists_void_name (u := a ++ (x ++ front)) (v := y ++ b) hopening hquotes hhollow
    (by rw [hab, hclean]; simp only [List.append_assoc]) (.inl ⟨a ++ x, front, (List.append_assoc a x front).symm, hfront⟩)
  rw [h whole hwhole] at hvoid
  cases hvoid

theorem Named.not_hollow_start (h : Named (opening :: t)) (hopening : opening = '(' ∨ opening = '\n')
    (hname : InQuotes backQuote name) (htext : cleanFragment t = name ++ v) : isHollow name = false := by
  rw [← Bool.not_eq_true]
  intro hhollow
  obtain ⟨a, b, hab, hblank⟩ := exists_trim (withoutComments t)
  have hclean : (withoutComments t).trim = name ++ v := htext
  obtain ⟨whole, hwhole, hvoid⟩ := exists_void_name (u := a) (v := v ++ b) hopening hname hhollow
    (by rw [hab, hclean]; simp only [List.append_assoc]) (.inr ⟨rfl, hblank⟩)
  rw [h whole hwhole] at hvoid
  cases hvoid

/-- The first part of a text opens it, and each further one stands behind a line break. -/
def PartsWithin (parts : List Text) (t : Text) : Prop :=
  (∀ part ∈ parts.head?, part <+: t) ∧ ∀ part ∈ parts.tail, '\n' :: part <:+: t

theorem PartsWithin.behind_break {parts : List Text} (h : PartsWithin parts t) (ht : '\n' :: t <:+ u) :
    ∀ part ∈ parts, '\n' :: part <:+: u := by
  intro part hpart
  obtain ⟨hfirst, hrest⟩ := h
  cases parts with
  | nil => cases hpart
  | cons first parts =>
      rcases List.mem_cons.mp hpart with rfl | hpart
      · exact (List.cons_prefix_cons.mpr ⟨rfl, hfirst part rfl⟩).isInfix.trans ht.isInfix
      · exact (hrest part hpart).trans ((List.suffix_cons '\n' t).trans ht).isInfix

theorem partsWithin_splitAtSeparators (t : Text) : PartsWithin (splitAtSeparators t) t := by
  fun_induction splitAtSeparators t with
  | case1 => exact ⟨by simp, by simp⟩
  | case2 rest ih => exact ⟨by simp, ih.behind_break (List.suffix_cons ',' _)⟩
  | case3 rest ih => exact ⟨by simp, ih.behind_break ((List.suffix_cons '\r' _).trans (List.suffix_cons ',' _))⟩
  | case4 c rest _ _ hsplit _ => exact absurd hsplit (splitAtSeparators_ne_nil rest)
  | case5 c rest _ _ part parts hsplit ih =>
      rw [hsplit] at ih
      refine ⟨fun p hp => ?_, fun p hp => (ih.2 p hp).trans (List.suffix_cons c rest).isInfix⟩
      obtain rfl := Option.some.inj hp
      exact List.cons_prefix_cons.mpr ⟨rfl, ih.1 part rfl⟩

/-- A fragment of a body stands behind the parenthesis that opens the body or behind a line break. -/
theorem exists_opening_of_mem_splitAtSeparators {body piece : Text} (h : piece ∈ splitAtSeparators body) :
    ∃ opening, (opening = '(' ∨ opening = '\n') ∧ opening :: piece <:+: '(' :: body := by
  obtain ⟨first, parts, hsplit⟩ := List.exists_cons_of_ne_nil (splitAtSeparators_ne_nil body)
  obtain ⟨hfirst, hrest⟩ := partsWithin_splitAtSeparators body
  rw [hsplit] at h hfirst hrest
  rcases List.mem_cons.mp h with rfl | h
  · exact ⟨'(', .inl rfl, (List.cons_prefix_cons.mpr ⟨rfl, hfirst piece rfl⟩).isInfix⟩
  · exact ⟨'\n', .inr rfl, (hrest piece h).trans (List.suffix_cons '(' body).isInfix⟩

end SchemaDump
