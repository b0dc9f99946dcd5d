import Mathlib.Data.List.Induction
import Mathlib.Data.List.TakeWhile
import SchemaDump.Proofs.Definition.Split
import SchemaDump.Proofs.Pattern.Rules
/- Lines that hold nothing but a comment. They add no definition to a body and take none from it, wherever
they stand between definitions. -/
namespace SchemaDump

variable {line t u v : Text}

theorem lines_append (hu : '\n' ∉ u) (v : Text) :
    Text.lines (u ++ '\n' :: v) = u.dropReturn :: Text.lines v := by
  obtain ⟨part, parts, hparts⟩ := List.exists_cons_of_ne_nil (splitAtChar_ne_nil '\n' v)
  rw [Text.lines, splitAtChar_append, splitAtChar_of_not_mem hu, hparts, Text.lines, hparts]
  exact closeLines_cons _ _ _

theorem unlines_cons (line : Text) {lines : List Text} (hne : lines ≠ []) :
    Text.unlines (line :: lines) = line ++ '\n' :: Text.unlines lines := by
  obtain ⟨next, rest, rfl⟩ := List.exists_cons_of_ne_nil hne
  rfl

theorem trim_append_blanks (t : Text) (hv : ∀ c ∈ v, isBlank c) : Text.trim (t ++ v) = t.trim := by
  induction v using List.reverseRecOn with
  | nil => rw [List.append_nil]
  | append_singleton v c ih =>
      rw [← List.append_assoc, trim_concat_blank (hv c (by simp))]
      exact ih fun d hd => hv d (List.mem_append_left _ hd)

theorem isBlank_of_trim_eq_nil (h : t.trim = []) : ∀ c ∈ t, isBlank c := by
  have hend := List.dropWhile_eq_nil_iff.mp (List.reverse_eq_nil_iff.mp h)
  apply List.dropWhile_eq_nil_iff.mp
  cases hs : t.dropWhile isBlank with
  | nil => rfl
  | cons c rest =>
      have hc := List.head?_dropWhile_not isBlank t
      rw [hs] at hc
      have hblank := hend c (by simp [Text.trimStart, hs])
      rw [show isBlank c = false from hc] at hblank
      cases hblank

theorem splitDefinitions_cons_blank {c : Char} (hc : isBlank c) (t : Text) :
    splitDefinitions (c :: t) = splitDefinitions t := by
  have hcomma : c ≠ ',' := fun h => absurd (h ▸ hc) (by decide)
  obtain ⟨part, parts, hparts, hcons⟩ := splitAtSeparators_cons (c := c) (t := t)
    (fun h => absurd h hcomma) fun h => absurd h hcomma
  have hclean : cleanFragment (c :: part) = cleanFragment part :=
    congrArg Text.trimEnd (trimStart_withoutComments_cons hc)
  rw [splitDefinitions, splitDefinitions, hparts, hcons, List.map_cons, List.map_cons, hclean]

theorem splitDefinitions_append_blanks (hu : ∀ c ∈ u, isBlank c) (t : Text) :
    splitDefinitions (u ++ t) = splitDefinitions t := by
  induction u with
  | nil => rfl
  | cons c u ih =>
      rw [List.cons_append, splitDefinitions_cons_blank (hu c List.mem_cons_self)]
      exact ih fun d hd => hu d (List.mem_cons_of_mem c hd)

theorem splitDefinitions_blanks (hu : ∀ c ∈ u, isBlank c) : splitDefinitions u = [] := by
  have h := splitDefinitions_append_blanks hu []
  rw [List.append_nil] at h
  rw [h]
  decide

theorem isCommentLine_iff : isCommentLine t ↔ ∃ w, t.trimStart = '-' :: '-' :: w := by
  rw [isCommentLine, List.isPrefixOf_iff_prefix]
  exact exists_congr fun w => eq_comm

/-- A comment that is cut off at its end is still one. -/
theorem isCommentLine_of_concat {d : Char} (hd : d ≠ '-') (h : isCommentLine (t ++ [d])) :
    isCommentLine t := by
  obtain ⟨w, hw⟩ := isCommentLine_iff.mp h
  apply isCommentLine_iff.mpr
  rw [Text.trimStart, List.dropWhile_append] at hw
  split at hw
  · cases hblank : isBlank d with
    | true => rw [List.dropWhile_cons_of_pos hblank] at hw; cases hw
    | false =>
        rw [List.dropWhile_cons_of_neg (by simp [hblank])] at hw
        exact absurd (List.cons.inj hw).1 hd
  · cases hs : t.trimStart with
    | nil => rw [show t.dropWhile isBlank = [] from hs] at hw; exact absurd (List.cons.inj hw).1 hd
    | cons a rest =>
        rw [show t.dropWhile isBlank = _ from hs] at hw
        obtain ⟨rfl, hrest⟩ := List.cons.inj hw
        cases rest with
        | nil => exact absurd (List.cons.inj hrest).1 hd
        | cons b rest =>
            obtain ⟨rfl, -⟩ := List.cons.inj hrest
            exact ⟨rest, rfl⟩

theorem isCommentLine_dropReturn (h : isCommentLine t) : isCommentLine t.dropReturn := by
  rw [Text.dropReturn]
  split
  · next hlast =>
    obtain ⟨u, rfl⟩ := List.getLast?_eq_some_iff.mp hlast
    rw [List.dropLast_concat]
    exact isCommentLine_of_concat (by decide) h
  · exact h

theorem cleanFragment_comment (hu : '\n' ∉ u) (h : isCommentLine u) (t : Text) :
    cleanFragment (u ++ '\n' :: t) = cleanFragment t := by
  rw [cleanFragment, cleanFragment, lines_append hu, List.filter_cons, isCommentLine_dropReturn h]
  rfl

theorem splitDefinitions_of_comment (hu : '\n' ∉ u) (h : isCommentLine u) :
    splitDefinitions u = [] := by
  have hsplit : splitAtSeparators u = [u] := splitAtSeparators_eq_singleton
    (fun x y hxy => hu (by rw [hxy]; simp)) fun x y hxy => hu (by rw [hxy]; simp)
  have hclean : cleanFragment u = [] := by
    rw [cleanFragment, Text.lines, splitAtChar_of_not_mem hu, Text.closeLines]
    split
    · rfl
    · rw [List.filter_cons, h]
      rfl
  rw [splitDefinitions, hsplit, List.map_singleton, hclean]
  rfl

/-- A text without line breaks belongs to the first part of what stands behind it, as long as no
separator crosses the seam. -/
theorem splitAtSeparators_behind {part : Text} {parts : List Text} (hv : splitAtSeparators v = part :: parts)
    (hseam : ∀ x y w, u = x ++ ',' :: y → y ++ v ≠ '\n' :: w ∧ y ++ v ≠ '\r' :: '\n' :: w) :
    splitAtSeparators (u ++ v) = (u ++ part) :: parts := by
  induction u with
  | nil => exact hv
  | cons c u ih =>
      have hrest := ih fun x y w hu => hseam (c :: x) y w (by rw [hu, List.cons_append])
      obtain ⟨part', parts', hparts, hcons⟩ := splitAtSeparators_cons (c := c) (t := u ++ v)
        (fun hc w => (hseam [] u w (by rw [hc]; rfl)).1) fun hc w => (hseam [] u w (by rw [hc]; rfl)).2
      rw [hrest] at hparts
      obtain ⟨rfl, rfl⟩ := List.cons.inj hparts
      exact hcons

/-- A line that does not end with a comma is not separated from the next one. -/
theorem splitAtSeparators_line {part : Text} {parts : List Text} (hu : '\n' ∉ u)
    (hend : ∀ w, ∀ s ∈ separators, u ++ ['\n'] ≠ w ++ s) (hv : splitAtSeparators v = part :: parts) :
    splitAtSeparators (u ++ '\n' :: v) = (u ++ '\n' :: part) :: parts := by
  have hfeed : splitAtSeparators ('\n' :: v) = ('\n' :: part) :: parts := by
    obtain ⟨part', parts', hparts, hcons⟩ := splitAtSeparators_cons (c := '\n') (t := v)
      (fun h => absurd h (by decide)) fun h => absurd h (by decide)
    rw [hv] at hparts
    obtain ⟨rfl, rfl⟩ := List.cons.inj hparts
    exact hcons
  refine splitAtSeparators_behind hfeed fun x y w hxy => ⟨fun hy => ?_, fun hy => ?_⟩
  · cases y with
    | nil => exact hend x [',', '\n'] (by decide) (by rw [hxy]; simp)
    | cons c y =>
        obtain ⟨rfl, -⟩ := List.cons.inj hy
        exact hu (by rw [hxy]; simp)
  · cases y with
    | nil => exact absurd (List.cons.inj hy).1 (by decide)
    | cons c y =>
        obtain ⟨rfl, hrest⟩ := List.cons.inj hy
        cases y with
        | nil => exact hend x [',', '\r', '\n'] (by decide) (by rw [hxy]; simp)
        | cons d y =>
            obtain ⟨rfl, -⟩ := List.cons.inj hrest
            exact hu (by rw [hxy]; simp)

/-- A comment line contributes no definition and leaves those behind it alone, even where it ends with a
comma. -/
theorem splitDefinitions_comment (hu : '\n' ∉ u) (h : isCommentLine u) (t : Text) :
    splitDefinitions (u ++ '\n' :: t) = splitDefinitions t := by
  by_cases hsep : ∃ w, ∃ s ∈ separators, u ++ ['\n'] = w ++ s
  · obtain ⟨w, s, hs, huw⟩ := hsep
    obtain ⟨e, hse, he⟩ : ∃ e, s = e ++ ['\n'] ∧ (e = [','] ∨ e = [','] ++ ['\r']) := by
      rcases List.mem_cons.mp hs with rfl | hs
      · exact ⟨[','], rfl, .inl rfl⟩
      · exact ⟨[',', '\r'], List.mem_singleton.mp hs, .inr rfl⟩
    have hue : u = w ++ e := by
      rw [hse, ← List.append_assoc] at huw
      exact List.append_cancel_right huw
    have hcomment : isCommentLine w := by
      rcases he with rfl | rfl
      · exact isCommentLine_of_concat (by decide) (hue ▸ h)
      · rw [← List.append_assoc] at hue
        exact isCommentLine_of_concat (by decide) (isCommentLine_of_concat (by decide) (hue ▸ h))
    have hw : '\n' ∉ w := fun hmem => hu (by rw [hue]; exact List.mem_append_left _ hmem)
    have hsplit : u ++ '\n' :: t = w ++ (s ++ t) := by rw [hse, hue]; simp
    rw [hsplit, splitDefinitions_separator hs, splitDefinitions_of_comment hw hcomment, List.nil_append]
  · obtain ⟨part, parts, hparts⟩ := List.exists_cons_of_ne_nil (splitAtSeparators_ne_nil t)
    have hline := splitAtSeparators_line hu (fun w s hs huw => hsep ⟨w, s, hs, huw⟩) hparts
    rw [splitDefinitions, hline, splitDefinitions, hparts, List.map_cons, List.map_cons,
      cleanFragment_comment hu h]

theorem dropReturn_eq_self (h : line.getLast? ≠ some '\r') : line.dropReturn = line := by
  rw [Text.dropReturn, if_neg h]

theorem EndsSolid.dropReturn_eq (h : EndsSolid line) : line.dropReturn = line :=
  dropReturn_eq_self fun hreturn => absurd (h _ hreturn).1 (by decide)

/-- A line that ends with no comma does not end with a separator. -/
theorem not_separated_of_last (h : ∀ c ∈ line.getLast?, c ≠ ',' ∧ c ≠ '\r') (w : Text) {s : Text}
    (hs : s ∈ separators) : line ++ ['\n'] ≠ w ++ s := by
  intro hline
  have hlast : ∃ e c, s = (e ++ [c]) ++ ['\n'] ∧ (c = ',' ∨ c = '\r') := by
    rcases List.mem_cons.mp hs with rfl | hs
    · exact ⟨[], ',', rfl, .inl rfl⟩
    · exact ⟨[','], '\r', List.mem_singleton.mp hs, .inr rfl⟩
  obtain ⟨e, c, rfl, hc⟩ := hlast
  rw [← List.append_assoc] at hline
  have hends := h c (by rw [List.append_cancel_right hline, ← List.append_assoc]; simp)
  exact hc.elim hends.1 hends.2

theorem EndsSolid.not_separated (h : EndsSolid line) (w : Text) {s : Text} (hs : s ∈ separators) :
    line ++ ['\n'] ≠ w ++ s := by
  refine not_separated_of_last (fun c hc => ⟨(h c hc).2, ?_⟩) w hs
  rintro rfl
  exact absurd (h _ hc).1 (by decide)

theorem clean_of_splitDefinitions_nil {part : Text} {parts : List Text}
    (hparts : splitAtSeparators v = part :: parts) (hv : splitDefinitions v = []) :
    cleanFragment part = [] ∧
      (parts.map cleanFragment).filter (fun fragment => !fragment.isEmpty) = [] := by
  rw [splitDefinitions, hparts, List.map_cons, List.filter_cons] at hv
  split at hv
  · cases hv
  · next hempty => exact ⟨by simpa using hempty, hv⟩

/-- A line is a definition by itself if nothing behind it is one. -/
theorem splitDefinitions_line_of_nil (h : IsLine line) (hsolid : EndsSolid line)
    (hv : splitDefinitions v = []) : splitDefinitions (line ++ '\n' :: v) = [line.trim] := by
  obtain ⟨part, parts, hparts⟩ := List.exists_cons_of_ne_nil (splitAtSeparators_ne_nil v)
  have hclean := clean_of_splitDefinitions_nil hparts hv
  have hblank := isBlank_of_trim_eq_nil (show Text.trim (withoutComments part) = [] from hclean.1)
  have hline : cleanFragment (line ++ '\n' :: part) = line.trim := by
    rw [cleanFragment, lines_append h.unbroken, hsolid.dropReturn_eq, List.filter_cons, h.isCommentLine_eq]
    by_cases hne : (part.lines.filter fun line => !isCommentLine line) = []
    · rw [hne]
      rfl
    · rw [Bool.not_false, if_pos rfl, unlines_cons _ hne]
      refine trim_append_blanks line fun c hc => ?_
      rcases List.mem_cons.mp hc with rfl | hc
      · decide
      · exact hblank c hc
  rw [splitDefinitions, splitAtSeparators_line h.unbroken (fun w _ => hsolid.not_separated w) hparts,
    List.map_cons, hline, List.filter_cons, trim_ne_nil h, hclean.2]
  rfl

/-- A comment on a line of its own. -/
structure Comment where
  indent : Text
  blank : ∀ c ∈ indent, isBlank c ∧ c ≠ '\n'
  text : Text
  unbroken : '\n' ∉ text

namespace Comment

def lineText (c : Comment) : Text := c.indent ++ '-' :: '-' :: c.text

def lines (comments : List Comment) : Text := comments.flatMap fun c => '\n' :: c.lineText

theorem not_mem_lineText (c : Comment) : '\n' ∉ c.lineText := by
  intro h
  rcases List.mem_append.mp h with h | h
  · exact (c.blank _ h).2 rfl
  · simp only [List.mem_cons] at h
    rcases h with h | h | h
    · exact absurd h (by decide)
    · exact absurd h (by decide)
    · exact c.unbroken h

theorem isCommentLine_lineText (c : Comment) : isCommentLine c.lineText :=
  isCommentLine_iff.mpr ⟨c.text, Pattern.dropWhile_append_of_stops (fun d hd => (c.blank d hd).1)
    (Pattern.stops_cons.mpr (by decide))⟩

theorem splitDefinitions_lines (comments : List Comment) (t : Text) :
    splitDefinitions (lines comments ++ '\n' :: t) = splitDefinitions t := by
  induction comments with
  | nil => exact splitDefinitions_cons_blank (by decide) t
  | cons c comments ih =>
      obtain ⟨rest, hrest⟩ : ∃ rest, lines comments ++ '\n' :: t = '\n' :: rest := by
        cases comments with
        | nil => exact ⟨t, rfl⟩
        | cons d comments => exact ⟨_, rfl⟩
      have hlines : lines (c :: comments) ++ '\n' :: t = '\n' :: (c.lineText ++ '\n' :: rest) := by
        rw [← hrest, lines, List.flatMap_cons, List.append_assoc]
        rfl
      rw [hlines, splitDefinitions_cons_blank (by decide),
        splitDefinitions_comment c.not_mem_lineText c.isCommentLine_lineText, ← ih, hrest,
        splitDefinitions_cons_blank (by decide)]

end Comment

end SchemaDump
