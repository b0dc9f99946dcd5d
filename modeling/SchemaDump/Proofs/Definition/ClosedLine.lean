import SchemaDump.Proofs.Definition.CommentLine
/- Lines that a closing parenthesis follows. A separator behind the parenthesis ends the definition that the
line belongs to, and what stands behind this separator is split for itself. -/
namespace SchemaDump

variable {line pad u v : Text}

/-- The definitions behind the first separator of a text. -/
def laterDefinitions (t : Text) : List Text :=
  ((splitAtSeparators t).tail.map cleanFragment).filter fun fragment => !fragment.isEmpty

theorem splitAtSeparators_no_comma {part : Text} {parts : List Text} (hu : ',' ∉ u)
    (hv : splitAtSeparators v = part :: parts) : splitAtSeparators (u ++ v) = (u ++ part) :: parts :=
  splitAtSeparators_behind hv fun x _ _ hxy => absurd (hxy ▸ List.mem_append_right x List.mem_cons_self) hu

theorem laterDefinitions_behind (hu : ',' ∉ u) (v : Text) :
    laterDefinitions (u ++ v) = laterDefinitions v := by
  obtain ⟨part, parts, hv⟩ := List.exists_cons_of_ne_nil (splitAtSeparators_ne_nil v)
  rw [laterDefinitions, splitAtSeparators_no_comma hu hv, laterDefinitions, hv]
  rfl

theorem laterDefinitions_line (h : IsLine line) (hsolid : EndsSolid line) (v : Text) :
    laterDefinitions (line ++ '\n' :: v) = laterDefinitions v := by
  obtain ⟨part, parts, hv⟩ := List.exists_cons_of_ne_nil (splitAtSeparators_ne_nil v)
  rw [laterDefinitions, splitAtSeparators_line h.unbroken (fun w _ => hsolid.not_separated w) hv,
    laterDefinitions, hv]
  rfl

theorem laterDefinitions_separated (h : IsLine line) (v : Text) :
    laterDefinitions (line ++ ',' :: '\n' :: v) = splitDefinitions v := by
  have hsplit : splitAtSeparators line = [line] := splitAtSeparators_eq_singleton
    (fun x y hxy => h.unbroken (by rw [hxy]; simp)) fun x y hxy => h.unbroken (by rw [hxy]; simp)
  have hseparator := splitAtSeparators_separator (s := [',', '\n']) List.mem_cons_self line v
  rw [laterDefinitions, show line ++ ',' :: '\n' :: v = line ++ ([',', '\n'] ++ v) from rfl, hseparator,
    hsplit]
  rfl

theorem exists_lines_cons {c : Char} (hc : c ≠ '\n' ∧ c ≠ '\r') (t : Text) :
    ∃ line rest, Text.lines (c :: t) = (c :: line) :: rest := by
  obtain ⟨part, parts, hparts, hcons⟩ := splitAtChar_cons (t := t) hc.1
  rw [Text.lines, hcons]
  cases parts with
  | nil => exact ⟨part, [], rfl⟩
  | cons next parts =>
      rw [closeLines_cons]
      cases part with
      | nil =>
          have hdrop : Text.dropReturn [c] = [c] := by
            rw [Text.dropReturn, if_neg]
            exact fun h => hc.2 (Option.some.inj h)
          exact ⟨[], _, congrArg (· :: _) hdrop⟩
      | cons d part => exact ⟨_, _, congrArg (· :: _) (dropReturn_cons part)⟩

theorem exists_cleanFragment_eq (hpad : ∀ c ∈ pad, isBlank c) (h : IsLine line) (hsolid : EndsSolid line)
    (t : Text) : ∃ k, cleanFragment (pad ++ (line ++ '\n' :: ')' :: t)) = line ++ '\n' :: ')' :: k := by
  obtain ⟨c, first, hfirst, hblank, -⟩ := h.opens
  obtain ⟨next, rest, hlines⟩ := exists_lines_cons (c := ')') (by decide) t
  have hnext : isCommentLine (')' :: next) = false := rfl
  obtain ⟨k, hk⟩ : ∃ k, withoutComments (line ++ '\n' :: ')' :: t) = (line ++ ['\n', ')']) ++ k := by
    refine ⟨Text.unlines (next :: rest.filter fun line => !isCommentLine line), ?_⟩
    rw [withoutComments, lines_append h.unbroken, hlines, hsolid.dropReturn_eq, List.filter_cons, h.isCommentLine_eq,
      List.filter_cons, hnext, Bool.not_false, if_pos rfl, if_pos rfl,
      unlines_cons _ (List.cons_ne_nil _ _), unlines_cons_cons]
    simp
  have htrimmed : Trimmed (line ++ ['\n', ')']) := by
    refine ⟨fun d hd => ?_, fun d hd => ?_⟩
    · rw [hfirst] at hd
      exact Option.some.inj hd ▸ hblank
    · rw [show line ++ ['\n', ')'] = (line ++ ['\n']) ++ [')'] by simp, List.getLast?_concat] at hd
      exact Option.some.inj hd ▸ by decide
  have hstart := trimStart_withoutComments_append (t := line ++ '\n' :: ')' :: t) hpad
  have hclean : cleanFragment (pad ++ (line ++ '\n' :: ')' :: t)) =
      (withoutComments (line ++ '\n' :: ')' :: t)).trim := congrArg Text.trimEnd hstart
  rw [hclean, hk, htrimmed.trim_append (by simp)]
  exact ⟨k.trimEnd, by simp⟩

/-- A line and a closing parenthesis on the next one go together. -/
theorem splitDefinitions_closed (hpad : ∀ c ∈ pad, isBlank c) (h : IsLine line) (hsolid : EndsSolid line)
    (hu : ',' ∉ u) (v : Text) : ∃ k, splitDefinitions (pad ++ (line ++ '\n' :: ')' :: (u ++ v))) =
      (line ++ '\n' :: ')' :: k) :: laterDefinitions v := by
  obtain ⟨part, parts, hv⟩ := List.exists_cons_of_ne_nil (splitAtSeparators_ne_nil v)
  have hclose : ',' ∉ ')' :: u := by simp [hu]
  have hcomma : ',' ∉ pad := fun hmem => absurd (hpad _ hmem) (by decide)
  have hsplit := splitAtSeparators_no_comma hcomma (splitAtSeparators_line h.unbroken
    (fun w _ => hsolid.not_separated w) (splitAtSeparators_no_comma hclose hv))
  obtain ⟨k, hk⟩ := exists_cleanFragment_eq hpad h hsolid (u ++ part)
  refine ⟨k, ?_⟩
  rw [List.cons_append] at hsplit
  rw [splitDefinitions, hsplit, List.map_cons, List.cons_append, hk, List.filter_cons,
    show (line ++ '\n' :: ')' :: k).isEmpty = false by simp, laterDefinitions, hv]
  rfl

end SchemaDump
