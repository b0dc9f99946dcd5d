import SchemaDump.Proofs.Definition.CommentedBody
/- Splitting undoes joining. Definitions that are written over any number of lines are joined with commas
at the ends of lines, in either form of the line break, with blanks around them and with comments on lines
of their own. Splitting the body gives back the definitions, with their inner commas and line breaks. -/
namespace SchemaDump

variable {b e t u v : Text}

def keptLines (t : Text) : List Text := t.lines.filter fun line => !isCommentLine line

theorem withoutComments_eq_unlines (t : Text) : withoutComments t = Text.unlines (keptLines t) := rfl

theorem keptLines_append (hu : '\n' ∉ u) (h : isCommentLine u.dropReturn = false) (v : Text) :
    keptLines (u ++ '\n' :: v) = u.dropReturn :: keptLines v := by
  rw [keptLines, lines_append hu, List.filter_cons, h]
  rfl

theorem dropReturn_append (hu : '\r' ∉ u) (v : Text) :
    Text.dropReturn (u ++ v) = u ++ v.dropReturn := by
  rw [Text.dropReturn, Text.dropReturn, List.getLast?_append]
  cases hlast : v.getLast? with
  | none =>
      have hfirst : u.getLast? ≠ some '\r' := fun h => hu (List.mem_of_getLast? h)
      rw [List.getLast?_eq_none_iff.mp hlast, Option.none_or, if_neg hfirst]
      rfl
  | some c =>
      have hne : v ≠ [] := fun h => by rw [h] at hlast; cases hlast
      rw [Option.some_or, List.dropLast_append_of_ne_nil hne]
      split <;> rfl

theorem isBlank_of_mem_dropReturn (hb : ∀ c ∈ b, isBlank c) : ∀ c ∈ b.dropReturn, isBlank c := by
  rw [Text.dropReturn]
  split
  · exact fun c hc => hb c (List.dropLast_subset b hc)
  · exact hb

/-- Blanks behind a line do not make a comment of it. -/
theorem isCommentLine_append_blanks (ht : isCommentLine t = false) (hb : ∀ c ∈ b, isBlank c) :
    isCommentLine (t ++ b) = false := by
  induction b using List.reverseRecOn with
  | nil => rwa [List.append_nil]
  | append_singleton b c ih =>
      have hdash : c ≠ '-' := by
        rintro rfl
        exact absurd (hb '-' (by simp)) (by decide)
      rw [← Bool.not_eq_true, ← List.append_assoc]
      intro hcomment
      have hline := isCommentLine_of_concat hdash hcomment
      rw [ih fun d hd => hb d (List.mem_append_left _ hd)] at hline
      cases hline

/-- What stands behind a line leaves the line alone: nothing but blanks is kept of it. -/
def Closes (e line : Text) : Prop :=
  keptLines (line ++ e) ≠ [] ∧
    ∃ w : Text, (∀ c ∈ w, isBlank c) ∧ withoutComments (line ++ e) = line ++ w

theorem closes_blanks {line : Text} (hne : line ≠ []) (hfeed : '\n' ∉ line)
    (hcomment : isCommentLine line = false) (hb : ∀ c ∈ b, isBlank c) (hbfeed : '\n' ∉ b) :
    Closes b line := by
  have hlines : keptLines (line ++ b) = [line ++ b] := by
    have hmem : '\n' ∉ line ++ b := by
      intro h
      rcases List.mem_append.mp h with h | h
      · exact hfeed h
      · exact hbfeed h
    have hsome : (line ++ b).isEmpty = false := by
      cases line with
      | nil => exact absurd rfl hne
      | cons c line => rfl
    rw [keptLines, Text.lines, splitAtChar_of_not_mem hmem, Text.closeLines, hsome]
    simp [isCommentLine_append_blanks hcomment hb]
  refine ⟨by rw [hlines]; exact List.cons_ne_nil _ _, b, hb, ?_⟩
  rw [withoutComments_eq_unlines, hlines]
  rfl

theorem closes_break {line part : Text} (hfeed : '\n' ∉ line) (hreturn : '\r' ∉ line)
    (hcomment : isCommentLine line = false) (hb : ∀ c ∈ b, isBlank c) (hbfeed : '\n' ∉ b)
    (hpart : cleanFragment part = []) : Closes (b ++ '\n' :: part) line := by
  have hmem : '\n' ∉ line ++ b := by
    intro h
    rcases List.mem_append.mp h with h | h
    · exact hfeed h
    · exact hbfeed h
  have hdrop := dropReturn_append hreturn b
  have hblank := isBlank_of_mem_dropReturn hb
  have hlines : keptLines (line ++ (b ++ '\n' :: part)) = (line ++ b.dropReturn) :: keptLines part := by
    rw [← List.append_assoc, keptLines_append hmem (by
      rw [hdrop]
      exact isCommentLine_append_blanks hcomment hblank), hdrop]
  refine ⟨by rw [hlines]; exact List.cons_ne_nil _ _, ?_⟩
  rw [withoutComments_eq_unlines, hlines]
  by_cases hkept : keptLines part = []
  · exact ⟨b.dropReturn, hblank, by rw [hkept]; rfl⟩
  · refine ⟨b.dropReturn ++ '\n' :: withoutComments part, fun c hc => ?_, ?_⟩
    · rcases List.mem_append.mp hc with hc | hc
      · exact hblank c hc
      · rcases List.mem_cons.mp hc with rfl | hc
        · decide
        · exact isBlank_of_trim_eq_nil hpart c hc
    · rw [unlines_cons _ hkept, withoutComments_eq_unlines, List.append_assoc]

/-- What closes the last line of a text closes the text. -/
theorem closes_lines (hne : t ≠ []) (hsolid : EndsSolid t) (hreturn : '\r' ∉ t)
    (hlines : ∀ line ∈ t.lines, isCommentLine line = false)
    (h : ∀ line, line ≠ [] → '\n' ∉ line → '\r' ∉ line → isCommentLine line = false →
      Closes e line) :
    Closes e t := by
  induction hlen : t.length using Nat.strong_induction_on generalizing t with
  | _ n ih =>
    by_cases hfeed : '\n' ∈ t
    · obtain ⟨line, rest, rfl, hline⟩ := List.eq_append_cons_of_mem hfeed
      have hrest : rest ≠ [] := by
        rintro rfl
        exact absurd (hsolid '\n' (by simp)).1 (by decide)
      have hdrop : Text.dropReturn line = line := by
        have h := dropReturn_append (fun hc => hreturn (List.mem_append_left _ hc)) ([] : Text)
        rwa [List.append_nil, show Text.dropReturn [] = [] from rfl, List.append_nil] at h
      rw [lines_append hline, hdrop] at hlines
      have hclosed : Closes e rest := by
        refine ih rest.length (by rw [← hlen]; simp; omega) hrest (fun c hc => hsolid c ?_)
          (fun hc => hreturn (by simp [hc])) (fun l hl => hlines l (List.mem_cons_of_mem _ hl)) rfl
        rw [List.getLast?_append, List.getLast?_cons, hc]
        rfl
      obtain ⟨hkept, w, hw, hclean⟩ := hclosed
      have hsplit : keptLines (line ++ '\n' :: rest ++ e) = line :: keptLines (rest ++ e) := by
        rw [List.append_assoc, List.cons_append,
          keptLines_append hline (by rw [hdrop]; exact hlines line List.mem_cons_self), hdrop]
      refine ⟨by rw [hsplit]; exact List.cons_ne_nil _ _, w, hw, ?_⟩
      rw [withoutComments_eq_unlines] at hclean ⊢
      rw [hsplit, unlines_cons _ hkept, hclean, List.append_assoc, List.cons_append]
    · refine h t hne hfeed hreturn (hlines t ?_)
      rw [Text.lines, splitAtChar_of_not_mem hfeed, Text.closeLines, if_neg (by simpa using hne)]
      exact List.mem_singleton_self _

/-- A definition as it is written: it starts with something other than a blank, it ends neither with a blank
nor with a comma, no separator stands in it, and none of its lines is a comment. -/
structure Fragment where
  text : Text
  ne_nil : text ≠ []
  opens : ∀ c ∈ text.head?, isBlank c = false
  solid : EndsSolid text
  unseparated : ∀ x y, text ≠ x ++ ',' :: '\n' :: y
  unreturned : '\r' ∉ text
  uncommented : ∀ line ∈ text.lines, isCommentLine line = false

namespace Fragment

variable (f : Fragment)

theorem closes
    (h : ∀ line, line ≠ [] → '\n' ∉ line → '\r' ∉ line → isCommentLine line = false → Closes e line) :
    Closes e f.text :=
  closes_lines f.ne_nil f.solid f.unreturned f.uncommented h

theorem cleanFragment_append (h : Closes e f.text) : cleanFragment (f.text ++ e) = f.text := by
  obtain ⟨-, w, hw, hclean⟩ := h
  have htrim : Text.trim (f.text ++ w) = f.text := by
    rw [trim_append_blanks f.text hw]
    exact (f.solid.trimmed f.opens).trim_eq
  exact (congrArg Text.trim hclean).trans htrim

/-- No separator stands in a definition or starts in it. -/
theorem splitAtSeparators_append {part : Text} {parts : List Text}
    (hv : splitAtSeparators v = part :: parts) :
    splitAtSeparators (f.text ++ v) = (f.text ++ part) :: parts := by
  refine splitAtSeparators_behind hv fun x y w hxy => ?_
  cases y with
  | nil => exact absurd rfl (f.solid ',' (by rw [hxy]; simp)).2
  | cons c y =>
      refine ⟨fun hy => ?_, fun hy => ?_⟩
      · obtain ⟨rfl, -⟩ := List.cons.inj hy
        exact f.unseparated x y hxy
      · obtain ⟨rfl, -⟩ := List.cons.inj hy
        exact f.unreturned (by rw [hxy]; simp)

theorem splitDefinitions_eq {part : Text} {parts : List Text} (hv : splitAtSeparators v = part :: parts)
    (hpart : Closes part f.text)
    (hparts : (parts.map cleanFragment).filter (fun fragment => !fragment.isEmpty) = []) :
    splitDefinitions (f.text ++ v) = [f.text] := by
  have hsome : f.text.isEmpty = false := by simpa using f.ne_nil
  rw [splitDefinitions, f.splitAtSeparators_append hv, List.map_cons, f.cleanFragment_append hpart,
    List.filter_cons, hsome, hparts]
  rfl

/-- A definition in front of a line break and of lines that hold no definition. -/
theorem splitDefinitions_break (hb : ∀ c ∈ b, isBlank c) (hbfeed : '\n' ∉ b)
    (ht : splitDefinitions t = []) :
    splitDefinitions (f.text ++ (b ++ '\n' :: t)) = [f.text] := by
  obtain ⟨part, parts, hparts⟩ := List.exists_cons_of_ne_nil (splitAtSeparators_ne_nil t)
  have hbreak : splitAtSeparators ((b ++ ['\n']) ++ t) = ((b ++ ['\n']) ++ part) :: parts := by
    refine splitAtSeparators_behind hparts fun x y w hxy => absurd ?_ (show ',' ∉ b ++ ['\n'] from ?_)
    · rw [hxy]
      simp
    · intro hmem
      rcases List.mem_append.mp hmem with hmem | hmem
      · exact absurd (hb ',' hmem) (by decide)
      · exact absurd (List.mem_singleton.mp hmem) (by decide)
  rw [List.append_assoc, List.append_assoc, List.singleton_append, List.singleton_append] at hbreak
  have hclean := clean_of_splitDefinitions_nil hparts ht
  exact f.splitDefinitions_eq hbreak (f.closes fun line _ hfeed hreturn hcomment =>
    closes_break hfeed hreturn hcomment hb hbfeed hclean.1) hclean.2

theorem splitDefinitions_blanks (m : Margin) : splitDefinitions (f.text ++ m.text) = [f.text] := by
  by_cases hfeed : '\n' ∈ m.text
  · obtain ⟨b, rest, hm, hb⟩ := List.eq_append_cons_of_mem hfeed
    have hblank := m.blank
    rw [hm] at hblank ⊢
    exact f.splitDefinitions_break (fun c hc => hblank c (List.mem_append_left _ hc)) hb
      (SchemaDump.splitDefinitions_blanks fun c hc => hblank c (by simp [hc]))
  · have hcomma : ∀ x y, m.text ≠ x ++ ',' :: y := fun x y hm =>
      absurd (m.blank ',' (by rw [hm]; simp)) (by decide)
    have hsplit : splitAtSeparators m.text = [m.text] :=
      splitAtSeparators_eq_singleton (fun x y => hcomma x ('\n' :: y)) fun x y => hcomma x ('\r' :: '\n' :: y)
    exact f.splitDefinitions_eq hsplit
      (f.closes fun line hne hlfeed _ hcomment => closes_blanks hne hlfeed hcomment m.blank hfeed) rfl

/-- A definition in front of blanks, a line break and lines that hold no definition. -/
theorem splitDefinitions_lines (m : Margin) (ht : splitDefinitions t = []) :
    splitDefinitions (f.text ++ (m.text ++ '\n' :: t)) = [f.text] := by
  by_cases hfeed : '\n' ∈ m.text
  · obtain ⟨b, rest, hm, hb⟩ := List.eq_append_cons_of_mem hfeed
    have hblank := m.blank
    rw [hm] at hblank ⊢
    rw [List.append_assoc, List.cons_append]
    refine f.splitDefinitions_break (fun c hc => hblank c (List.mem_append_left _ hc)) hb ?_
    rw [splitDefinitions_append_blanks fun c hc => hblank c (by simp [hc]),
      splitDefinitions_cons_blank (by decide), ht]
  · exact f.splitDefinitions_break m.blank hfeed ht

end Fragment

/-- Comments on lines of their own, each with its line break, and blanks in front of each and behind the
last. -/
structure Remarks where
  comments : List (Margin × Comment)
  margin : Margin

namespace Remarks

def commentText (c : Margin × Comment) : Text := c.1.text ++ (c.2.lineText ++ ['\n'])

def text (r : Remarks) : Text := r.comments.flatMap commentText ++ r.margin.text

theorem splitDefinitions_append (r : Remarks) (t : Text) :
    splitDefinitions (r.text ++ t) = splitDefinitions t := by
  obtain ⟨comments, m⟩ := r
  rw [text, List.append_assoc]
  induction comments with
  | nil => exact splitDefinitions_append_blanks m.blank t
  | cons c comments ih =>
      rw [List.flatMap_cons, commentText, List.append_assoc, List.append_assoc, List.append_assoc,
        splitDefinitions_append_blanks c.1.blank, List.singleton_append,
        splitDefinitions_comment c.2.not_mem_lineText c.2.isCommentLine_lineText]
      exact ih

end Remarks

/-- What stands behind the last definition or separator: the last comment may end with the body. -/
structure Closing where
  remarks : Remarks
  comment : Option Comment

namespace Closing

def text (c : Closing) : Text := c.remarks.text ++ c.comment.elim [] Comment.lineText

theorem splitDefinitions_text (c : Closing) : splitDefinitions c.text = [] := by
  rw [text, c.remarks.splitDefinitions_append]
  cases c.comment with
  | none => rfl
  | some comment => exact splitDefinitions_of_comment comment.not_mem_lineText comment.isCommentLine_lineText

end Closing

/-- A body: definitions behind comments and blanks, each in front of blanks, comments and a separator. The
last definition may stand without a separator. -/
inductive Layout
  | closing (c : Closing)
  | last (front : Remarks) (fragment : Fragment) (margin : Margin) (back : Option Closing)
  | separated (front : Remarks) (fragment : Fragment) (margin : Margin) (back : Option Remarks)
      (separator : Text) (isSeparator : separator ∈ separators) (rest : Layout)

namespace Layout

/-- Blanks, and whatever stands on the lines behind them. -/
def backText (m : Margin) (lines : Option Text) : Text := m.text ++ lines.elim [] fun t => '\n' :: t

def text : Layout → Text
  | closing c => c.text
  | last front f m back => front.text ++ (f.text ++ backText m (back.map Closing.text))
  | separated front f m back s _ rest =>
      front.text ++ (f.text ++ backText m (back.map Remarks.text)) ++ (s ++ rest.text)

def fragments : Layout → List Fragment
  | closing _ => []
  | last _ f _ _ => [f]
  | separated _ f _ _ _ _ rest => f :: rest.fragments

theorem splitDefinitions_fragment (front : Remarks) (f : Fragment) (m : Margin) {lines : Option Text}
    (hlines : ∀ t ∈ lines, splitDefinitions t = []) :
    splitDefinitions (front.text ++ (f.text ++ backText m lines)) = [f.text] := by
  rw [front.splitDefinitions_append, backText]
  cases lines with
  | none =>
      rw [Option.elim_none, List.append_nil]
      exact f.splitDefinitions_blanks m
  | some t => exact f.splitDefinitions_lines m (hlines t rfl)

/-- Splitting a body gives the definitions it was joined from. -/
theorem splitDefinitions_joined (l : Layout) : splitDefinitions l.text = l.fragments.map (·.text) := by
  induction l with
  | closing c => exact c.splitDefinitions_text
  | last front f m back =>
      refine splitDefinitions_fragment front f m fun t ht => ?_
      obtain ⟨c, -, rfl⟩ := Option.map_eq_some_iff.mp ht
      exact c.splitDefinitions_text
  | separated front f m back s hs rest ih =>
      have hfragment : splitDefinitions (front.text ++ (f.text ++ backText m (back.map Remarks.text))) =
          [f.text] := by
        refine splitDefinitions_fragment front f m fun t ht => ?_
        obtain ⟨r, -, rfl⟩ := Option.map_eq_some_iff.mp ht
        have h := r.splitDefinitions_append []
        rwa [List.append_nil] at h
      rw [text, splitDefinitions_separator hs, hfragment, ih]
      rfl

/-- A comment with a comma at its end, a definition on two lines, both forms of the line break. -/
example : splitDefinitions
    " -- first,\n a int \r\n,\n\n-- key\r\n b enum(1,2\n ,3) ,\r\n c text\n -- last,\n,\n".toList =
      ["a int".toList, "b enum(1,2\n ,3)".toList, "c text".toList] := by decide +kernel

end Layout

end SchemaDump
