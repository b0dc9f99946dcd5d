import SchemaDump.Proofs.Definition.Layout
/- Lines with something behind their commas. A comma separates definitions only at the end of its line, so a line
with a remark behind its comma is chained to the next one, unless the remark ends with a comma in its turn. Each chain
of lines is one definition. -/
namespace SchemaDump

variable {line part t u : Text}

/-- A part is left with a text when its comments are gone, up to blanks at its end. -/
def Leaves (part t : Text) : Prop :=
  keptLines part ≠ [] ∧ ∃ w : Text, (∀ c ∈ w, isBlank c) ∧ withoutComments part = t ++ w

theorem Leaves.cleanFragment_eq (h : Leaves part t) : cleanFragment part = t.trim := by
  obtain ⟨-, w, hw, hclean⟩ := h
  exact (congrArg Text.trim hclean).trans (trim_append_blanks t hw)

theorem Leaves.behind (h : Leaves part t) (hu : '\n' ∉ u) (hcomment : isCommentLine u = false)
    (hreturn : u.dropReturn = u) : Leaves (u ++ '\n' :: part) (u ++ '\n' :: t) := by
  obtain ⟨hkept, w, hw, hclean⟩ := h
  have hlines : keptLines (u ++ '\n' :: part) = u :: keptLines part := by
    rw [keptLines_append hu (hreturn.symm ▸ hcomment), hreturn]
  refine ⟨by rw [hlines]; exact List.cons_ne_nil _ _, w, hw, ?_⟩
  rw [withoutComments_eq_unlines] at hclean ⊢
  rw [hlines, unlines_cons u hkept, hclean, List.append_assoc, List.cons_append]

/-- A line is left alone where nothing else is left. -/
theorem leaves_last (hu : '\n' ∉ u) (hcomment : isCommentLine u = false) (hreturn : u.dropReturn = u)
    (hpart : cleanFragment part = []) : Leaves (u ++ '\n' :: part) u := by
  have hlines : keptLines (u ++ '\n' :: part) = u :: keptLines part := by
    rw [keptLines_append hu (hreturn.symm ▸ hcomment), hreturn]
  refine ⟨by rw [hlines]; exact List.cons_ne_nil _ _, ?_⟩
  by_cases hkept : keptLines part = []
  · refine ⟨[], fun _ hc => absurd hc List.not_mem_nil, ?_⟩
    rw [withoutComments_eq_unlines, hlines, hkept, List.append_nil]
    rfl
  · refine ⟨'\n' :: withoutComments part, List.forall_mem_cons.mpr ⟨by decide, isBlank_of_trim_eq_nil hpart⟩, ?_⟩
    rw [withoutComments_eq_unlines, hlines, unlines_cons u hkept, withoutComments_eq_unlines]

/-- What stands on a line of its own. -/
structure Placed (α : Type) where
  indent : Text
  blank : ∀ c ∈ indent, isBlank c ∧ c ≠ '\n'
  definition : α

/-- What stands behind the comma of a line: a comment, or nothing. -/
structure Remark where
  text : Text
  unbroken : ∀ c ∈ text, c ≠ '\n' ∧ c ≠ '\r'

/-- Whether the comma of the line, or else one at the end of the remark, stands at the end of the line. -/
def Remark.closes (r : Remark) : Bool := (',' :: r.text).getLast? = some ','

/-- Lines that are chained: the definition on the first one, and all that stands behind it. -/
structure Chain (α : Type) where
  first : Placed α
  rest : Text

section Lines

variable {α : Type} (render : α → Text)

def Placed.text (p : Placed α) : Text := p.indent ++ render p.definition

def Chain.text (c : Chain α) : Text := c.first.text render ++ c.rest

def Chain.fragment (c : Chain α) : Text := render c.first.definition ++ c.rest.trimEnd

def Chain.behind (p : Placed α) (r : Remark) (c : Chain α) : Chain α :=
  ⟨p, ',' :: (r.text ++ '\n' :: c.text render)⟩

variable (last : Placed α)

/-- The text of lines with remarks, and of a last one. -/
def linesText : List (Placed α × Remark) → Text
  | [] => last.text render
  | (p, r) :: lines => p.text render ++ ',' :: (r.text ++ '\n' :: linesText lines)

/-- The chains of the lines. -/
def chains : List (Placed α × Remark) → List (Chain α)
  | [] => [⟨last, []⟩]
  | (p, r) :: lines =>
      if r.closes then ⟨p, (',' :: r.text).dropLast⟩ :: chains lines
      else (chains lines).modifyHead (Chain.behind render p r)

variable {render} (h : ∀ a, IsLine (render a) ∧ EndsSolid (render a)) {last}
include h

namespace Placed

variable (p : Placed α)

theorem not_mem_text : '\n' ∉ p.text render := fun hmem =>
  (List.mem_append.mp hmem).elim (fun hindent => (p.blank _ hindent).2 rfl) (h p.definition).1.unbroken

theorem definition_ne_nil : render p.definition ≠ [] := by
  obtain ⟨c, rest, hline, -⟩ := (h p.definition).1.opens
  rw [hline]
  exact List.cons_ne_nil _ _

theorem text_ne_nil : p.text render ≠ [] := List.append_ne_nil_of_right_ne_nil _ (p.definition_ne_nil h)

theorem endsSolid_text : EndsSolid (p.text render) := (h p.definition).2.behind (p.definition_ne_nil h) p.indent

theorem isCommentLine_append (t : Text) : isCommentLine (p.text render ++ t) = false := by
  obtain ⟨c, rest, hline, hblank, hdash⟩ := (h p.definition).1.opens
  have hstart : Text.trimStart (p.text render ++ t) = c :: (rest ++ t) := by
    rw [Placed.text, hline, List.append_assoc, List.cons_append]
    exact Pattern.dropWhile_append_of_stops (fun d hd => (p.blank d hd).1) (Pattern.stops_cons.mpr hblank)
  rw [isCommentLine, hstart]
  simp [List.isPrefixOf, Ne.symm hdash]

theorem isCommentLine_text : isCommentLine (p.text render) = false := by
  have hline := p.isCommentLine_append h []
  rwa [List.append_nil] at hline

end Placed

theorem Chain.trim_text (c : Chain α) : (c.text render).trim = c.fragment render := by
  obtain ⟨d, rest, hline, hblank, -⟩ := (h c.first.definition).1.opens
  have htrimmed : Trimmed (render c.first.definition) :=
    (h c.first.definition).2.trimmed fun e he => by
      rw [hline] at he
      exact Option.some.inj he ▸ hblank
  have hstart : (c.text render).trimStart = Text.trimStart (render c.first.definition ++ c.rest) := by
    rw [Chain.text, Placed.text, List.append_assoc, Text.trimStart,
      List.dropWhile_append_of_pos fun e he => (c.first.blank e he).1]
    rfl
  rw [Text.trim, hstart, ← Text.trim, htrimmed.trim_append (c.first.definition_ne_nil h), Chain.fragment]

omit h in
/-- A text falls apart into chains: its first part is left with the first of them, and the others are cleaned to the
definitions of the rest. -/
def FallsApart (render : α → Text) (v : Text) : List (Chain α) → Prop
  | [] => False
  | c :: cs => ∃ part parts, splitAtSeparators v = part :: parts ∧ Leaves part (c.text render) ∧
      (parts.map cleanFragment).filter (fun fragment => !fragment.isEmpty) = cs.map (·.fragment render)

variable {v : Text} {cs : List (Chain α)}

theorem FallsApart.splitDefinitions_eq (hv : FallsApart render v cs) :
    splitDefinitions v = cs.map (·.fragment render) := by
  cases cs with
  | nil => exact hv.elim
  | cons c cs =>
      obtain ⟨part, parts, hparts, hpart, hrest⟩ := hv
      have hsome : (c.fragment render).isEmpty = false := by
        simp [Chain.fragment, c.first.definition_ne_nil h]
      rw [splitDefinitions, hparts, List.map_cons, List.map_cons, hpart.cleanFragment_eq, c.trim_text h,
        List.filter_cons, hsome, hrest]
      rfl

theorem fallsApart_last (p : Placed α) (ht : splitDefinitions t = []) :
    FallsApart render (p.text render ++ '\n' :: t) [⟨p, []⟩] := by
  obtain ⟨part, parts, hparts⟩ := List.exists_cons_of_ne_nil (splitAtSeparators_ne_nil t)
  have hclean := clean_of_splitDefinitions_nil hparts ht
  have hsolid := p.endsSolid_text h
  refine ⟨p.text render ++ '\n' :: part, parts,
    splitAtSeparators_line (p.not_mem_text h) (fun w _ => hsolid.not_separated w) hparts, ?_, hclean.2⟩
  rw [Chain.text, List.append_nil]
  exact leaves_last (p.not_mem_text h) (p.isCommentLine_text h) hsolid.dropReturn_eq hclean.1

omit h in
theorem Remark.not_mem (r : Remark) : '\n' ∉ ',' :: r.text := by
  rw [List.mem_cons, not_or]
  exact ⟨by decide, fun hmem => (r.unbroken _ hmem).1 rfl⟩

theorem Placed.not_mem_append (p : Placed α) (hu : '\n' ∉ u) : '\n' ∉ p.text render ++ u := fun hmem =>
  (List.mem_append.mp hmem).elim (p.not_mem_text h) hu

theorem FallsApart.closed (hv : FallsApart render v cs) (p : Placed α) {r : Remark} (hr : r.closes = true) :
    FallsApart render (p.text render ++ ',' :: (r.text ++ '\n' :: v)) (⟨p, (',' :: r.text).dropLast⟩ :: cs) := by
  obtain ⟨s, hs⟩ := List.getLast?_eq_some_iff.mp (of_decide_eq_true hr)
  have hline : '\n' ∉ p.text render ++ s :=
    p.not_mem_append h fun hmem => r.not_mem (hs ▸ List.mem_append_left _ hmem)
  have hsingle : splitAtSeparators (p.text render ++ s) = [p.text render ++ s] := splitAtSeparators_eq_singleton
    (fun x y hxy => hline (by rw [hxy]; simp)) fun x y hxy => hline (by rw [hxy]; simp)
  have hleaves := closes_blanks (b := []) (List.append_ne_nil_of_left_ne_nil (p.text_ne_nil h) s) hline
    (p.isCommentLine_append h s) (fun c hc => nomatch hc) List.not_mem_nil
  rw [Closes, List.append_nil] at hleaves
  have htext : p.text render ++ ',' :: (r.text ++ '\n' :: v) = (p.text render ++ s) ++ ([',', '\n'] ++ v) := by
    rw [← List.cons_append, hs]
    simp
  rw [hs, List.dropLast_concat]
  refine ⟨p.text render ++ s, splitAtSeparators v, ?_, hleaves, hv.splitDefinitions_eq h⟩
  rw [htext, splitAtSeparators_separator (by decide), hsingle]
  rfl

/-- Any other comma chains its line to the next one. -/
theorem FallsApart.chained (hv : FallsApart render v cs) (p : Placed α) {r : Remark} (hr : r.closes = false) :
    FallsApart render (p.text render ++ ',' :: (r.text ++ '\n' :: v)) (cs.modifyHead (Chain.behind render p r)) := by
  cases cs with
  | nil => exact hv.elim
  | cons c cs =>
      obtain ⟨part, parts, hparts, hpart, hrest⟩ := hv
      have hlast : ∀ d ∈ (p.text render ++ ',' :: r.text).getLast?, d ≠ ',' ∧ d ≠ '\r' := by
        intro d hd
        rw [List.getLast?_append, List.getLast?_cons, Option.some_or, ← List.getLast?_cons] at hd
        refine ⟨fun heq => of_decide_eq_false hr (heq ▸ hd), ?_⟩
        rintro rfl
        rcases List.mem_cons.mp (List.mem_of_getLast? hd) with heq | hmem
        · exact absurd heq (by decide)
        · exact (r.unbroken _ hmem).2 rfl
      have hline := p.not_mem_append h r.not_mem
      have hbehind := hpart.behind hline (p.isCommentLine_append h _)
        (dropReturn_eq_self fun hd => (hlast _ hd).2 rfl)
      have htext : ∀ w, p.text render ++ ',' :: (r.text ++ '\n' :: w) =
          (p.text render ++ ',' :: r.text) ++ '\n' :: w := fun w => by simp
      refine ⟨(p.text render ++ ',' :: r.text) ++ '\n' :: part, parts, ?_, ?_, hrest⟩
      · rw [htext]
        exact splitAtSeparators_line hline (fun w _ => not_separated_of_last hlast w) hparts
      · rw [Chain.text, Chain.behind, htext]
        exact hbehind

theorem fallsApart_linesText (ht : splitDefinitions t = []) (lines : List (Placed α × Remark)) :
    FallsApart render (linesText render last lines ++ '\n' :: t) (chains render last lines) := by
  induction lines with
  | nil => exact fallsApart_last h last ht
  | cons l lines ih =>
      obtain ⟨p, r⟩ := l
      have htext : linesText render last ((p, r) :: lines) ++ '\n' :: t =
          p.text render ++ ',' :: (r.text ++ '\n' :: (linesText render last lines ++ '\n' :: t)) := by
        simp [linesText]
      rw [htext, chains]
      cases hr : r.closes with
      | true => exact ih.closed h p hr
      | false => exact ih.chained h p hr

theorem splitDefinitions_linesText (ht : splitDefinitions t = []) (lines : List (Placed α × Remark)) :
    splitDefinitions (linesText render last lines ++ '\n' :: t) =
      (chains render last lines).map (·.fragment render) :=
  (fallsApart_linesText h ht lines).splitDefinitions_eq h

end Lines

/-- A line without a remark is chained to none, and neither is one with a comma at the end of its remark. -/
theorem chains_of_closes {α : Type} {render : α → Text} {last : Placed α} {lines : List (Placed α × Remark)}
    (h : ∀ l ∈ lines, l.2.closes = true) :
    chains render last lines = (lines.map fun l => ⟨l.1, (',' :: l.2.text).dropLast⟩) ++ [⟨last, []⟩] := by
  induction lines with
  | nil => rfl
  | cons l lines ih =>
      obtain ⟨hcloses, hlines⟩ := List.forall_mem_cons.mp h
      rw [chains, if_pos hcloses, ih hlines]
      rfl

end SchemaDump
