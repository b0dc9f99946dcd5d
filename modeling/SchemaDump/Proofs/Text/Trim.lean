import SchemaDump.Text.Basic
/- Trimming removes the blanks at the ends of a text and nothing else. -/
namespace SchemaDump

/-- The text neither starts nor ends with a blank. -/
def Trimmed (t : Text) : Prop :=
  (∀ c ∈ t.head?, isBlank c = false) ∧ ∀ c ∈ t.getLast?, isBlank c = false

theorem dropWhile_eq_self {p : Char → Bool} {t : Text} (h : ∀ c ∈ t.head?, p c = false) :
    t.dropWhile p = t := by
  cases t with
  | nil => rfl
  | cons c t => rw [List.dropWhile_cons_of_neg (by simp [h c rfl])]

theorem Trimmed.trimStart_eq {t : Text} (h : Trimmed t) : t.trimStart = t := dropWhile_eq_self h.1

theorem trimEnd_eq_self {t : Text} (h : ∀ c ∈ t.getLast?, isBlank c = false) : t.trimEnd = t := by
  rw [Text.trimEnd, dropWhile_eq_self, List.reverse_reverse]
  rw [List.head?_reverse]
  exact h

theorem Trimmed.trim_eq {t : Text} (h : Trimmed t) : t.trim = t := by
  rw [Text.trim, h.trimStart_eq, trimEnd_eq_self h.2]

/-! A condition on the characters of a text is decided along the text, not by trying all characters
there are. -/

instance (priority := high) Text.decidableForall (p : Char → Prop) [DecidablePred p] (t : Text) :
    Decidable (∀ c ∈ t, p c) := List.decidableBAll p t

instance (priority := high) Text.decidableForallEnd (p : Char → Prop) [DecidablePred p]
    (c : Option Char) :
    Decidable (∀ d ∈ c, p d) := Option.decidableForallMem c

/-- The text ends neither with a blank nor with a comma. -/
def EndsSolid (t : Text) : Prop := ∀ c ∈ t.getLast?, isBlank c = false ∧ c ≠ ','

instance (t : Text) : Decidable (EndsSolid t) :=
  inferInstanceAs (Decidable (∀ c ∈ t.getLast?, isBlank c = false ∧ c ≠ ','))

theorem EndsSolid.trimmed {t : Text} (h : EndsSolid t) (hhead : ∀ c ∈ t.head?, isBlank c = false) :
    Trimmed t := ⟨hhead, fun c hc => (h c hc).1⟩

theorem EndsSolid.append {u v : Text} (hu : EndsSolid u) (hv : EndsSolid v) : EndsSolid (u ++ v) := by
  intro c hc
  rw [List.getLast?_append] at hc
  cases hlast : v.getLast? with
  | none =>
      rw [hlast] at hc
      exact hu c hc
  | some d =>
      rw [hlast] at hc
      exact Option.some.inj hc ▸ hv d hlast

theorem EndsSolid.behind {v : Text} (hv : EndsSolid v) (hne : v ≠ []) (u : Text) :
    EndsSolid (u ++ v) := by
  intro c hc
  rw [List.getLast?_append] at hc
  cases hlast : v.getLast? with
  | none => exact absurd (List.getLast?_eq_none_iff.mp hlast) hne
  | some d =>
      rw [hlast] at hc
      exact Option.some.inj hc ▸ hv d hlast

theorem endsSolid_of_forall {t : Text} (h : ∀ c ∈ t, isBlank c = false ∧ c ≠ ',') : EndsSolid t :=
  fun c hc => h c (List.mem_of_getLast? hc)

theorem endsSolid_flatMap {α : Type} {text : α → Text} (h : ∀ a, EndsSolid (text a)) (l : List α) :
    EndsSolid (l.flatMap text) := by
  induction l with
  | nil => exact fun c hc => nomatch hc
  | cons a l ih => exact (h a).append ih

theorem trimEnd_concat_blank {t : Text} {c : Char} (hc : isBlank c) :
    Text.trimEnd (t ++ [c]) = t.trimEnd := by
  simp [Text.trimEnd, hc]

theorem trimEnd_append_blanks (t : Text) {v : Text} (hv : ∀ c ∈ v, isBlank c) : Text.trimEnd (t ++ v) = t.trimEnd := by
  rw [Text.trimEnd, List.reverse_append, List.dropWhile_append_of_pos fun c hc => hv c (List.mem_reverse.mp hc)]
  rfl

theorem trimEnd_append_cons (u : Text) {c : Char} (hc : isBlank c = false) (t : Text) :
    Text.trimEnd (u ++ c :: t) = u ++ c :: t.trimEnd := by
  have hsolid : (c :: u.reverse).dropWhile isBlank = c :: u.reverse := List.dropWhile_cons_of_neg (by simp [hc])
  rw [Text.trimEnd, Text.trimEnd, List.reverse_append, List.reverse_cons, List.append_assoc, List.singleton_append,
    List.dropWhile_append]
  split
  · next hempty =>
    rw [hsolid, List.isEmpty_iff.mp hempty]
    simp
  · simp

theorem trimEnd_cons_blank {c : Char} (hc : isBlank c) (t : Text) :
    Text.trimEnd (c :: t) = if t.trimEnd = [] then [] else c :: t.trimEnd := by
  have hblank : [c].dropWhile isBlank = [] := List.dropWhile_cons_of_pos hc
  rw [Text.trimEnd, Text.trimEnd, List.reverse_cons, List.dropWhile_append, hblank]
  cases t.reverse.dropWhile isBlank with
  | nil => rfl
  | cons d v => simp

theorem trim_concat_blank {t : Text} {c : Char} (hc : isBlank c) : Text.trim (t ++ [c]) = t.trim := by
  rw [Text.trim, Text.trim, Text.trimStart, Text.trimStart, List.dropWhile_append]
  split
  · next h =>
    rw [List.isEmpty_iff.mp h, List.dropWhile_cons_of_pos hc]
    rfl
  · exact trimEnd_concat_blank hc

theorem trimEnd_prefix (t : Text) : t.trimEnd <+: t := by
  have hsuffix := List.dropWhile_suffix isBlank (l := t.reverse)
  have hprefix := List.reverse_prefix.mpr hsuffix
  rwa [List.reverse_reverse] at hprefix

theorem mem_of_mem_trim {t : Text} {c : Char} (h : c ∈ t.trim) : c ∈ t := by
  have hstart : t.trim <+: t.trimStart := trimEnd_prefix _
  have hrest : t.trimStart <:+ t := List.dropWhile_suffix isBlank
  exact hrest.subset (hstart.subset h)

theorem exists_trim (t : Text) : ∃ u v, t = u ++ (t.trim ++ v) ∧ ∀ c ∈ u, isBlank c := by
  obtain ⟨v, hv⟩ := trimEnd_prefix t.trimStart
  refine ⟨t.takeWhile isBlank, v, ?_, fun c hc => List.all_eq_true.mp List.all_takeWhile c hc⟩
  rw [Text.trim, hv]
  exact List.takeWhile_append_dropWhile.symm

/-- What stands behind a trimmed text is trimmed at its end only. -/
theorem Trimmed.trim_append {t : Text} (h : Trimmed t) (hne : t ≠ []) (v : Text) :
    Text.trim (t ++ v) = t ++ v.trimEnd := by
  have hstart : Text.trimStart (t ++ v) = t ++ v := by
    apply dropWhile_eq_self
    intro c hc
    obtain ⟨d, rest, rfl⟩ := List.exists_cons_of_ne_nil hne
    exact h.1 c hc
  have hend : t.reverse.dropWhile isBlank = t.reverse := by
    apply dropWhile_eq_self
    rw [List.head?_reverse]
    exact h.2
  rw [Text.trim, hstart, Text.trimEnd, Text.trimEnd, List.reverse_append, List.dropWhile_append]
  split
  · next hempty => rw [List.isEmpty_iff.mp hempty, hend, List.reverse_reverse]; simp
  · rw [List.reverse_append, List.reverse_reverse]

theorem trimStart_cons_blank {t : Text} {c : Char} (hc : isBlank c) :
    Text.trimStart (c :: t) = t.trimStart := List.dropWhile_cons_of_pos hc

end SchemaDump
