import SchemaDump.Proofs.Definition.TopLevel
/- Texts that close what they open. A search passes over such a text in parentheses if nothing that it finds in
there goes on behind it. -/
namespace SchemaDump
open SqlPattern Pattern

variable {before : Option Char} {p : SqlPattern} {t u v x y : Text}

/-- A text after which the nesting is as in front of it, and in which it is never less deep. -/
structure Enclosed (t : Text) : Prop where
  level : ∀ depth, t.foldl Nesting.next ⟨false, depth⟩ = ⟨false, depth⟩
  deep : ∀ depth x y, t = x ++ y → depth ≤ (x.foldl Nesting.next ⟨false, depth⟩).depth

theorem foldl_next_inLiteral (h : ∀ c ∈ t, c ≠ '\'') (depth : Nat) :
    t.foldl Nesting.next ⟨true, depth⟩ = ⟨true, depth⟩ := by
  induction t with
  | nil => rfl
  | cons c t ih =>
      have hnext : (Nesting.mk true depth).next c = ⟨true, depth⟩ := by
        simp [Nesting.next, h c List.mem_cons_self]
      rw [List.foldl_cons, hnext]
      exact ih fun d hd => h d (List.mem_cons_of_mem c hd)

theorem ne_outermost_inLiteral (h : ∀ c ∈ t, c ≠ '\'') (hxy : t = x ++ y) (depth : Nat) :
    x.foldl Nesting.next ⟨true, depth⟩ ≠ .outermost := by
  rw [foldl_next_inLiteral fun c hc => h c (hxy ▸ List.mem_append_left y hc)]
  exact fun heq => nomatch congrArg Nesting.inLiteral heq

namespace Enclosed

theorem ne_outermost (h : Enclosed t) (hxy : t = x ++ y) (depth : Nat) :
    x.foldl Nesting.next ⟨false, depth + 1⟩ ≠ .outermost := by
  intro heq
  have hpositive := h.deep (depth + 1) x y hxy
  rw [heq] at hpositive
  exact absurd hpositive (Nat.not_succ_le_zero depth)

theorem append (hu : Enclosed u) (hv : Enclosed v) : Enclosed (u ++ v) where
  level depth := by rw [List.foldl_append, hu.level, hv.level]
  deep depth x y hxy := by
    rcases exists_append_of_length hxy with ⟨z, rfl, hz⟩ | ⟨c, z, hu', -⟩
    · rw [List.foldl_append, hu.level]
      exact hv.deep depth z y hz
    · exact hu.deep depth x _ hu'

theorem of_plain (h : ∀ c ∈ t, c ≠ '\'' ∧ c ≠ '(' ∧ c ≠ ')') : Enclosed t where
  level depth := foldl_next_of_plain h _
  deep depth x y hxy := by
    have hx : ∀ c ∈ x, c ≠ '\'' ∧ c ≠ '(' ∧ c ≠ ')' := fun c hc => h c (hxy ▸ List.mem_append_left y hc)
    exact Nat.le_of_eq (congrArg Nesting.depth (foldl_next_of_plain hx ⟨false, depth⟩)).symm

theorem literal (h : ∀ c ∈ t, c ≠ '\'') : Enclosed ('\'' :: (t ++ ['\''])) where
  level depth := by
    rw [List.foldl_cons, List.foldl_append]
    exact congrArg (fun n => List.foldl Nesting.next n ['\'']) (foldl_next_inLiteral h depth)
  deep depth x y hxy := by
    cases x with
    | nil => exact Nat.le_refl depth
    | cons c x =>
        obtain ⟨rfl, hrest⟩ := List.cons.inj hxy
        rw [List.foldl_cons, show (Nesting.mk false depth).next '\'' = ⟨true, depth⟩ from rfl]
        rcases exists_append_of_length hrest with ⟨z, rfl, hz⟩ | ⟨c, z, htext, -⟩
        · rw [List.foldl_append, foldl_next_inLiteral h]
          cases z with
          | nil => exact Nat.le_refl depth
          | cons d z =>
              obtain ⟨rfl, hnil⟩ := List.cons.inj hz
              obtain ⟨rfl, -⟩ := List.append_eq_nil_iff.mp hnil.symm
              exact Nat.le_refl depth
        · have hx := foldl_next_inLiteral (fun d hd => h d (htext ▸ List.mem_append_left _ hd)) depth
          exact Nat.le_of_eq (congrArg Nesting.depth hx).symm

theorem group (h : Enclosed t) : Enclosed ('(' :: (t ++ [')'])) where
  level depth := by
    rw [List.foldl_cons, List.foldl_append]
    exact congrArg (fun n => List.foldl Nesting.next n [')']) (h.level (depth + 1))
  deep depth x y hxy := by
    cases x with
    | nil => exact Nat.le_refl depth
    | cons c x =>
        obtain ⟨rfl, hrest⟩ := List.cons.inj hxy
        rw [List.foldl_cons, show (Nesting.mk false depth).next '(' = ⟨false, depth + 1⟩ from rfl]
        rcases exists_append_of_length hrest with ⟨z, rfl, hz⟩ | ⟨c, z, ht, -⟩
        · rw [List.foldl_append, h.level]
          cases z with
          | nil => exact Nat.le_succ depth
          | cons d z =>
              obtain ⟨rfl, hnil⟩ := List.cons.inj hz
              obtain ⟨rfl, -⟩ := List.append_eq_nil_iff.mp hnil.symm
              exact Nat.le_refl depth
        · exact Nat.le_of_succ_le (h.deep (depth + 1) x _ ht)

end Enclosed

/-- What stands in front of the end of a text stands in front of its last character. -/
theorem exists_append_of_concat {c : Char} (h : t ++ [c] = x ++ y) (hy : y ≠ []) : ∃ z, t = x ++ z := by
  rcases exists_append_of_length h with ⟨z, rfl, hz⟩ | ⟨d, z, ht, -⟩
  · cases z with
    | nil => exact ⟨[], by simp⟩
    | cons d z => exact absurd (List.append_eq_nil_iff.mp (List.cons.inj hz).2.symm).2 hy
  · exact ⟨_, ht⟩

theorem passes_enclosed (hp : p.Consumes) (ht : Enclosed t) (h : p.ReadsWithin before (t ++ [')']) v) :
    p.Passes v ⟨false, 1⟩ before (t ++ [')']) := by
  refine passes_of_readsWithin hp h fun x y hxy hy hn => ?_
  obtain ⟨z, hz⟩ := exists_append_of_concat hxy hy
  exact absurd hn (ht.ne_outermost hz 0)

end SchemaDump
