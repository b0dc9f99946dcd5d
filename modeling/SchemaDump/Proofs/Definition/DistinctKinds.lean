import Mathlib.Data.List.Nodup
import SchemaDump.Text.Basic
/- Lists with at most one element of a kind. -/
namespace SchemaDump

variable {α β κ : Type} {kind : α → κ} {k other : κ} {l m : List α} {f : α → Option β}

section Kinds

variable [DecidableEq κ]

theorem filter_kind_of_not_mem (h : k ∉ l.map kind) : l.filter (fun a => kind a ≠ k) = l := by
  rw [List.filter_eq_self]
  exact fun a ha => decide_eq_true fun heq => h (List.mem_map.mpr ⟨a, ha, heq⟩)

theorem contains_kind_filter (h : other ≠ k) :
    ((l.filter fun a => kind a ≠ k).map kind).contains other = (l.map kind).contains other := by
  apply Bool.eq_iff_iff.mpr
  simp only [List.contains_iff_mem, List.mem_map, List.mem_filter, decide_eq_true_eq]
  constructor
  · rintro ⟨a, ⟨ha, -⟩, hkind⟩
    exact ⟨a, ha, hkind⟩
  · rintro ⟨a, ha, rfl⟩
    exact ⟨a, ⟨ha, h⟩, rfl⟩

/-- The only element of a kind stands between the others. -/
theorem exists_split_of_mem_kind (hsingle : (l.map kind).count k ≤ 1) (h : k ∈ l.map kind) :
    ∃ front a back, l = front ++ a :: back ∧ kind a = k ∧ l.filter (fun b => kind b ≠ k) = front ++ back := by
  obtain ⟨a, ha, hkind⟩ := List.mem_map.mp h
  obtain ⟨front, back, rfl⟩ := List.append_of_mem ha
  refine ⟨front, a, back, rfl, hkind, ?_⟩
  rw [List.map_append, List.map_cons, hkind, List.count_append, List.count_cons_self] at hsingle
  have hone : decide (kind a ≠ k) = false := decide_eq_false fun hne => hne hkind
  rw [List.filter_append, List.filter_cons, hone, filter_kind_of_not_mem, filter_kind_of_not_mem]
  · rfl
  · exact List.count_eq_zero.mp (by omega)
  · exact List.count_eq_zero.mp (by omega)

/-- What is said by elements of one kind is not said by those of another one. -/
theorem findSome?_kind_filter (hf : ∀ {a b}, f a = some b → kind a = k) (h : k ≠ other) :
    (l.filter fun a => kind a ≠ other).findSome? f = l.findSome? f := by
  induction l with
  | nil => rfl
  | cons a l ih =>
      by_cases hkind : kind a = other
      · have hnone : f a = none := Option.eq_none_iff_forall_ne_some.mpr fun b hb => h ((hf hb).symm.trans hkind)
        rw [List.filter_cons_of_neg (by simpa using hkind), List.findSome?_cons, hnone, ih]
      · rw [List.filter_cons_of_pos (by simpa using hkind), List.findSome?_cons, List.findSome?_cons, ih]

/-- What is looked for in the elements of one kind is found in the only one of them. -/
theorem findSome?_eq_some_iff_of_kind (hf : ∀ {a b}, f a = some b → kind a = k) (hsingle : (l.map kind).count k ≤ 1)
    {b : β} : l.findSome? f = some b ↔ ∃ a ∈ l, f a = some b := by
  refine ⟨List.exists_of_findSome?_eq_some, fun ⟨a, ha, hb⟩ => ?_⟩
  obtain ⟨front, c, back, rfl, -, hothers⟩ := exists_split_of_mem_kind hsingle (List.mem_map.mpr ⟨a, ha, hf hb⟩)
  have hother : ∀ d ∈ front ++ back, f d = none := fun d hd => by
    rw [← hothers, List.mem_filter] at hd
    exact Option.eq_none_iff_forall_ne_some.mpr fun e he => of_decide_eq_true hd.2 (hf he)
  have hfront : front.findSome? f = none :=
    List.findSome?_eq_none_iff.mpr fun d hd => hother d (List.mem_append_left back hd)
  obtain rfl : a = c := by
    rcases List.mem_append.mp ha with ha | ha
    · rw [hother a (List.mem_append_left back ha)] at hb
      cases hb
    · refine (List.mem_cons.mp ha).resolve_right fun ha => ?_
      rw [hother a (List.mem_append_right front ha)] at hb
      cases hb
  rw [List.findSome?_append, hfront, List.findSome?_cons, hb]
  rfl

theorem findSome?_perm (hf : ∀ {a b}, f a = some b → kind a = k) (hsingle : (m.map kind).count k ≤ 1)
    (horder : l.Perm m) : l.findSome? f = m.findSome? f := by
  ext b
  have hl : (l.map kind).count k ≤ 1 := (horder.map kind).count_eq k ▸ hsingle
  rw [findSome?_eq_some_iff_of_kind hf hl, findSome?_eq_some_iff_of_kind hf hsingle]
  simp only [horder.mem_iff]

end Kinds

end SchemaDump
