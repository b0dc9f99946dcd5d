import SchemaDump.Proofs.Definition.NameList
/- Texts in which no statement ends and no line is broken. -/
namespace SchemaDump

def Unbroken (t : Text) : Prop := ∀ c ∈ t, c ≠ ';' ∧ c ≠ '\n'

instance (t : Text) : Decidable (Unbroken t) :=
  inferInstanceAs (Decidable (∀ c ∈ t, c ≠ ';' ∧ c ≠ '\n'))

theorem Unbroken.append {u v : Text} (hu : Unbroken u) (hv : Unbroken v) : Unbroken (u ++ v) :=
  fun c hc => (List.mem_append.mp hc).elim (hu c) (hv c)

theorem Unbroken.cons {c : Char} {t : Text} (hc : Unbroken [c]) (ht : Unbroken t) :
    Unbroken (c :: t) := hc.append ht

theorem unbroken_flatMap {α : Type} {text : α → Text} (h : ∀ a, Unbroken (text a)) (l : List α) :
    Unbroken (l.flatMap text) := by
  intro c hc
  obtain ⟨a, -, ha⟩ := List.mem_flatMap.mp hc
  exact h a c ha

theorem unbroken_wordChar {c : Char} (h : isWordChar c) : c ≠ ';' ∧ c ≠ '\n' := by
  constructor <;>
  · rintro rfl
    exact absurd h (by decide)

theorem unbroken_commaJoin (spaced : Bool) {items : List Text} (h : ∀ item ∈ items, Unbroken item) :
    Unbroken (commaJoin spaced items) := by
  intro c hc
  rcases mem_commaJoin hc with rfl | rfl | ⟨item, hitem, hc⟩
  · decide
  · decide
  · exact h item hitem c hc

end SchemaDump
