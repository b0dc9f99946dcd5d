import SchemaDump.Definition.Constraint
import SchemaDump.Proofs.Definition.NameList
import SchemaDump.Proofs.Pattern.Keyword
import SchemaDump.Proofs.Pattern.Reads
/- Texts with parentheses of one depth, as the list of a primary key may hold them. -/
namespace SchemaDump
open SqlPattern Pattern

variable {t u v w : Text}

/-- A text whose parentheses stand in pairs, no pair within another. -/
inductive Shallow : Text → Prop
  | nil : Shallow []
  | char {c : Char} {t : Text} (hc : c ≠ '(' ∧ c ≠ ')') (ht : Shallow t) : Shallow (c :: t)
  | group {u t : Text} (hu : ∀ c ∈ u, c ≠ '(' ∧ c ≠ ')') (ht : Shallow t) : Shallow ('(' :: (u ++ ')' :: t))

namespace Shallow

theorem append (ht : Shallow t) (hu : Shallow u) : Shallow (t ++ u) := by
  induction ht with
  | nil => exact hu
  | char hc _ ih => exact .char hc ih
  | group hinside _ ih =>
      rw [List.cons_append, List.append_assoc, List.cons_append]
      exact .group hinside ih

theorem of_forall (h : ∀ c ∈ t, c ≠ '(' ∧ c ≠ ')') : Shallow t := by
  induction t with
  | nil => exact .nil
  | cons c t ih => exact .char (h c List.mem_cons_self) (ih fun d hd => h d (List.mem_cons_of_mem c hd))

theorem commaJoin {spaced : Bool} {items : List Text} (h : ∀ item ∈ items, Shallow item) :
    Shallow (commaJoin spaced items) := by
  induction items with
  | nil => exact .nil
  | cons item items ih =>
      have hitem := h item List.mem_cons_self
      cases items with
      | nil => exact hitem
      | cons next items =>
          have hspace : Shallow (if spaced then [' '] else []) := of_forall (by cases spaced <;> decide)
          have hrest := hspace.append (ih fun other hother => h other (List.mem_cons_of_mem item hother))
          exact hitem.append (.char (by decide) hrest)

def step : SqlPattern :=
  alt (one (noneOf ['(', ')'])) (literal "(" ++ run (noneOf ['(', ')']) .longest ++ literal ")")

theorem consumes_step : step.Consumes := consumes_of_not_nullable rfl

/-- Such a text is read up to the parenthesis that closes the list. -/
theorem reads (h : Shallow t) (v : Text) : shallowText.Reads t (')' :: v) [] := by
  induction h with
  | nil =>
      refine reads_rounds_none consumes_step (Rejects.alt ?_ (Rejects.seq (Rejects.seq ?_ _) _))
      · exact .of_starts rfl (stops_cons.mpr (by decide))
      · exact .of_starts rfl (stops_cons.mpr (by decide))
  | @char c t hc _ ih =>
      have hstep : ∀ d ∈ [c], ∀ w, step.Reads [d] w [] := by
        intro d hd w
        obtain rfl := List.mem_singleton.mp hd
        exact (reads_one (by simp [noneOf, hc]) w).preferred _
      exact Reads.characters consumes_step hstep ih
  | @group u t hu _ ih =>
      have hrejects : (one (noneOf ['(', ')']) : SqlPattern).Rejects (('(' :: (u ++ [')'])) ++ (t ++ ')' :: v)) :=
        .of_starts rfl (stops_cons.mpr (by decide))
      have hrun : (run (noneOf ['(', ')']) .longest : SqlPattern).Reads u ([')'] ++ (t ++ ')' :: v)) [] :=
        reads_run (fun c hc => by simp [noneOf, hu c hc]) (stops_cons.mpr (by decide))
      have hgroup : (literal "(" ++ run (noneOf ['(', ')']) .longest ++ literal ")" : SqlPattern).Reads
          ('(' :: (u ++ [')'])) (t ++ ')' :: v) [] := by
        rw [reads_assoc]
        exact (reads_literal "(" _).seq (hrun.seq (reads_literal ")" _))
      have hround := Reads.round consumes_step (.other hrejects hgroup) ih
      rwa [List.cons_append, List.append_assoc] at hround

theorem eq_of_closes (ht : Shallow t) (hu : Shallow u) (h : t ++ ')' :: v = u ++ ')' :: w) : t = u ∧ v = w := by
  have hsame := ht.reads v none
  rw [h, hu.reads w none] at hsame
  have hmatch := Option.some.inj hsame
  exact ⟨(congrArg Match.read hmatch).symm, (List.cons.inj (congrArg Match.rest hmatch)).2.symm⟩

/-- A text without parentheses ends at the first one. -/
theorem eq_of_parenthesis {x y : Text} {c d : Char} (hu : ∀ e ∈ u, e ≠ '(' ∧ e ≠ ')') (hx : ∀ e ∈ x, e ≠ '(' ∧ e ≠ ')')
    (hc : c = '(' ∨ c = ')') (hd : d = '(' ∨ d = ')') (h : u ++ c :: v = x ++ d :: y) : u = x ∧ c = d ∧ v = y := by
  have hno : ∀ {t : Text} {e : Char}, (∀ e ∈ t, e ≠ '(' ∧ e ≠ ')') → (e = '(' ∨ e = ')') → e ∉ t := fun ht he hmem =>
    he.elim (ht _ hmem).1 (ht _ hmem).2
  rcases exists_append_of_length h with ⟨z, rfl, hz⟩ | ⟨e, z, rfl, hz⟩
  · cases z with
    | nil => exact ⟨(List.append_nil u).symm, List.cons.inj hz⟩
    | cons e z =>
        obtain ⟨rfl, -⟩ := List.cons.inj hz
        exact absurd (by simp) (hno hx hc)
  · obtain ⟨rfl, -⟩ := List.cons.inj hz
    exact absurd (by simp) (hno hu hd)

/-- A group in which another one opens is not closed in such a text. -/
theorem ne_closes (ht : Shallow t) (hu : ∀ c ∈ u, c ≠ '(' ∧ c ≠ ')') {x y : Text} (hx : Shallow x) :
    t ++ '(' :: (u ++ '(' :: v) ≠ x ++ ')' :: y := by
  induction ht generalizing x with
  | nil =>
      cases hx with
      | nil => exact fun h => absurd (List.cons.inj h).1 (by decide)
      | char hc _ => exact fun h => hc.1 (List.cons.inj h).1.symm
      | group hi _ =>
          intro h
          rw [List.nil_append, List.cons_append, List.append_assoc] at h
          exact absurd (eq_of_parenthesis hu hi (.inl rfl) (.inr rfl) (List.cons.inj h).2).2.1 (by decide)
  | char hc _ ih =>
      cases hx with
      | nil => exact fun h => hc.2 (List.cons.inj h).1
      | char _ hx => exact fun h => ih hx (List.cons.inj h).2
      | group => exact fun h => hc.1 (List.cons.inj h).1
  | group hi _ ih =>
      cases hx with
      | nil => exact fun h => absurd (List.cons.inj h).1 (by decide)
      | char hc _ => exact fun h => hc.1 (List.cons.inj h).1.symm
      | group hj hx =>
          intro h
          simp only [List.cons_append, List.append_assoc] at h
          exact ih hx (eq_of_parenthesis hi hj (.inr rfl) (.inr rfl) (List.cons.inj h).2).2.2

theorem reads_group (h : Shallow t) (v : Text) :
    (literal "(" ++ shallowText ++ literal ")" : SqlPattern).Reads ('(' :: (t ++ [')'])) v [] := by
  rw [reads_assoc]
  exact (reads_literal "(" _).seq ((h.reads v).seq (reads_literal ")" v))

theorem of_mem_readings {before : Option Char} {r : Match Part} (hr : r ∈ shallowText.readings before t) :
    Shallow r.read := by
  refine rounds_closed (P := fun r : Match Part => Shallow r.read) (fun _ => .nil) (fun _ _ hr hs => hr.append hs)
    (fun before t r hr => ?_) _ _ _ r hr
  have hother : ∀ {c : Char}, noneOf ['(', ')'] c → c ≠ '(' ∧ c ≠ ')' := fun h => by simpa [noneOf] using h
  rcases List.mem_append.mp hr with hr | hr
  · obtain ⟨c, hc, -, hread, -⟩ := mem_readings_one hr
    rw [hread]
    exact .char (hother hc) .nil
  · obtain ⟨a, ha, b, hb, rfl⟩ := mem_readings_seq.mp hr
    obtain ⟨o, ho, i, hi, rfl⟩ := mem_readings_seq.mp ha
    have hinside : ∀ c ∈ i.read, c ≠ '(' ∧ c ≠ ')' := fun c hc => hother ((mem_readings_run.mp hi).2.2 c hc)
    have hgroup : Shallow ('(' :: (i.read ++ ')' :: [])) := .group hinside .nil
    simpa [(mem_readings_literal.mp ho).2.1, (mem_readings_literal.mp hb).2.1] using hgroup

end Shallow

/-- What starts with no such text in parentheses is not read as one. -/
theorem rejects_group (h : ∀ u v, Shallow u → t ≠ '(' :: (u ++ ')' :: v)) :
    (literal "(" ++ shallowText ++ literal ")" : SqlPattern).Rejects t := by
  intro before
  rw [Option.eq_none_iff_forall_ne_some]
  intro r hr
  obtain ⟨a, ha, b, hb, rfl⟩ := mem_readings_seq.mp (mem_of_read? hr)
  obtain ⟨o, ho, i, hi, rfl⟩ := mem_readings_seq.mp ha
  obtain ⟨-, hopen, hbehind⟩ := mem_readings_literal.mp ho
  obtain ⟨-, hclose, hrest⟩ := mem_readings_literal.mp hb
  have hinner : i.read ++ i.rest = o.rest := readings_text _ _ _ i hi
  have hend : b.read ++ b.rest = i.rest := hrest
  refine h i.read b.rest (.of_mem_readings hi) ?_
  rw [← hbehind, ← hinner, ← hend, hopen, hclose]
  rfl

end SchemaDump
