import SchemaDump.Definition.DefaultValue
import SchemaDump.Proofs.Pattern.Find
import SchemaDump.Proofs.PostgreSQL.ColumnDefinition
/- A default is read as the content of its literal. Casts are taken off from the end one by one; what
looks like a cast in the literal stays, since no cast reaches over the closing quote. -/
namespace SchemaDump.PostgreSQL
open SqlPattern Pattern

variable {before : Option Char} {t u v : Text}

def isCastChar (c : Char) : Bool := isWordChar c || isBlank c || c == '.' || c == '"'

def castNumbers : SqlPattern :=
  literal "(" ++ gap ++ run1 isDecimalDigit .longest ++
    maybe (gap ++ literal "," ++ gap ++ run1 isDecimalDigit .longest) ++ gap ++ literal ")"

def castTail : SqlPattern :=
  gap ++ (run1 isCastChar .longest ++ (maybe castNumbers ++ (many (literal "[]") ++ (gap ++ textEnd))))

theorem readings_trailingCast (before : Option Char) (t : Text) :
    trailingCast.readings before t = (literal "::" ++ castTail).readings before t := by
  simp only [trailingCast, readings_seq_assoc]
  rfl

/-- Colons open a cast only if no further colon and no quote stands behind them. -/
theorem exists_of_read?_trailingCast (h : trailingCast.read? before t ≠ none) :
    ∃ z, t = ':' :: ':' :: z ∧ ':' ∉ z ∧ '\'' ∉ z := by
  obtain ⟨r, hr⟩ := Option.ne_none_iff_exists'.mp h
  have hmem := mem_of_read? hr
  have hrest : r.rest = [] := rest_of_mem_readings_textEnd hmem
  have htext := read?_text hr
  rw [readings_trailingCast] at hmem
  obtain ⟨a, ha, b, hb, rfl⟩ := mem_readings_seq.mp hmem
  obtain ⟨-, hcolons, -⟩ := mem_readings_literal.mp ha
  rw [hrest, List.append_nil, Match.andThen_read, hcolons] at htext
  exact ⟨b.read, htext.symm, not_mem_read hb (by decide), not_mem_read hb (by decide)⟩

theorem consumes_trailingCast : trailingCast.Consumes := consumes_of_not_nullable rfl

/-- In front of a cast no other one reaches to the end. -/
theorem silent_trailingCast (u w : Text) : trailingCast.Silent before u (':' :: ':' :: w) := by
  rw [silent_iff]
  intro x y _ hy
  cases hr : trailingCast.read? (lastOf before x) (y ++ ':' :: ':' :: w) with
  | none => rfl
  | some r =>
      exfalso
      obtain ⟨z, hz, hcolon, -⟩ := exists_of_read?_trailingCast (by rw [hr]; exact Option.some_ne_none r)
      apply hcolon
      cases y with
      | nil => exact absurd rfl hy
      | cons c y =>
          obtain ⟨-, hz⟩ := List.cons.inj hz
          cases y with
          | nil =>
              obtain ⟨-, rfl⟩ := List.cons.inj hz
              exact List.mem_cons_self
          | cons d y =>
              obtain ⟨-, rfl⟩ := List.cons.inj hz
              simp

/-- No cast reaches over the closing quote of a literal. -/
theorem silent_trailingCast_closed : trailingCast.Silent before (u ++ ['\'']) [] := by
  rw [silent_iff]
  intro x y hxy hy
  cases hr : trailingCast.read? (lastOf before x) (y ++ []) with
  | none => rfl
  | some r =>
      exfalso
      obtain ⟨z, hz, -, hquote⟩ := exists_of_read?_trailingCast (by rw [hr]; exact Option.some_ne_none r)
      rw [List.append_nil] at hz
      have hlast : (x ++ y).getLast? = some '\'' := by rw [← hxy, List.getLast?_concat]
      have hsplit : x ++ y = (x ++ [':', ':']) ++ z := by rw [hz, List.append_assoc]; rfl
      rw [hsplit, List.getLast?_append] at hlast
      cases hz' : z.getLast? with
      | none =>
          rw [hz', Option.none_or, List.getLast?_append] at hlast
          exact absurd (Option.some.inj hlast) (by decide)
      | some c =>
          rw [hz', Option.some_or] at hlast
          exact hquote (Option.some.inj hlast ▸ List.mem_of_getLast? hz')

def castScale : SqlPattern := gap ++ literal "," ++ gap ++ run1 isDecimalDigit .longest

end SchemaDump.PostgreSQL
