import SchemaDump.Dump.PostgreSQL
import SchemaDump.Proofs.Definition.ConstraintKind
import SchemaDump.Proofs.Pattern.Frame
import SchemaDump.Proofs.Schema.Draft
import SchemaDump.Proofs.Text.Trim
/- Statements that alter tables. One that adds a primary key adds nothing else, and so does one
that adds a foreign key. -/
namespace SchemaDump.PostgreSQL
open SqlPattern Pattern

/-- The constraint in a statement that adds a primary key. -/
def addedPrimaryKey : SqlPattern :=
  constraintName ++ phrase ["PRIMARY", "KEY"] ++ gap ++ literal "(" ++ run (· != ';') .shortest ++
    literal ")"

/-- The constraint in a statement that adds a foreign key. -/
def addedForeignKey : SqlPattern :=
  constraintName ++ phrase ["FOREIGN", "KEY"] ++ gap ++
    literal "(" ++ run (noneOf [';', ')']) .longest ++ literal ")" ++ gap ++
    keyword "REFERENCES" ++ blanks ++ qualified ++ gap ++
    literal "(" ++ run (noneOf [';', ')']) .longest ++ literal ")"

theorem alterPrimaryKey_eq : alterPrimaryKey = alterTable ++ part .constraint addedPrimaryKey := rfl

theorem alterForeignKey_eq : alterForeignKey = alterTable ++ part .constraint addedForeignKey := rfl

variable {p : SqlPattern} {sql : Text} {r : Match Part} {before : Option Char} {t : Text}

/-- The constraint of an alteration is a text that its pattern reads as a whole. -/
theorem exists_reading_of_mem_alterations {table : String} {constraint : Constraint}
    (hp : p.plain)
    (h : (table, constraint) ∈ alterations (alterTable ++ part .constraint p) sql) :
    ∃ r ∈ p.readings none r.read, r.rest = [] ∧
      Constraint.parse? .postgresql r.read = some constraint := by
  obtain ⟨o, ho, hparse⟩ := List.mem_filterMap.mp h
  obtain ⟨k, hk, hpair⟩ := Option.map_eq_some_iff.mp hparse
  obtain ⟨-, rfl⟩ := Prod.mk.inj hpair
  obtain ⟨v, -, hread⟩ := exists_of_mem_occurrences ho
  obtain ⟨a, -, b, hb, hab⟩ := mem_readings_seq.mp (mem_of_read? hread)
  obtain ⟨c, hc, rfl⟩ := List.mem_map.mp hb
  have hpart : o.part .constraint = c.read := by
    rw [Occurrence.part_eq, ← hab]
    rfl
  rw [← readings_text p _ _ c hc] at hc
  obtain ⟨s, hs, hext⟩ := exists_of_mem_readings_append hp hc (Nat.le_refl _)
  have hsread : s.read = c.read := by rw [← hext, Match.extend_read]
  rw [readings_before hp _ none] at hs
  refine ⟨s, hsread ▸ hs, ?_, ?_⟩
  · have hstext := readings_text p _ _ s hs
    rw [hsread] at hstext
    exact List.append_right_eq_self.mp hstext
  · rw [hsread, ← hpart]
    exact hk

/-- A constraint starts with a letter and ends with a parenthesis. -/
theorem trimmed_of_kindOpening {word : String} {q : SqlPattern} {s : Match Part}
    (hword : ∀ d ∈ word.toList, d.isAlpha) (hne : (keyword word : SqlPattern).nullable = false)
    (hs : s ∈ (kindOpening word).readings before r.read)
    (hr : r ∈ (q ++ literal ")").readings before t) : Trimmed r.read := by
  refine ⟨?_, ?_⟩
  · have hnull : (kindOpening word).nullable = false := by
      rw [kindOpening, append_eq_seq, nullable, hne, Bool.and_false]
    obtain ⟨c, u, hread, hstart⟩ := exists_head_of_mem hnull hs
    intro d hd
    rw [hread] at hd
    rw [← Option.some.inj hd]
    apply Bool.eq_false_iff.mpr
    intro hblank
    have hw := isWordChar_eq_false_of_isBlank hblank
    have hname : (keyword "CONSTRAINT" : SqlPattern).starts c = false :=
      starts_keyword_eq_false (by decide) hw
    have hkey : (keyword "CONSTRAINT" : SqlPattern).nullable = false := rfl
    simp [kindOpening, constraintName, maybe, append_eq_seq, starts, nullable, hname, hkey,
      starts_keyword_eq_false hword hw] at hstart
  · obtain ⟨a, -, b, hb, rfl⟩ := mem_readings_seq.mp hr
    intro c hc
    rw [Match.andThen_read, (mem_readings_literal.mp hb).2.1] at hc
    have hlast : (a.read ++ ")".toList).getLast? = some ')' := List.getLast?_concat
    rw [hlast] at hc
    rw [← Option.some.inj hc]
    decide

theorem foreignKeys_of_mem_alterations {table : String} {constraint : Constraint}
    (h : (table, constraint) ∈ alterations alterPrimaryKey sql) : constraint.foreignKeys = [] := by
  rw [alterPrimaryKey_eq] at h
  obtain ⟨r, hr, -, hparse⟩ := exists_reading_of_mem_alterations rfl h
  have hopen := hr
  simp only [addedPrimaryKey, readings_seq_assoc] at hopen
  obtain ⟨s, hs⟩ := exists_kindOpening hopen
  apply Constraint.foreignKeys_of_parse? hparse
  rw [(trimmed_of_kindOpening (by decide) rfl hs hr).trim_eq]
  exact hs

/-- A statement that adds a foreign key adds nothing else. -/
theorem primaryColumns_of_mem_alterations {table : String} {constraint : Constraint}
    (h : (table, constraint) ∈ alterations alterForeignKey sql) :
    constraint.primaryColumns = [] := by
  rw [alterForeignKey_eq] at h
  obtain ⟨r, hr, -, hparse⟩ := exists_reading_of_mem_alterations rfl h
  have hopen := hr
  simp only [addedForeignKey, readings_seq_assoc] at hopen
  obtain ⟨s, hs⟩ := exists_kindOpening hopen
  apply Constraint.primaryColumns_of_parse? hparse
  rw [(trimmed_of_kindOpening (by decide) rfl hs hr).trim_eq]
  exact hs

end SchemaDump.PostgreSQL
