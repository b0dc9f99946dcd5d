import SchemaDump.Proofs.PostgreSQL.Addition
/- The keys that statements add. A statement is read by the pattern for keys of its kind, up to the last
parenthesis of the key, and not by the other one. -/
namespace SchemaDump.PostgreSQL
open SqlPattern Pattern

variable {before : Option Char} {t u v : Text}

inductive KeyKind
  | primaryKey
  | foreignKey
  deriving DecidableEq

namespace KeyKind

def word : KeyKind → String
  | primaryKey => "PRIMARY"
  | foreignKey => "FOREIGN"

def pattern : KeyKind → SqlPattern
  | primaryKey => addedPrimaryKey
  | foreignKey => addedForeignKey

/-- The pattern of the statements that add them. -/
def statement (kind : KeyKind) : SqlPattern := alterTable ++ part .constraint kind.pattern

theorem statement_primaryKey : primaryKey.statement = alterPrimaryKey := rfl

theorem statement_foreignKey : foreignKey.statement = alterForeignKey := rfl

variable {kind other : KeyKind}

theorem opens_statement (kind : KeyKind) : Form.alteration.Opens kind.statement := by
  cases kind with
  | primaryKey => exact Form.opens_alterPrimaryKey
  | foreignKey => exact Form.opens_alterForeignKey

theorem rejects_pattern (hname : (keyword "CONSTRAINT" : SqlPattern).Rejects t)
    (hword : (keyword kind.word : SqlPattern).Rejects t) : kind.pattern.Rejects t := by
  cases kind with
  | primaryKey =>
      simp only [pattern, addedPrimaryKey, rejects_assoc]
      exact Constraint.rejects_keyDefinition hname hword
  | foreignKey =>
      simp only [pattern, addedForeignKey, rejects_assoc]
      exact Constraint.rejects_keyDefinition hname hword

theorem opensKey (kind : KeyKind) : OpensKey kind.pattern := by
  have hword : (∀ c ∈ kind.word.toList, c.isAlpha) ∧
      (keyword kind.word : SqlPattern).nullable = false ∧ clashes kind.word.toList "ADD".toList := by
    cases kind <;> decide
  obtain ⟨hletters, hnull, hclash⟩ := hword
  have hblank : ∀ {word : String} {c : Char} {t : Text}, (∀ d ∈ word.toList, d.isAlpha) →
      (keyword word : SqlPattern).nullable = false → isBlank c →
        (keyword word : SqlPattern).Rejects (c :: t) := fun hletters hnull hc =>
    .of_starts hnull (stops_cons.mpr (starts_keyword_eq_false hletters (isWordChar_eq_false_of_isBlank hc)))
  refine ⟨fun c hc t => ?_, fun word t => ?_⟩
  · exact rejects_pattern (hblank (by decide) rfl hc) (hblank hletters hnull hc)
  · exact rejects_pattern (word.rejects (by decide) (by decide) (by decide) t)
      (word.rejects hletters (by decide) hclash t)

theorem exists_kindOpening {r : Match Part} (hr : r ∈ kind.pattern.readings before t) :
    ∃ s, s ∈ (kindOpening kind.word).readings before t := by
  cases kind with
  | primaryKey =>
      simp only [pattern, addedPrimaryKey, readings_seq_assoc] at hr
      exact SqlPattern.exists_kindOpening hr
  | foreignKey =>
      simp only [pattern, addedForeignKey, readings_seq_assoc] at hr
      exact SqlPattern.exists_kindOpening hr

theorem rejects_of_reads {ps : List (Part × Text)} (hne : kind ≠ other)
    (h : kind.pattern.Reads u v ps) : other.pattern.Rejects (u ++ v) := by
  intro before
  cases hread : other.pattern.read? before (u ++ v) with
  | none => rfl
  | some r =>
      obtain ⟨s, hs⟩ := exists_kindOpening (mem_of_read? hread)
      obtain ⟨s', hs'⟩ := exists_kindOpening (mem_of_read? (h before))
      cases kind <;> cases other
      · exact absurd rfl hne
      · exact (kindOpening_disjoint hs' hs).elim
      · exact (kindOpening_disjoint hs hs').elim
      · exact absurd rfl hne

end KeyKind

theorem reads_addedPrimaryKey {name : Option Text} {columns : Text} (hname : ∀ n ∈ name, IsIdentifier n)
    (hcolumns : ∀ c ∈ columns, c ≠ ';' ∧ c ≠ ')') (v : Text) :
    addedPrimaryKey.Reads (primaryKeyText name columns) v [] := by
  have hlist : (run (· != ';') .shortest ++ literal ")" : SqlPattern).Reads (columns ++ [')']) v [] := by
    refine reads_shortest_run (fun c hc => bne_iff_ne.mpr (hcolumns c hc).1) (fun before => ?_)
      (reads_literal ")" v)
    refine silent_of_starts rfl fun c hc => ?_
    simp [literal, (hcolumns c hc).2]
  have hopen : (literal "(" : SqlPattern).Reads ['('] ((columns ++ [')']) ++ v) [] := reads_literal "(" _
  have hgap : ∀ w, (gap : SqlPattern).Reads [' '] ('(' :: w) [] :=
    fun w => reads_gap (stops_cons.mpr (by decide))
  have hphrase : ∀ w, (phrase ["PRIMARY", "KEY"] : SqlPattern).Reads
      (spacedWords ["PRIMARY", "KEY"]) w [] := fun w => reads_phrase (by decide) (by decide) w
  have hopening : ∀ w, constraintName.Reads (namedText name)
      ((spacedWords ["PRIMARY", "KEY"] ++ w) ++ v) [] :=
    fun w => reads_constraintName hname (stops_cons.mpr (by decide)) (stops_cons.mpr (by decide))
  have hkey := (hphrase _).seq ((hgap _).seq (hopen.seq hlist))
  have hall := (hopening _).seq hkey
  simp only [addedPrimaryKey, reads_assoc]
  exact hall

theorem reads_addedForeignKey {name : Option Text} {columns space references : Text} (table : Target)
    (hname : ∀ n ∈ name, IsIdentifier n) (hcolumns : ∀ c ∈ columns, c ≠ ';' ∧ c ≠ ')')
    (hspace : ∀ c ∈ space, isBlank c) (hreferences : ∀ c ∈ references, c ≠ ';' ∧ c ≠ ')') (v : Text) :
    addedForeignKey.Reads (foreignKeyText name columns table.text space references) v [] := by
  have hrun : ∀ {list : Text}, (∀ c ∈ list, c ≠ ';' ∧ c ≠ ')') → ∀ w,
      (run (noneOf [';', ')']) .longest : SqlPattern).Reads list (')' :: w) [] := fun hlist w =>
    reads_run (fun c hc => by simp [noneOf, hlist c hc]) (stops_cons.mpr (by decide))
  have hopen : ∀ w, (literal "(" : SqlPattern).Reads ['('] w [] := fun w => reads_literal "(" w
  have hclose : ∀ w, (literal ")" : SqlPattern).Reads [')'] w [] := fun w => reads_literal ")" w
  have hgap : ∀ c w, isBlank c = false → (gap : SqlPattern).Reads [' '] (c :: w) [] :=
    fun c w hc => reads_gap (stops_cons.mpr hc)
  have hgapped : ∀ w, (gap : SqlPattern).Reads space ('(' :: w) [] :=
    fun w => reads_run hspace (stops_cons.mpr (by decide))
  have htarget : ∀ w, qualified.Reads table.text ((space ++ '(' :: w) ++ v) [] := by
    intro w
    rw [List.append_assoc]
    cases space with
    | nil => exact table.isQualified _ (stops_cons.mpr (by decide)) (stops_cons.mpr (by decide))
    | cons c space =>
        have hblank : BlankAhead (c :: space ++ ('(' :: w ++ v)) := by
          intro hstops
          rw [List.cons_append, stops_cons, hspace c List.mem_cons_self] at hstops
          cases hstops
        exact table.isQualified _ hblank.stopsBare hblank.stopsDot
  have hbefore : ∀ w, (blanks : SqlPattern).Reads [' '] ((table.text ++ w) ++ v) [] := by
    intro w
    rw [List.append_assoc]
    exact reads_blanks (table.isQualified.stops _)
  have hopening : ∀ w, constraintName.Reads (namedText name)
      ((spacedWords ["FOREIGN", "KEY"] ++ w) ++ v) [] :=
    fun w => reads_constraintName hname (stops_cons.mpr (by decide)) (stops_cons.mpr (by decide))
  have hphrase : ∀ w, (phrase ["FOREIGN", "KEY"] : SqlPattern).Reads
      (spacedWords ["FOREIGN", "KEY"]) w [] := fun w => reads_phrase (by decide) (by decide) w
  have hreferenced := (hopen _).seq ((hrun hreferences v).seq (hclose v))
  have htable := (hbefore _).seq ((htarget _).seq ((hgapped _).seq hreferenced))
  have hkeyword := (hgap 'R' _ (by decide)).seq ((reads_keyword "REFERENCES" _).seq htable)
  have hlisted := (hopen _).seq ((hrun hcolumns _).seq ((hclose _).seq hkeyword))
  have hall := (hopening _).seq ((hphrase _).seq ((hgap '(' _ (by decide)).seq hlisted))
  simp only [addedForeignKey, reads_assoc]
  exact hall

namespace KeyClause

variable (k : KeyClause)

def kind : KeyKind :=
  match k.key with
  | .primaryKey _ _ _ => .primaryKey
  | .foreignKey _ _ _ _ _ _ _ _ => .foreignKey

theorem nameList_closed (spaced : Bool) (names : List Name) :
    ∀ c ∈ nameList spaced names, c ≠ ';' ∧ c ≠ ')' := fun c hc =>
  ⟨ne_of_mem_nameList hc (by decide) (by decide), ne_of_mem_nameList hc (by decide) (by decide)⟩

theorem reads_keyText (v : Text) : k.kind.pattern.Reads k.keyText v [] := by
  rw [keyText, kind]
  cases k.key with
  | primaryKey spaced columns _ =>
      exact reads_addedPrimaryKey (isIdentifier_of_mem _) (nameList_closed spaced columns) v
  | foreignKey spaced columns _ table space references _ suffix =>
      have hspace : ∀ c ∈ spaceText space, isBlank c := by cases space <;> decide
      exact reads_addedForeignKey table (isIdentifier_of_mem _) (nameList_closed spaced columns) hspace
        (nameList_closed spaced references) v

theorem exists_firstWord :
    ∃ word ∈ ["CONSTRAINT", "PRIMARY", "FOREIGN"], ∃ t, k.keyText = word.toList ++ t := by
  rw [keyText]
  cases k.constraintName with
  | some n =>
      refine ⟨"CONSTRAINT", by decide, ?_⟩
      cases k.key with
      | primaryKey => exact ⟨_, List.append_assoc _ _ _⟩
      | foreignKey => exact ⟨_, List.append_assoc _ _ _⟩
  | none =>
      cases k.key with
      | primaryKey => exact ⟨"PRIMARY", by decide, _, List.append_assoc _ _ _⟩
      | foreignKey => exact ⟨"FOREIGN", by decide, _, List.append_assoc _ _ _⟩

theorem stops_keyText (v : Text) :
    Stops isBlank (k.keyText ++ v) ∧ (keyword "ADD" : SqlPattern).Rejects (k.keyText ++ v) := by
  have hwords : ∀ word ∈ ["CONSTRAINT", "PRIMARY", "FOREIGN"], word.toList ≠ [] ∧
      Stops isBlank word.toList ∧ clashes "ADD".toList word.toList := by decide
  obtain ⟨word, hword, t, ht⟩ := k.exists_firstWord
  obtain ⟨hne, hblank, hclash⟩ := hwords word hword
  rw [ht, List.append_assoc]
  exact ⟨stops_append hne hblank _, .of_clash hclash _⟩

end KeyClause

namespace Alteration

variable (a : Alteration) {kind : KeyKind}

theorem reads_statement (v : Text) :
    a.clause.kind.statement.Reads (a.opening ++ a.clause.keyText) v
      [(Part.constraint, a.clause.keyText), (Part.table, a.target.text)] := by
  obtain ⟨hstops, hadd⟩ := a.clause.stops_keyText v
  exact a.reads_opening (a.clause.reads_keyText v) hstops hadd

theorem rejects_statement (h : a.clause.kind ≠ kind) (v : Text) :
    kind.statement.Rejects (a.text ++ v) := by
  have hkey := KeyKind.rejects_of_reads h (a.clause.reads_keyText (a.clause.suffixText ++ ';' :: v))
  obtain ⟨hstops, hadd⟩ := a.clause.stops_keyText (a.clause.suffixText ++ ';' :: v)
  have hall := a.rejects_opening hstops hadd kind.opensKey hkey
  have htext : a.text ++ v = a.opening ++ (a.clause.keyText ++ (a.clause.suffixText ++ ';' :: v)) := by
    simp only [text, KeyClause.text, List.append_assoc, List.cons_append, List.nil_append]
  rw [htext]
  exact hall

/-- A statement that adds a key of one kind adds none of the other. -/
theorem silent_statement (h : a.clause.kind ≠ kind) : kind.statement.Silent before a.text v := by
  have hfirst := a.rejects_statement h v
  rw [a.text_eq] at hfirst ⊢
  have hletters : "ALTER".toList = 'A' :: "LTER".toList := by decide
  have hspelling : hasSpelling Form.alteration.word "LTER".toList = false := by decide
  have hrest : ∀ before, kind.statement.Silent before "LTER".toList (a.rest ++ v) := fun before =>
    kind.opens_statement.silent_fixed hspelling (.inl (stops_cons.mpr (by decide)))
  have hword : kind.statement.Silent before "ALTER".toList (a.rest ++ v) := by
    rw [hletters, List.append_assoc] at hfirst
    rw [hletters]
    exact silent_cons.mpr ⟨hfirst before, hrest _⟩
  exact hword.append (a.silent_rest kind.opens_statement)

theorem silent_end : kind.statement.Silent before (a.clause.suffixText ++ [';']) v :=
  (kind.opens_statement.silent_suffixText a.clause (stops_cons.mpr (by decide))).append
    (kind.opens_statement.silent_marks (by decide))

theorem text_split : a.text = (a.opening ++ a.clause.keyText) ++ (a.clause.suffixText ++ [';']) := by
  simp only [text, KeyClause.text, List.append_assoc]

end Alteration

end SchemaDump.PostgreSQL
