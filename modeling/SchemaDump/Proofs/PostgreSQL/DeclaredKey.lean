import SchemaDump.Proofs.PostgreSQL.AddedKey
import SchemaDump.Proofs.PostgreSQL.SpelledWord
import SchemaDump.Proofs.PostgreSQL.Spelling
/- Keys as definitions and statements may declare them: with keywords in any letter case, any blanks
between them and tables in any spelling. Each is read back with its columns and the table it names. -/
namespace SchemaDump.PostgreSQL
open SqlPattern Pattern

variable {t u v w : Text} {p q : SqlPattern} {ps qs : List (Part × Text)}

/-- The name of a constraint in front of what it says. -/
structure ConstraintNaming where
  word : KeywordText "CONSTRAINT"
  behind : Spacing
  name : Text
  isName : IsIdentifier name
  after : Spacing

namespace ConstraintNaming

def text (n : ConstraintNaming) : Text := n.word.text ++ (n.behind.text ++ (n.name ++ n.after.text))

theorem reads (n : ConstraintNaming) (hv : Stops isBlank v) : nameClause.Reads n.text v [] := by
  have hname : identifier.Reads n.name (n.after.text ++ v) [] :=
    n.isName _ (n.after.stops (fun _ => isBareChar_eq_false_of_isBlank) v)
  have hbehind : (blanks : SqlPattern).Reads n.behind.text ((n.name ++ n.after.text) ++ v) [] := by
    rw [List.append_assoc]
    exact n.behind.reads (n.isName.stops _)
  have hall := (n.word.reads _).seq (hbehind.seq (hname.seq (n.after.reads hv)))
  simp only [nameClause, reads_assoc]
  exact hall

def textOf : Option ConstraintNaming → Text
  | none => []
  | some n => n.text

theorem reads_textOf (n : Option ConstraintNaming) (hv : Stops isBlank v) (hletter : Stops (sameLetter 'C') v) :
    constraintName.Reads (textOf n) v [] := by
  cases n with
  | some n => exact (n.reads hv).maybe
  | none =>
      have hkeyword : (keyword "CONSTRAINT" : SqlPattern).Rejects v := .keyword rfl hletter
      have hclause : nameClause.Rejects v := by
        rw [nameClause]
        exact ((hkeyword.seq _).seq _).seq _
      exact reads_missing hclause

end ConstraintNaming

/-- A list of columns between parentheses, with a name in it. -/
structure ColumnList where
  text : Text
  closed : ∀ c ∈ text, c ≠ ')'
  named : splitIdentifiers text ≠ []

namespace ColumnList

variable (l : ColumnList)

theorem text_ne_nil : l.text ≠ [] := by
  intro hnil
  have hnamed := l.named
  rw [hnil] at hnamed
  exact hnamed rfl

theorem reads (v : Text) : (run (· != ')') .longest : SqlPattern).Reads l.text (')' :: v) [] :=
  reads_run (fun c hc => bne_iff_ne.mpr (l.closed c hc)) (stops_cons.mpr (by decide))

theorem reads_nonempty (v : Text) : (run1 (· != ')') .longest : SqlPattern).Reads l.text (')' :: v) [] :=
  reads_run1 l.text_ne_nil (fun c hc => bne_iff_ne.mpr (l.closed c hc)) (stops_cons.mpr (by decide))

/-- In a statement that adds a key no semicolon may stand between the parentheses. -/
theorem reads_noneOf (h : ∀ c ∈ l.text, c ≠ ';') (v : Text) :
    (run (noneOf [';', ')']) .longest : SqlPattern).Reads l.text (')' :: v) [] :=
  reads_run (fun c hc => by simp [noneOf, h c hc, l.closed c hc]) (stops_cons.mpr (by decide))

end ColumnList

/-- A table and a list of its columns behind the word that refers to them. -/
theorem reads_reference (word : KeywordText "REFERENCES") (behind : Spacing) {table list : Text}
    (hqualified : IsQualified table) (space : Indent)
    (htable : ∀ w, qualified.Reads table w [] → p.Reads table w ps) (hlist : q.Reads list (')' :: v) qs) :
    (keyword "REFERENCES" ++ (blanks ++ (p ++ (gap ++ (literal "(" ++ (q ++ literal ")"))))) : SqlPattern).Reads
      (word.text ++ (behind.text ++ (table ++ (space.text ++ '(' :: (list ++ [')']))))) v (qs ++ ps) := by
  have hopen : ∀ w, (literal "(" : SqlPattern).Reads ['('] w [] := fun w => reads_literal "(" w
  have hspace : ∀ w, (gap : SqlPattern).Reads space.text ('(' :: w) [] :=
    fun w => space.reads (stops_cons.mpr (by decide))
  have htarget : ∀ w, qualified.Reads table ((space.text ++ '(' :: w) ++ v) [] := by
    intro w
    rw [List.append_assoc]
    refine hqualified _ (space.stops (fun _ => isBareChar_eq_false_of_isBlank) (stops_cons.mpr (by decide)))
      (space.stops (fun c hc => beq_eq_false_iff_ne.mpr ?_) (stops_cons.mpr (by decide)))
    rintro rfl
    exact absurd hc (by decide)
  have hbehind : ∀ w, (blanks : SqlPattern).Reads behind.text ((table ++ w) ++ v) [] := by
    intro w
    rw [List.append_assoc]
    exact behind.reads (hqualified.stops _)
  have hcolumns := hlist.seq (reads_literal ")" v)
  have hnamed := (htable _ (htarget _)).seq ((hspace _).seq ((hopen _).seq hcolumns))
  have hparts : qs ++ ps = [] ++ qs ++ [] ++ [] ++ ps ++ [] ++ [] := by simp
  rw [hparts]
  exact (word.reads _).seq ((hbehind _).seq hnamed)

/-- The table and the columns that a key refers to. -/
structure ReferenceClause where
  word : KeywordText "REFERENCES"
  behind : Spacing
  target : Spelling
  space : Indent
  columns : ColumnList

namespace ReferenceClause

variable (r : ReferenceClause)

def text : Text :=
  r.word.text ++ (r.behind.text ++ (r.target.text ++ (r.space.text ++ '(' :: (r.columns.text ++ [')']))))

theorem stops_blank (v : Text) : Stops isBlank (r.text ++ v) := by
  rw [text, List.append_assoc]
  exact r.word.stops_blank rfl (by decide) _

/-- The table of a reference is read as it is spelled, whatever stands behind the list of columns. -/
theorem reads (htable : ∀ w, qualified.Reads r.target.text w [] → p.Reads r.target.text w ps)
    (hlist : q.Reads r.columns.text (')' :: v) qs) :
    (keyword "REFERENCES" ++ (blanks ++ (p ++ (gap ++ (literal "(" ++ (q ++ literal ")"))))) : SqlPattern).Reads
      r.text v (qs ++ ps) :=
  reads_reference r.word r.behind r.target.isQualified r.space htable hlist

end ReferenceClause

/-- What opens a key: the name that it may have and the words for its kind. -/
structure KeyOpening (kind : KeyKind) where
  naming : Option ConstraintNaming
  first : SpacedWord kind.word
  key : KeywordText "KEY"
  space : Indent

namespace KeyOpening

variable {kind : KeyKind} (o : KeyOpening kind)

def words : Text := o.first.text ++ (o.key.text ++ o.space.text)

def text : Text := ConstraintNaming.textOf o.naming ++ o.words

theorem stops_words {accepts : Char → Bool} (hprimary : ∀ c, sameLetter 'P' c → accepts c = false)
    (hforeign : ∀ c, sameLetter 'F' c → accepts c = false) (v : Text) : Stops accepts (o.words ++ v) := by
  rw [words, SpacedWord.text, List.append_assoc, List.append_assoc]
  cases kind with
  | primaryKey => exact o.first.keyword.stops rfl hprimary _
  | foreignKey => exact o.first.keyword.stops rfl hforeign _

theorem stops_text {accepts : Char → Bool} (hname : ∀ c, sameLetter 'C' c → accepts c = false)
    (hprimary : ∀ c, sameLetter 'P' c → accepts c = false)
    (hforeign : ∀ c, sameLetter 'F' c → accepts c = false) (v : Text) : Stops accepts (o.text ++ v) := by
  rw [text, List.append_assoc]
  cases o.naming with
  | none => exact o.stops_words hprimary hforeign v
  | some n =>
      rw [ConstraintNaming.textOf, ConstraintNaming.text, List.append_assoc]
      exact n.word.stops rfl hname _

theorem stops_blank (v : Text) : Stops isBlank (o.text ++ v) := by
  have hletter : ∀ {letter : Char}, letter.isAlpha → ∀ c, sameLetter letter c → isBlank c = false :=
    fun hletter _ h => isBlank_eq_false_of_isWordChar (isWordChar_of_sameLetter hletter h)
  exact o.stops_text (hletter (by decide)) (hletter (by decide)) (hletter (by decide)) v

theorem rejects_add (v : Text) : (keyword "ADD" : SqlPattern).Rejects (o.text ++ v) := by
  have hletter : ∀ {letter : Char}, letter.isAlpha → letter.toLower ≠ 'A'.toLower →
      ∀ c, sameLetter letter c → sameLetter 'A' c = false :=
    fun hletter hne _ h => sameLetter_eq_false_of_ne hletter (by decide) hne h
  exact .keyword rfl (o.stops_text (hletter (by decide) (by decide)) (hletter (by decide) (by decide))
    (hletter (by decide) (by decide)) v)

theorem reads_seq (hsolid : Stops isBlank (u ++ v)) (h : q.Reads u v ps) :
    (constraintName ++ (phrase [kind.word, "KEY"] ++ (gap ++ q))).Reads (o.text ++ u) v ps := by
  have hblank : Stops isBlank (o.words ++ (u ++ v)) := by
    have hletter : ∀ {letter : Char}, letter.isAlpha → ∀ c, sameLetter letter c → isBlank c = false :=
      fun hletter _ h => isBlank_eq_false_of_isWordChar (isWordChar_of_sameLetter hletter h)
    exact o.stops_words (hletter (by decide)) (hletter (by decide)) _
  have hletter : Stops (sameLetter 'C') (o.words ++ (u ++ v)) :=
    o.stops_words (fun _ => sameLetter_eq_false_of_ne (by decide) (by decide) (by decide))
      (fun _ => sameLetter_eq_false_of_ne (by decide) (by decide) (by decide)) _
  have hspace := (o.key.reads _).seq ((o.space.reads hsolid).seq h)
  have hkey : Stops isBlank ((o.key.text ++ (o.space.text ++ u)) ++ v) := by
    rw [List.append_assoc]
    exact o.key.stops_blank rfl (by decide) _
  have hphrase : (phrase [kind.word, "KEY"] ++ (gap ++ q)).Reads (o.first.text ++ (o.key.text ++ (o.space.text ++ u)))
      v ps := by
    have hwords : (phrase [kind.word, "KEY"] : SqlPattern) = keyword kind.word ++ blanks ++ keyword "KEY" := rfl
    rw [hwords, reads_assoc, reads_assoc]
    exact o.first.reads_seq hkey (by simpa only [List.append_nil] using hspace)
  have hname : constraintName.Reads (ConstraintNaming.textOf o.naming)
      ((o.first.text ++ (o.key.text ++ (o.space.text ++ u))) ++ v) [] := by
    apply ConstraintNaming.reads_textOf
    · simpa only [words, List.append_assoc] using hblank
    · simpa only [words, List.append_assoc] using hletter
  have hall := hname.seq hphrase
  simpa only [text, words, List.append_assoc, List.append_nil] using hall

/-- A key is told from a column by its first word. -/
theorem opensConstraint_text {d : Dialect} (v : Text) : opensConstraint d (o.text ++ v) = true := by
  have hstop : ∀ (b : Spacing) w, Stops isWordChar (b.text ++ w) :=
    fun b w => b.stops (fun _ => isWordChar_eq_false_of_isBlank) w
  have hkind : kind.word ∈ constraintWords := by cases kind <;> decide
  rw [text]
  cases o.naming with
  | none =>
      simp only [ConstraintNaming.textOf, words, SpacedWord.text, List.nil_append, List.append_assoc]
      exact opensConstraint_spelled hkind o.first.keyword.spelled (hstop o.first.behind _)
  | some n =>
      simp only [ConstraintNaming.textOf, ConstraintNaming.text, List.append_assoc]
      exact opensConstraint_spelled (by decide) n.word.spelled (hstop n.behind _)

theorem trimmed_text (u : Text) : Trimmed (o.text ++ (u ++ [')'])) := by
  have hclose : EndsSolid [')'] := by decide
  rw [← List.append_assoc]
  refine (hclose.behind (by decide) (o.text ++ u)).trimmed ?_
  rw [List.append_assoc]
  exact o.stops_blank _

end KeyOpening

/-- A foreign key in the body of a table or in a statement. -/
structure DeclaredKey where
  opening : KeyOpening .foreignKey
  columns : ColumnList
  gap : Indent
  reference : ReferenceClause

namespace DeclaredKey

variable (k : DeclaredKey)

def text : Text :=
  k.opening.text ++ '(' :: (k.columns.text ++ ')' :: (k.gap.text ++ k.reference.text))

/-- The key that is declared. Its table has the normalized name. -/
def list : ForeignKeyList where
  columns := splitIdentifiers k.columns.text
  referencesTable := Dialect.postgresql.normalizeName k.reference.target.text
  referencesColumns := splitIdentifiers k.reference.columns.text

theorem reads_lists {list reference : SqlPattern} (hlist : ∀ w, list.Reads k.columns.text (')' :: w) ps)
    (hreference : reference.Reads k.reference.text v qs) :
    (literal "(" ++ (list ++ (literal ")" ++ (Pattern.gap ++ reference))) : SqlPattern).Reads
      ('(' :: (k.columns.text ++ ')' :: (k.gap.text ++ k.reference.text))) v (qs ++ ps) := by
  have hopen : ∀ w, (literal "(" : SqlPattern).Reads ['('] w [] := fun w => reads_literal "(" w
  have hclose : ∀ w, (literal ")" : SqlPattern).Reads [')'] w [] := fun w => reads_literal ")" w
  have hgap : (Pattern.gap : SqlPattern).Reads k.gap.text (k.reference.text ++ v) [] :=
    k.gap.reads (k.reference.stops_blank v)
  have hparts : qs ++ ps = qs ++ [] ++ [] ++ ps ++ [] := by simp
  rw [hparts]
  exact (hopen _).seq ((hlist _).seq ((hclose _).seq (hgap.seq hreference)))

theorem reads_text (v : Text) : foreignKeyDefinition.Reads k.text v
    [(.references, k.reference.columns.text), (.table, k.reference.target.text),
      (.columns, k.columns.text)] := by
  have hmissing : ∀ w, (maybe (identifier ++ Pattern.gap)).Reads [] ('(' :: w) [] := by
    intro w
    have hid : identifier.Rejects ('(' :: w) := .of_starts (by decide) (stops_cons.mpr (by decide))
    exact reads_missing (hid.seq _)
  have hreference := k.reference.reads (fun _ h => h.part Part.table)
    ((k.reference.columns.reads_nonempty v).part Part.references)
  have hlists := (hmissing _).seq (k.reads_lists (fun w => (k.columns.reads_nonempty w).part Part.columns) hreference)
  have hall := k.opening.reads_seq (stops_cons.mpr (by decide)) hlists
  simp only [foreignKeyDefinition, reads_assoc]
  exact hall

theorem trimmed_text : Trimmed k.text := by
  have h := k.opening.trimmed_text ('(' :: (k.columns.text ++ ')' :: (k.gap.text ++ (k.reference.word.text ++
    (k.reference.behind.text ++ (k.reference.target.text ++ (k.reference.space.text ++ '(' ::
      k.reference.columns.text)))))))
  simpa only [text, ReferenceClause.text, List.append_assoc, List.cons_append] using h

/-- A foreign key is read back with the table that it names, whatever is said behind it. -/
theorem parse?_text (v : Text) : Constraint.parse? .postgresql (k.text ++ v) = some (.foreignKey k.list) := by
  have hne : k.text ≠ [] := List.append_ne_nil_of_right_ne_nil k.opening.text (List.cons_ne_nil _ _)
  exact Constraint.parse?_of_reads (k.trimmed_text.trim_append hne v) (k.reads_text v.trimEnd) k.columns.named
    k.reference.columns.named

theorem opensConstraint_text (v : Text) : opensConstraint .postgresql (k.text ++ v) = true := by
  rw [text, List.append_assoc]
  exact k.opening.opensConstraint_text _

theorem stops_blank (v : Text) : Stops isBlank (k.text ++ v) := by
  rw [text, List.append_assoc]
  exact k.opening.stops_blank _

theorem rejects_add (v : Text) : (keyword "ADD" : SqlPattern).Rejects (k.text ++ v) := by
  rw [text, List.append_assoc]
  exact k.opening.rejects_add _

theorem reads_added (hcolumns : ∀ c ∈ k.columns.text, c ≠ ';')
    (hreferences : ∀ c ∈ k.reference.columns.text, c ≠ ';') (v : Text) : addedForeignKey.Reads k.text v [] := by
  have hreference := k.reference.reads (fun _ h => h) (k.reference.columns.reads_noneOf hreferences v)
  have hlists := k.reads_lists (k.columns.reads_noneOf hcolumns) hreference
  have hall := k.opening.reads_seq (stops_cons.mpr (by decide)) hlists
  simp only [addedForeignKey, reads_assoc]
  exact hall

end DeclaredKey

/-- A primary key in a statement. -/
structure DeclaredPrimaryKey where
  opening : KeyOpening .primaryKey
  columns : ColumnList
  plain : ∀ c ∈ columns.text, c ≠ '(' ∧ c ≠ ';'

namespace DeclaredPrimaryKey

variable (k : DeclaredPrimaryKey)

def text : Text := k.opening.text ++ '(' :: (k.columns.text ++ [')'])

theorem reads_text (v : Text) : primaryKeyDefinition.Reads k.text v [(.columns, k.columns.text)] := by
  have husing : (maybe (keyword "USING" ++ blanks ++ run1 isWordChar .longest ++ gap) : SqlPattern).Reads []
      (('(' :: (k.columns.text ++ [')'])) ++ v) [] := by
    have hkeyword : (keyword "USING" : SqlPattern).Rejects ('(' :: ((k.columns.text ++ [')']) ++ v)) :=
      .keyword rfl (stops_cons.mpr (by decide))
    exact reads_missing (((hkeyword.seq _).seq _).seq _)
  have hopen : (literal "(" : SqlPattern).Reads ['('] ((k.columns.text ++ [')']) ++ v) [] := reads_literal "(" _
  have hlist : shallowText.Reads k.columns.text (')' :: v) [] :=
    Shallow.reads (.of_forall fun c hc => ⟨(k.plain c hc).1, k.columns.closed c hc⟩) v
  have hlists := husing.seq (hopen.seq ((hlist.part Part.columns).seq (reads_literal ")" v)))
  have hall := k.opening.reads_seq (stops_cons.mpr (by decide)) hlists
  simp only [primaryKeyDefinition, reads_assoc]
  exact hall

theorem parse?_text :
    Constraint.parse? .postgresql k.text = some (.primaryKey (splitIdentifiers k.columns.text)) := by
  have htrim : k.text.trim = k.text := (k.opening.trimmed_text ('(' :: k.columns.text)).trim_eq
  exact Constraint.parse?_of_primaryReads (htrim.trans (List.append_nil _).symm) (k.reads_text []) k.columns.named

theorem stops_blank (v : Text) : Stops isBlank (k.text ++ v) := by
  rw [text, List.append_assoc]
  exact k.opening.stops_blank _

theorem rejects_add (v : Text) : (keyword "ADD" : SqlPattern).Rejects (k.text ++ v) := by
  rw [text, List.append_assoc]
  exact k.opening.rejects_add _

theorem reads_added (v : Text) : addedPrimaryKey.Reads k.text v [] := by
  have hlist : (run (· != ';') .shortest ++ literal ")" : SqlPattern).Reads (k.columns.text ++ [')']) v [] := by
    refine reads_shortest_run (fun c hc => bne_iff_ne.mpr (k.plain c hc).2) (fun before => ?_)
      (reads_literal ")" v)
    refine silent_of_starts rfl fun c hc => ?_
    simp [literal, k.columns.closed c hc]
  have hopen : (literal "(" : SqlPattern).Reads ['('] ((k.columns.text ++ [')']) ++ v) [] := reads_literal "(" _
  have hall := k.opening.reads_seq (stops_cons.mpr (by decide)) (hopen.seq hlist)
  simp only [addedPrimaryKey, reads_assoc]
  exact hall

end DeclaredPrimaryKey

end SchemaDump.PostgreSQL
