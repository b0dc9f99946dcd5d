import SchemaDump.Proofs.Dump.ListedColumn
import SchemaDump.Proofs.PostgreSQL.DeclaredKey
/- Lines that declare keys, as both dialects write them. A constraint may have a name, a primary key the method of
its index, a foreign key the name of its index, and anything may be said behind a key. -/
namespace SchemaDump
open SqlPattern Pattern
open PostgreSQL (Word Indent Spacing SpacedWord KeywordText KeyOpening)

/-- How the index of a primary key is built. -/
structure IndexMethod where
  word : SpacedWord "USING"
  method : Word
  space : Indent

namespace IndexMethod

def textOf : Option IndexMethod → Text
  | none => []
  | some m => m.word.text ++ (m.method.text ++ m.space.text)

theorem reads_textOf (m : Option IndexMethod) (v : Text) :
    (maybe (keyword "USING" ++ blanks ++ run1 isWordChar .longest ++ gap) : SqlPattern).Reads (textOf m)
      ('(' :: v) [] := by
  cases m with
  | none =>
      have hkeyword : (keyword "USING" : SqlPattern).Rejects ('(' :: v) :=
        .keyword rfl (stops_cons.mpr (by decide))
      exact reads_missing (((hkeyword.seq _).seq _).seq _)
  | some m =>
      have hspace : (gap : SqlPattern).Reads m.space.text ('(' :: v) [] := m.space.reads (stops_cons.mpr (by decide))
      have hmethod : (run1 isWordChar .longest : SqlPattern).Reads m.method.text (m.space.text ++ '(' :: v) [] :=
        reads_run1 m.method.nonempty m.method.chars
          (m.space.stops (fun _ => isWordChar_eq_false_of_isBlank) (stops_cons.mpr (by decide)))
      have hstops : Stops isBlank ((m.method.text ++ m.space.text) ++ '(' :: v) := by
        rw [List.append_assoc]
        exact m.method.stops (fun _ => isBlank_eq_false_of_isWordChar) _
      have hall := m.word.reads_seq hstops (hmethod.seq hspace)
      refine Reads.maybe ?_
      simp only [reads_assoc]
      exact hall

theorem stops_textOf (m : Option IndexMethod) (v : Text) : Stops isBlank (textOf m ++ '(' :: v) := by
  cases m with
  | none => exact stops_cons.mpr (by decide)
  | some m =>
      rw [textOf, List.append_assoc]
      exact m.word.stops_blank rfl (by decide) _

end IndexMethod

/-- The name that the index of a foreign key may have. -/
structure IndexName where
  name : Text
  isName : IsIdentifier name
  space : Indent

namespace IndexName

def textOf : Option IndexName → Text
  | none => []
  | some n => n.name ++ n.space.text

theorem reads_textOf (n : Option IndexName) (v : Text) :
    (maybe (identifier ++ gap)).Reads (textOf n) ('(' :: v) [] := by
  cases n with
  | none =>
      have hid : identifier.Rejects ('(' :: v) := .of_starts (by decide) (stops_cons.mpr (by decide))
      exact reads_missing (hid.seq _)
  | some n =>
      have hspace : (gap : SqlPattern).Reads n.space.text ('(' :: v) [] := n.space.reads (stops_cons.mpr (by decide))
      have hname : identifier.Reads n.name (n.space.text ++ '(' :: v) [] := n.isName _
        (n.space.stops (fun _ => isBareChar_eq_false_of_isBlank) (stops_cons.mpr (by decide)))
      exact (hname.seq hspace).maybe

theorem stops_textOf (n : Option IndexName) (v : Text) : Stops isBlank (textOf n ++ '(' :: v) := by
  cases n with
  | none => exact stops_cons.mpr (by decide)
  | some n =>
      rw [textOf, List.append_assoc]
      exact n.isName.stops _

end IndexName

/-- What opens a primary key reads the list behind it, whatever stands behind the list. -/
theorem reads_primaryKey (o : KeyOpening .primaryKey) (m : Option IndexMethod) {list : Text} (hlist : Shallow list)
    (v : Text) :
    primaryKeyDefinition.Reads (o.text ++ (IndexMethod.textOf m ++ '(' :: (list ++ [')']))) v
      [(.columns, list)] := by
  have hparens := (reads_literal "(" _).seq (((hlist.reads v).part Part.columns).seq (reads_literal ")" v))
  have hmethod := (IndexMethod.reads_textOf m _).seq hparens
  have hall := o.reads_seq (v := v) (by
    rw [List.append_assoc]
    exact IndexMethod.stops_textOf m _) hmethod
  simp only [primaryKeyDefinition, reads_assoc]
  exact hall

/-- A list of columns in which nothing is put in parentheses. -/
structure FlatList where
  text : Text
  nonempty : text ≠ []
  flat : ∀ c ∈ text, c ≠ ')'

/-- The columns of a foreign key, the table and the columns that it refers to, behind what opens it. -/
structure ForeignKeyParts where
  opening : KeyOpening .foreignKey
  index : Option IndexName
  columns : FlatList
  gap : Indent
  word : KeywordText "REFERENCES"
  behind : Spacing
  table : Text
  isTable : IsQualified table
  space : Indent
  references : FlatList

namespace ForeignKeyParts

variable (k : ForeignKeyParts)

def referenceText : Text :=
  k.word.text ++ (k.behind.text ++ (k.table ++ (k.space.text ++ '(' :: (k.references.text ++ [')']))))

def text : Text :=
  k.opening.text ++ (IndexName.textOf k.index ++ '(' :: (k.columns.text ++
    ')' :: (k.gap.text ++ k.referenceText)))

theorem reads (v : Text) : foreignKeyDefinition.Reads k.text v
    [(.references, k.references.text), (.table, k.table), (.columns, k.columns.text)] := by
  have hlist : ∀ (l : FlatList) w, (run1 (· != ')') .longest : SqlPattern).Reads l.text (')' :: w) [] :=
    fun l w => reads_run1 l.nonempty (fun c hc => bne_iff_ne.mpr (l.flat c hc)) (stops_cons.mpr (by decide))
  have hreference := PostgreSQL.reads_reference k.word k.behind k.isTable k.space (fun _ h => h.part Part.table)
    ((hlist k.references v).part Part.references)
  have hgap : (Pattern.gap : SqlPattern).Reads k.gap.text (k.referenceText ++ v) [] := by
    refine k.gap.reads ?_
    rw [referenceText, List.append_assoc]
    exact k.word.stops_blank rfl (by decide) _
  have hcolumns := ((hlist k.columns _).part Part.columns).seq
    ((reads_literal ")" _).seq (hgap.seq hreference))
  have hindex := (IndexName.reads_textOf k.index _).seq ((reads_literal "(" _).seq hcolumns)
  have hall := k.opening.reads_seq (by
    rw [List.append_assoc]
    exact IndexName.stops_textOf k.index _) hindex
  simp only [foreignKeyDefinition, reads_assoc]
  exact hall

theorem text_ne_nil : k.text ≠ [] :=
  List.append_ne_nil_of_right_ne_nil _ (List.append_ne_nil_of_right_ne_nil _ (List.cons_ne_nil _ _))

theorem trimmed_text : Trimmed k.text := by
  have h := k.opening.trimmed_text (IndexName.textOf k.index ++ '(' :: (k.columns.text ++
    ')' :: (k.gap.text ++ (k.word.text ++ (k.behind.text ++ (k.table ++ (k.space.text ++
      '(' :: k.references.text)))))))
  simpa only [text, referenceText, List.append_assoc, List.cons_append] using h

end ForeignKeyParts

/-- A line that declares a primary key. -/
structure PrimaryKeyLine (d : Dialect) where
  opening : KeyOpening .primaryKey
  method : Option IndexMethod
  columns : List (ListedColumn d)
  nonempty : columns ≠ []
  tail : Text

namespace PrimaryKeyLine

variable {d : Dialect} (k : PrimaryKeyLine d)

def keyText : Text :=
  k.opening.text ++ (IndexMethod.textOf k.method ++ '(' :: (ListedColumn.listText k.columns ++ [')']))

def text : Text := k.keyText ++ k.tail

def names : List String := k.columns.map (·.column.string)

theorem names_ne_nil : k.names ≠ [] := by
  rw [names, Ne, List.map_eq_nil_iff]
  exact k.nonempty

theorem reads_keyText (v : Text) :
    primaryKeyDefinition.Reads k.keyText v [(.columns, ListedColumn.listText k.columns)] :=
  reads_primaryKey k.opening k.method (ListedColumn.shallow_listText k.columns) v

theorem keyText_ne_nil : k.keyText ≠ [] :=
  List.append_ne_nil_of_right_ne_nil _ (List.append_ne_nil_of_right_ne_nil _ (List.cons_ne_nil _ _))

theorem trimmed_keyText : Trimmed k.keyText := by
  have h := k.opening.trimmed_text (IndexMethod.textOf k.method ++ '(' :: ListedColumn.listText k.columns)
  simpa only [keyText, List.append_assoc, List.cons_append] using h

theorem trim_text : k.text.trim = k.keyText ++ k.tail.trimEnd :=
  k.trimmed_keyText.trim_append k.keyText_ne_nil k.tail

theorem parse?_trim : Constraint.parse? d k.text.trim = some (.primaryKey k.names) := by
  have hnames : splitIdentifiers (ListedColumn.listText k.columns) = k.names :=
    ListedColumn.splitIdentifiers_listText k.columns
  have htrim := k.trimmed_keyText.trim_append k.keyText_ne_nil k.tail.trimEnd
  rw [trim_text, Constraint.parse?_of_primaryReads htrim (k.reads_keyText _) (hnames ▸ k.names_ne_nil), hnames]

theorem opensConstraint_trim : opensConstraint d k.text.trim = true := by
  rw [trim_text, keyText, List.append_assoc]
  exact k.opening.opensConstraint_text _

end PrimaryKeyLine

/-- A line that declares a foreign key. -/
structure ForeignKeyLine (d : Dialect) where
  opening : KeyOpening .foreignKey
  index : Option IndexName
  columns : List (ListedColumn d)
  nonempty : columns ≠ []
  columnsFlat : ∀ i ∈ columns, ')' ∉ i.rest
  gap : Indent
  word : KeywordText "REFERENCES"
  behind : Spacing
  table : Text
  isTable : IsQualified table
  space : Indent
  references : List (ListedColumn d)
  referencesNonempty : references ≠ []
  referencesFlat : ∀ i ∈ references, ')' ∉ i.rest
  tail : Text

namespace ForeignKeyLine

variable {d : Dialect} (k : ForeignKeyLine d)

/-- The table and the columns that the key refers to. -/
def referenceText : Text :=
  k.word.text ++ (k.behind.text ++ (k.table ++ (k.space.text ++ '(' :: (ListedColumn.listText k.references ++ [')']))))

/-- The line up to the closing parenthesis of the referenced columns. -/
def keyText : Text :=
  k.opening.text ++ (IndexName.textOf k.index ++ '(' :: (ListedColumn.listText k.columns ++
    ')' :: (k.gap.text ++ k.referenceText)))

def text : Text := k.keyText ++ k.tail

def list : ForeignKeyList where
  columns := k.columns.map (·.column.string)
  referencesTable := d.normalizeName k.table
  referencesColumns := k.references.map (·.column.string)

theorem list_ne_nil : k.list.columns ≠ [] ∧ k.list.referencesColumns ≠ [] := by
  simp only [list, Ne, List.map_eq_nil_iff]
  exact ⟨k.nonempty, k.referencesNonempty⟩

/-- The parts of the line that the key is read from. -/
def parts : ForeignKeyParts where
  opening := k.opening
  index := k.index
  columns := ⟨ListedColumn.listText k.columns, ListedColumn.listText_ne_nil k.nonempty,
    ListedColumn.close_not_mem_listText k.columnsFlat⟩
  gap := k.gap
  word := k.word
  behind := k.behind
  table := k.table
  isTable := k.isTable
  space := k.space
  references := ⟨ListedColumn.listText k.references, ListedColumn.listText_ne_nil k.referencesNonempty,
    ListedColumn.close_not_mem_listText k.referencesFlat⟩

theorem reads_keyText (v : Text) : foreignKeyDefinition.Reads k.keyText v
    [(.references, ListedColumn.listText k.references), (.table, k.table), (.columns, ListedColumn.listText k.columns)] :=
  k.parts.reads v

theorem keyText_ne_nil : k.keyText ≠ [] := k.parts.text_ne_nil

theorem trimmed_keyText : Trimmed k.keyText := k.parts.trimmed_text

theorem trim_text : k.text.trim = k.keyText ++ k.tail.trimEnd :=
  k.trimmed_keyText.trim_append k.keyText_ne_nil k.tail

/-- The key is read back with the columns of both lists, whatever is said behind it. -/
theorem parse?_trim : Constraint.parse? d k.text.trim = some (.foreignKey k.list) := by
  have hnames : ∀ items : List (ListedColumn d), splitIdentifiers (ListedColumn.listText items) =
      items.map (·.column.string) := ListedColumn.splitIdentifiers_listText
  have htrim := k.trimmed_keyText.trim_append k.keyText_ne_nil k.tail.trimEnd
  obtain ⟨hcolumns, hreferences⟩ := k.list_ne_nil
  rw [trim_text, Constraint.parse?_of_reads htrim (k.reads_keyText _) (hnames k.columns ▸ hcolumns)
    (hnames k.references ▸ hreferences), hnames, hnames, list]

theorem opensConstraint_trim : opensConstraint d k.text.trim = true := by
  rw [trim_text, keyText, List.append_assoc]
  exact k.opening.opensConstraint_text _

end ForeignKeyLine

end SchemaDump
