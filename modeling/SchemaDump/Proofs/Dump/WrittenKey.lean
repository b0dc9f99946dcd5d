import SchemaDump.Proofs.Dump.KeyLine
import SchemaDump.Proofs.Schema.ConstrainedTable
/- Reading a constraint undoes writing it. A key may be written in any letter case, with any blanks, with
names that are bare or in quotes of either kind, and with anything behind it. It is read back with the names
in their order, and a foreign key is divided among its columns by position. A constraint of another kind is
read as no key, whatever its text holds. -/
namespace SchemaDump
open SqlPattern Pattern
open PostgreSQL (KeyKind KeywordText Indent Spacing SpacedWord ConstraintNaming KeyOpening)

variable {d : Dialect}

theorem WrittenName.isIdentifier (n : WrittenName) : IsIdentifier n.text := by
  obtain ⟨style, name⟩ := n
  cases name with
  | bare word => exact isIdentifier_bare word.nonempty fun c hc => by simp [isBareChar, word.chars c hc]
  | quoted text nonempty closed _ _ => exact isIdentifier_quoted (Identifier.quote_cases style) nonempty closed

/-- A table, with or without its schema. -/
structure WrittenTable where
  schema : Option WrittenName
  name : WrittenName

namespace WrittenTable

variable (t : WrittenTable)

def text : Text :=
  match t.schema with
  | none => t.name.text
  | some schema => schema.text ++ '.' :: t.name.text

theorem isQualified : IsQualified t.text := by
  rw [text]
  cases t.schema with
  | none => exact t.name.isIdentifier.isQualified
  | some schema => exact schema.isIdentifier.qualified t.name.isIdentifier

end WrittenTable

/-- The name of a constraint. -/
structure WrittenNaming where
  word : KeywordText "CONSTRAINT"
  behind : Spacing
  name : WrittenName
  after : Spacing

def WrittenNaming.naming (n : WrittenNaming) : ConstraintNaming where
  word := n.word
  behind := n.behind
  name := n.name.text
  isName := n.name.isIdentifier
  after := n.after

/-- What opens a key, with or without a name. -/
structure WrittenOpening (kind : KeyKind) where
  naming : Option WrittenNaming
  first : SpacedWord kind.word
  key : KeywordText "KEY"
  space : Indent

def WrittenOpening.opening {kind : KeyKind} (o : WrittenOpening kind) : KeyOpening kind where
  naming := o.naming.map WrittenNaming.naming
  first := o.first
  key := o.key
  space := o.space

/-- The columns of a primary key, behind what opens it. -/
structure WrittenPrimaryKey where
  indent : Indent
  opening : WrittenOpening .primaryKey
  method : Option IndexMethod
  columns : List ListedName
  nonempty : columns ≠ []
  tail : Text

namespace WrittenPrimaryKey

variable (k : WrittenPrimaryKey)

def keyText : Text :=
  k.opening.opening.text ++ (IndexMethod.textOf k.method ++ '(' :: (ListedName.listText k.columns ++ [')']))

def text : Text := k.indent.text ++ (k.keyText ++ k.tail)

theorem trimmed_keyText : Trimmed k.keyText := by
  have h := k.opening.opening.trimmed_text (IndexMethod.textOf k.method ++ '(' :: ListedName.listText k.columns)
  simpa only [keyText, List.append_assoc, List.cons_append] using h

theorem keyText_ne_nil : k.keyText ≠ [] :=
  List.append_ne_nil_of_right_ne_nil _ (List.append_ne_nil_of_right_ne_nil _ (List.cons_ne_nil _ _))

theorem parse?_text : Constraint.parse? d k.text = some (.primaryKey (k.columns.map (·.string))) := by
  have htrim : k.text.trim = k.keyText ++ k.tail.trimEnd := by
    rw [text, k.indent.trim_append, k.trimmed_keyText.trim_append k.keyText_ne_nil]
  have hnames := ListedName.splitIdentifiers_listText k.columns
  have hne : splitIdentifiers (ListedName.listText k.columns) ≠ [] := by
    rw [hnames, Ne, List.map_eq_nil_iff]
    exact k.nonempty
  rw [Constraint.parse?_of_primaryReads htrim
    (reads_primaryKey k.opening.opening k.method (ListedName.shallow_listText k.columns) _) hne, hnames]

end WrittenPrimaryKey

/-- A list of names of which nothing is said in parentheses. -/
structure PlainList where
  first : ListedName
  more : List ListedName
  flat : ∀ i ∈ first :: more, ')' ∉ i.rest

namespace PlainList

variable (l : PlainList)

def items : List ListedName := l.first :: l.more

def names : List String := l.items.map (·.string)

def flatList : FlatList where
  text := ListedName.listText l.items
  nonempty := ListedName.listText_ne_nil (List.cons_ne_nil _ _)
  flat := ListedName.close_not_mem_listText l.flat

theorem splitIdentifiers_flatList : splitIdentifiers l.flatList.text = l.names :=
  ListedName.splitIdentifiers_listText l.items

theorem ne_empty_of_mem_names : ∀ name ∈ l.names, name ≠ "" := by
  intro name hname
  obtain ⟨i, -, rfl⟩ := List.mem_map.mp hname
  exact i.name.name.string_ne_empty

end PlainList

/-- A foreign key, with anything said behind it. -/
structure WrittenForeignKey where
  indent : Indent
  opening : WrittenOpening .foreignKey
  index : Option (WrittenName × Indent)
  columns : PlainList
  gap : Indent
  word : KeywordText "REFERENCES"
  behind : Spacing
  table : WrittenTable
  space : Indent
  references : PlainList
  tail : Text

namespace WrittenForeignKey

variable (k : WrittenForeignKey)

def parts : ForeignKeyParts where
  opening := k.opening.opening
  index := k.index.map fun n => ⟨n.1.text, n.1.isIdentifier, n.2⟩
  columns := k.columns.flatList
  gap := k.gap
  word := k.word
  behind := k.behind
  table := k.table.text
  isTable := k.table.isQualified
  space := k.space
  references := k.references.flatList

def text : Text := k.indent.text ++ (k.parts.text ++ k.tail)

def list (d : Dialect) : ForeignKeyList where
  columns := k.columns.names
  referencesTable := d.normalizeName k.table.text
  referencesColumns := k.references.names

theorem parse?_text : Constraint.parse? d k.text = some (.foreignKey (k.list d)) := by
  have htrim : k.text.trim = k.parts.text ++ k.tail.trimEnd := by
    rw [text, k.indent.trim_append, k.parts.trimmed_text.trim_append k.parts.text_ne_nil]
  have hcolumns : splitIdentifiers k.parts.columns.text = k.columns.names := k.columns.splitIdentifiers_flatList
  have hreferences : splitIdentifiers k.parts.references.text = k.references.names :=
    k.references.splitIdentifiers_flatList
  rw [Constraint.parse?_of_reads htrim (k.parts.reads _) (by rw [hcolumns]; exact List.cons_ne_nil _ _)
    (by rw [hreferences]; exact List.cons_ne_nil _ _), hcolumns, hreferences]
  rfl

end WrittenForeignKey

/-- The words that open definitions of other kinds. -/
def otherWords : List String := ["UNIQUE", "KEY", "CHECK", "INDEX", "FULLTEXT", "SPATIAL", "EXCLUDE"]

theorem otherWords_letters : ∀ word ∈ otherWords, (∀ c ∈ word.toList, c.isAlpha) ∧
    ∃ letter letters, word.toList = letter :: letters ∧ letter.isAlpha := by
  intro word hword
  simp only [otherWords, List.mem_cons, List.not_mem_nil, or_false] at hword
  rcases hword with rfl | rfl | rfl | rfl | rfl | rfl | rfl <;>
    exact ⟨by decide, _, _, rfl, by decide⟩

theorem otherWords_clash : ∀ word ∈ otherWords, ∀ other ∈ ["CONSTRAINT", "PRIMARY", "FOREIGN"],
    clashes other.toList word.toList := by decide

/-- A definition of another kind, with or without the name of a constraint, and whatever its text holds. -/
structure WrittenOther where
  indent : Indent
  naming : Option WrittenNaming
  word : String
  isOther : word ∈ otherWords
  keyword : KeywordText word
  tail : Text

namespace WrittenOther

variable (o : WrittenOther)

def namingText : Text := ConstraintNaming.textOf (o.naming.map WrittenNaming.naming)

def text : Text := o.indent.text ++ (o.namingText ++ (o.keyword.text ++ o.tail))

theorem stops_keyword (v : Text) : Stops isBlank (o.keyword.text ++ v) := by
  obtain ⟨-, letter, letters, hword, hletter⟩ := otherWords_letters o.word o.isOther
  exact o.keyword.stops_blank hword hletter v

theorem rejects_keyword {other : String} (hother : other ∈ ["CONSTRAINT", "PRIMARY", "FOREIGN"]) (v : Text) :
    (Pattern.keyword other : SqlPattern).Rejects (o.keyword.text ++ v) := by
  have hletters : ∀ other ∈ ["CONSTRAINT", "PRIMARY", "FOREIGN"], ∀ c ∈ other.toList, c.isAlpha := by decide
  exact o.keyword.rejects (hletters other hother) (otherWords_letters o.word o.isOther).1
    (otherWords_clash o.word o.isOther other hother) v

def head : Text := o.namingText ++ o.keyword.text

theorem keyword_chars : ∀ c ∈ o.keyword.text, isWordChar c :=
  isWordChar_of_spells (otherWords_letters o.word o.isOther).1 o.keyword.spelled

theorem keyword_ne_nil : o.keyword.text ≠ [] := by
  obtain ⟨-, letter, letters, hword, -⟩ := otherWords_letters o.word o.isOther
  obtain ⟨c, rest, htext, -⟩ := o.keyword.exists_head hword
  rw [htext]
  exact List.cons_ne_nil _ _

theorem trimmed_head : Trimmed o.head := by
  have hstart : Stops isBlank o.head := by
    rw [head, namingText]
    cases o.naming with
    | none =>
        have h := o.stops_keyword []
        rwa [List.append_nil] at h
    | some n =>
        rw [Option.map_some, ConstraintNaming.textOf, ConstraintNaming.text, List.append_assoc]
        exact n.naming.word.stops_blank rfl (by decide) _
  refine ⟨hstart, fun c hc => ?_⟩
  obtain ⟨e, he⟩ := Option.ne_none_iff_exists'.mp (mt List.getLast?_eq_none_iff.mp o.keyword_ne_nil)
  rw [head, List.getLast?_append, he, Option.some_or] at hc
  rw [← Option.some.inj hc]
  exact isBlank_eq_false_of_isWordChar (o.keyword_chars e (List.mem_of_getLast? he))

theorem trim_text : o.text.trim = o.namingText ++ (o.keyword.text ++ o.tail.trimEnd) := by
  have h := o.trimmed_head.trim_append (List.append_ne_nil_of_right_ne_nil _ o.keyword_ne_nil) o.tail
  rw [head, List.append_assoc, List.append_assoc] at h
  rw [text, o.indent.trim_append, h]

/-- The word behind the name is neither that of a primary key nor that of a foreign key. -/
theorem not_kindOpening {word : String} (hword : word ∈ ["PRIMARY", "FOREIGN"]) (r : Match Part) :
    r ∉ (kindOpening word).readings none (o.namingText ++ (o.keyword.text ++ o.tail.trimEnd)) := by
  have hother : word ∈ ["CONSTRAINT", "PRIMARY", "FOREIGN"] := List.mem_cons_of_mem _ hword
  have hnone : ∀ {between : Option Char} {w : Match Part},
      w ∉ (Pattern.keyword word : SqlPattern).readings between (o.keyword.text ++ o.tail.trimEnd) :=
    fun {between w} hw => (o.rejects_keyword hother o.tail.trimEnd).not_mem hw
  intro hr
  rw [namingText] at hr
  cases hnaming : o.naming with
  | none =>
      rw [hnaming] at hr
      obtain ⟨a, ha, w, hw, -⟩ := mem_readings_seq.mp hr
      rcases List.mem_append.mp ha with ha | ha
      · obtain ⟨b, hb, -⟩ := mem_readings_seq.mp ha
        obtain ⟨e, he, -⟩ := mem_readings_seq.mp hb
        obtain ⟨k, hk, -⟩ := mem_readings_seq.mp he
        exact (o.rejects_keyword (by decide) o.tail.trimEnd).not_mem hk
      · rw [List.mem_singleton.mp ha] at hw
        exact hnone hw
  | some n =>
      rw [hnaming] at hr
      obtain ⟨letter, letters, hfirst, hletter, hc⟩ : ∃ letter letters,
          word.toList = letter :: letters ∧ letter.isAlpha ∧ letter.toLower ≠ 'c' := by
        simp only [List.mem_cons, List.not_mem_nil, or_false] at hword
        rcases hword with rfl | rfl <;> exact ⟨_, _, rfl, by decide, by decide⟩
      have hstops := o.stops_keyword o.tail.trimEnd
      have hname := mem_of_read? (n.naming.reads hstops none)
      obtain ⟨_, w, hw⟩ := exists_keyword_of_kindOpening hfirst hletter hc hname hstops hr
      exact hnone hw

theorem parse?_text : Constraint.parse? d o.text = none := by
  refine Constraint.parse?_eq_none_of_kind fun word hword r => ?_
  rw [o.trim_text]
  exact o.not_kindOpening hword r

end WrittenOther

theorem WrittenForeignKey.decompose_list (k : WrittenForeignKey) (d : Dialect) :
    (k.list d).decompose = k.columns.items.mapIdx fun i column =>
      ⟨column.string, d.normalizeName k.table.text,
        (k.references.items[i]?.getD k.references.first).string⟩ := by
  have hdecompose : (k.list d).decompose = k.columns.names.mapIdx fun i column =>
      ⟨column, d.normalizeName k.table.text, k.references.names[i]?.getD k.references.first.string⟩ :=
    ForeignKeyList.pairWith_eq_mapIdx k.references.ne_empty_of_mem_names
  have htarget : ∀ i : Nat, k.references.names[i]?.getD k.references.first.string =
      (k.references.items[i]?.getD k.references.first).string := by
    intro i
    rw [PlainList.names, List.getElem?_map]
    cases k.references.items[i]? <;> rfl
  rw [hdecompose]
  apply List.ext_getElem?
  intro i
  rw [List.getElem?_mapIdx, List.getElem?_mapIdx, htarget, PlainList.names, List.getElem?_map]
  cases k.columns.items[i]? <;> rfl

/-- In both dialects a key is read back as it was written, a foreign key is divided among its columns, and
nothing else is taken for a key. -/
theorem Constraint.parse?_written (d : Dialect) :
    (∀ k : WrittenPrimaryKey, parse? d k.text = some (.primaryKey (k.columns.map (·.string)))) ∧
    (∀ k : WrittenForeignKey, ∃ key, parse? d k.text = some (.foreignKey key) ∧
      key.decompose = k.columns.items.mapIdx fun i column =>
        ⟨column.string, d.normalizeName k.table.text,
          (k.references.items[i]?.getD k.references.first).string⟩) ∧
    ∀ o : WrittenOther, parse? d o.text = none :=
  ⟨fun k => k.parse?_text, fun k => ⟨k.list d, k.parse?_text, k.decompose_list d⟩, fun o => o.parse?_text⟩

example : (Constraint.parse? .mysql
    " Constraint \"u k\" foreign KEY`i`( \"a\",b , c)references s.`t u`(x,`y`) on delete".toList).map
      Constraint.foreignKeys = some [⟨"a", "s.t u", "x"⟩, ⟨"b", "s.t u", "y"⟩, ⟨"c", "s.t u", "x"⟩] := by
  decide +kernel

end SchemaDump
