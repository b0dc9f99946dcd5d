import SchemaDump.Proofs.Definition.ShallowText
import SchemaDump.Proofs.MySQL.OptionLine
/- Reading the lines behind the columns of a table: the keys are those that were written, and a
line that declares no key is passed over. -/
namespace SchemaDump.MySQL
open SqlPattern Pattern

variable {v : Text}

theorem QuotedName.isIdentifier (n : QuotedName) : IsIdentifier n.quoted :=
  isIdentifier_quoted (.inr rfl) n.nonempty fun hmem => (n.chars _ hmem).1 rfl

theorem Name.isIdentifier (n : Name) : IsIdentifier n.quoted := n.any.isIdentifier

theorem Name.isQualified (n : Name) : IsQualified n.quoted := n.isIdentifier.isQualified

theorem Name.normalize_eq (n : Name) : Dialect.mysql.normalizeName n.quoted = n.string := by
  have hschema : Dialect.mysql.defaultSchema.toList.isEmpty = true := by decide
  rw [Dialect.normalizeName, n.unquote_quoted, if_pos hschema, Name.string]

theorem shallow_indexedName (i : IndexedName) : Shallow i.text := by
  have hname : Shallow i.name.quoted := .of_forall fun c hc => by
    have hne : ∀ d, isWordChar d = false → d ≠ ' ' → d ≠ backQuote → c ≠ d :=
      fun d hword hblank hquote h => i.name.not_mem_quoted hword hblank hquote (h ▸ hc)
    exact ⟨hne '(' (by decide) (by decide) (by decide), hne ')' (by decide) (by decide) (by decide)⟩
  rw [IndexedName.text]
  cases hl : i.length with
  | none => exact hname.append .nil
  | some l =>
      refine hname.append (.group (fun c hc => ?_) .nil)
      have hdigit := i.lengthDigits l hl c hc
      exact ⟨by rintro rfl; exact absurd hdigit (by decide), by rintro rfl; exact absurd hdigit (by decide)⟩

theorem reads_indexedNames (spaced : Bool) (columns : List IndexedName) (v : Text) :
    shallowText.Reads (commaJoin spaced (columns.map (·.text))) (')' :: v) [] := by
  refine Shallow.reads (.commaJoin fun item hitem => ?_) v
  obtain ⟨i, -, rfl⟩ := List.mem_map.mp hitem
  exact shallow_indexedName i

/-- A name is read back from a list item, whatever is said about it behind the closing quote. -/
theorem Name.itemName?_eq (n : Name) (suffix : Text) : itemName? (n.quoted ++ suffix) = some n.string := by
  have hquote : backQuote ∉ n.text := n.not_mem (by decide) (by decide)
  have hsplit : n.quoted ++ suffix = backQuote :: (n.text ++ backQuote :: suffix) := by
    simp [Name.quoted]
  rw [hsplit]
  exact itemName?_quoted (.inr rfl) hquote n.nonempty suffix

theorem splitIdentifiers_indexedNames (spaced : Bool) (columns : List IndexedName) :
    splitIdentifiers (commaJoin spaced (columns.map (·.text))) = columns.map (·.name.string) := by
  apply splitIdentifiers_map
  intro i _
  have hname : ',' ∉ i.name.quoted := i.name.not_mem_quoted (by decide) (by decide) (by decide)
  rw [IndexedName.text]
  cases hl : i.length with
  | none => exact ⟨by simpa using hname, i.name.itemName?_eq []⟩
  | some l =>
      have hdigits : ',' ∉ l := fun h => absurd (i.lengthDigits l hl ',' h) (by decide)
      exact ⟨by simp [hname, hdigits], i.name.itemName?_eq _⟩

theorem parse?_primaryKey (spaced : Bool) {columns : List IndexedName} (hne : columns ≠ []) :
    Constraint.parse? .mysql (primaryKeyText none (commaJoin spaced (columns.map (·.text)))) =
      some (.primaryKey (columns.map (·.name.string))) := by
  have hnames := splitIdentifiers_indexedNames spaced columns
  rw [Constraint.parse?_primaryKeyText (by simp) (reads_indexedNames spaced columns []), hnames]
  rw [hnames]
  simpa using hne

variable {α : Type} (spaced : Bool) (name : α → Name) {l : List α}

theorem splitIdentifiers_names :
    splitIdentifiers (commaJoin spaced (l.map fun a => (name a).quoted)) =
      l.map fun a => (name a).string := by
  apply splitIdentifiers_map
  intro a _
  have hitem := (name a).itemName?_eq []
  rw [List.append_nil] at hitem
  exact ⟨(name a).not_mem_quoted (by decide) (by decide) (by decide), hitem⟩

theorem names_ne_nil (hne : l ≠ []) : commaJoin spaced (l.map fun a => (name a).quoted) ≠ [] := by
  obtain ⟨a, l, rfl⟩ := List.exists_cons_of_ne_nil hne
  exact commaJoin_ne_nil (List.cons_ne_nil _ _) _

theorem names_ne_paren : ∀ c ∈ commaJoin spaced (l.map fun a => (name a).quoted), c ≠ ')' := by
  intro c hc
  rcases mem_commaJoin hc with rfl | rfl | ⟨item, hitem, hc⟩
  · decide
  · decide
  · obtain ⟨a, -, rfl⟩ := List.mem_map.mp hitem
    have hnot : ')' ∉ (name a).quoted := (name a).not_mem_quoted (by decide) (by decide) (by decide)
    rintro rfl
    exact hnot hc

theorem endsSolid_actionText (actions : List (Trigger × Effect)) :
    EndsSolid (ForeignKeyLine.actionText actions) := by
  apply endsSolid_flatMap
  rintro ⟨trigger, effect⟩
  cases trigger <;> cases effect <;> decide

theorem parse?_foreignKey (k : ForeignKeyLine) :
    Constraint.parse? .mysql k.text = some (.foreignKey ⟨k.pairs.map (·.1.string),
      k.table.string, k.pairs.map (·.2.string)⟩) := by
  have hcolumns : splitIdentifiers k.columnText = k.pairs.map (·.1.string) :=
    splitIdentifiers_names k.spaced _
  have hreferences : splitIdentifiers k.referenceText = k.pairs.map (·.2.string) :=
    splitIdentifiers_names k.spaced _
  have hname : ∀ n ∈ k.constraint.map (·.quoted), IsIdentifier n := by
    intro n hn
    obtain ⟨name, -, rfl⟩ := Option.map_eq_some_iff.mp hn
    exact name.isIdentifier
  have hcolumnText : k.columnText ≠ [] ∧ ∀ c ∈ k.columnText, c ≠ ')' :=
    ⟨names_ne_nil k.spaced _ k.nonempty, names_ne_paren k.spaced _⟩
  have hreferenceText : k.referenceText ≠ [] ∧ ∀ c ∈ k.referenceText, c ≠ ')' :=
    ⟨names_ne_nil k.spaced _ k.nonempty, names_ne_paren k.spaced _⟩
  have hnames : ∀ name : Name × Name → String, k.pairs.map name ≠ [] :=
    fun name => by simpa using k.nonempty
  rw [ForeignKeyLine.text, Constraint.parse?_foreignKeyText hname hcolumnText.1 hcolumnText.2
    k.table.isQualified (by decide) hreferenceText.1 hreferenceText.2 (endsSolid_actionText k.actions)
    (hcolumns ▸ hnames _) (hreferences ▸ hnames _), hcolumns, hreferences, k.table.normalize_eq]

theorem trimmed_words (opening : InertOpening) :
    Trimmed (spacedWords opening.words) ∧ spacedWords opening.words ≠ [] := by
  cases opening <;> exact ⟨⟨by decide, by decide⟩, by decide⟩

theorem parse?_inert (opening : InertOpening) (rest : Text) :
    Constraint.parse? .mysql (spacedWords opening.words ++ rest) = none := by
  obtain ⟨htrim, hne⟩ := trimmed_words opening
  apply Constraint.parse?_eq_none
  all_goals
    rw [htrim.trim_append hne]
    cases opening <;> exact .of_clash (by decide) _

/-- The constraint that a line declares. -/
def KeyLine.constraint? : KeyLine → Option Constraint
  | primaryKey _ columns _ => some (.primaryKey (columns.map (·.name.string)))
  | foreignKey key => some (.foreignKey ⟨key.pairs.map (·.1.string), key.table.string,
      key.pairs.map (·.2.string)⟩)
  | inert _ _ _ _ => none

theorem parse?_inert_trim (opening : InertOpening) (rest : Text) :
    Constraint.parse? .mysql (Text.trim (spacedWords opening.words ++ ' ' :: rest)) = none := by
  obtain ⟨htrim, hne⟩ := trimmed_words opening
  rw [htrim.trim_append hne, parse?_inert]

theorem KeyLine.parse?_text (k : KeyLine) : Constraint.parse? .mysql k.text.trim = k.constraint? := by
  cases k with
  | primaryKey spaced columns hne =>
      rw [KeyLine.text, trimmed_primaryKeyText.trim_eq, parse?_primaryKey spaced hne]
      rfl
  | foreignKey key =>
      have htrim : Trimmed key.text := trimmed_foreignKeyText (endsSolid_actionText key.actions)
      rw [KeyLine.text, htrim.trim_eq, parse?_foreignKey]
      rfl
  | inert opening rest hchars hengine => exact parse?_inert_trim opening rest

theorem opensConstraint_inert (opening : InertOpening) (rest : Text) :
    opensConstraint .mysql (Text.trim (spacedWords opening.words ++ ' ' :: rest)) = true := by
  obtain ⟨htrim, hne⟩ := trimmed_words opening
  have hstops : Stops isWordChar (Text.trimEnd (' ' :: rest)) := by
    obtain ⟨u, hu⟩ := trimEnd_prefix (' ' :: rest)
    cases hend : Text.trimEnd (' ' :: rest) with
    | nil => exact stops_nil _
    | cons c v =>
        rw [hend] at hu
        rw [(List.cons.inj hu).1]
        exact stops_cons.mpr (by decide)
  rw [htrim.trim_append hne]
  cases opening with
  | key => exact opensConstraint_mysql "KEY" (by decide) hstops
  | uniqueKey => exact opensConstraint_mysql "UNIQUE" (by decide) (stops_cons.mpr (by decide))
  | fulltextKey => exact opensConstraint_mysql "FULLTEXT" (by decide) (stops_cons.mpr (by decide))
  | spatialKey => exact opensConstraint_mysql "SPATIAL" (by decide) (stops_cons.mpr (by decide))
  | check => exact opensConstraint_mysql "CHECK" (by decide) hstops

/-- Every line behind the columns is told from a column by its first word. -/
theorem KeyLine.opensConstraint_text (k : KeyLine) : opensConstraint .mysql k.text.trim = true := by
  cases k with
  | primaryKey spaced columns hne =>
      rw [KeyLine.text, trimmed_primaryKeyText.trim_eq]
      exact opensConstraint_mysql "PRIMARY" (by decide) (stops_cons.mpr (by decide))
  | foreignKey key =>
      have htrim : Trimmed key.text := trimmed_foreignKeyText (endsSolid_actionText key.actions)
      rw [KeyLine.text, htrim.trim_eq, ForeignKeyLine.text]
      cases key.constraint with
      | none => exact opensConstraint_mysql "FOREIGN" (by decide) (stops_cons.mpr (by decide))
      | some n => exact opensConstraint_mysql "CONSTRAINT" (by decide) (stops_cons.mpr (by decide))
  | inert opening rest hchars hengine => exact opensConstraint_inert opening rest

theorem string_ne_empty (n : Name) : n.string ≠ "" := by
  intro h
  have hlist := congrArg String.toList h
  rw [Name.string, String.toList_ofList] at hlist
  exact n.nonempty hlist

/-- A foreign key falls apart into the pairs it was written from. -/
theorem decompose_pairs (table : String) (pairs : List (Name × Name)) :
    ForeignKeyList.decompose ⟨pairs.map (·.1.string), table, pairs.map (·.2.string)⟩ =
      pairs.map fun p => ⟨p.1.string, table, p.2.string⟩ := by
  have hpair : ∀ first, ForeignKeyList.pairWith table first (pairs.map (·.1.string))
      (pairs.map (·.2.string)) = pairs.map fun p => ⟨p.1.string, table, p.2.string⟩ := by
    intro first
    induction pairs with
    | nil => rfl
    | cons p pairs ih =>
        simp only [List.map_cons, ForeignKeyList.pairWith, if_neg (string_ne_empty p.2), ih]
  cases pairs with
  | nil => rfl
  | cons p pairs => exact hpair _

theorem KeyLine.primaryColumns_constraint? (k : KeyLine) :
    k.constraint?.toList.flatMap (·.primaryColumns) = k.primaryColumns := by
  cases k <;> simp [KeyLine.constraint?, Constraint.primaryColumns, KeyLine.primaryColumns]

theorem KeyLine.foreignKeys_constraint? (k : KeyLine) :
    k.constraint?.toList.flatMap (·.foreignKeys) = k.foreignKeys := by
  cases k <;> simp [KeyLine.constraint?, Constraint.foreignKeys, KeyLine.foreignKeys, decompose_pairs]

end SchemaDump.MySQL
