import SchemaDump.Definition.Split
import SchemaDump.Proofs.Definition.ConstraintKind
import SchemaDump.Proofs.Definition.NameList
import SchemaDump.Proofs.Pattern.Keyword
import SchemaDump.Proofs.Pattern.Reads
/- Keys as a dump writes them are read back with the columns they were written for. -/
namespace SchemaDump
open SqlPattern Pattern

/-- A constraint may be named in front of what it says. -/
def namedText : Option Text → Text
  | some name => "CONSTRAINT".toList ++ ' ' :: (name ++ [' '])
  | none => []

theorem namedText_some (name : Text) :
    namedText (some name) = "CONSTRAINT".toList ++ ' ' :: (name ++ [' ']) := rfl

def primaryKeyText (name : Option Text) (columns : Text) : Text :=
  namedText name ++ (spacedWords ["PRIMARY", "KEY"] ++ ' ' :: '(' :: (columns ++ [')']))

/-- A foreign key, with the blanks in front of the referenced columns. -/
def foreignKeyText (name : Option Text) (columns table space references : Text) : Text :=
  namedText name ++ (spacedWords ["FOREIGN", "KEY"] ++ ' ' :: '(' :: (columns ++ ')' :: ' ' ::
    ("REFERENCES".toList ++ ' ' :: (table ++ (space ++ '(' :: (references ++ [')']))))))

namespace SqlPattern

variable {name : Option Text} {columns table space references tail v : Text}

/-- A text that is read as an identifier in front of anything that does not continue it. -/
def IsIdentifier (name : Text) : Prop := ∀ v, Stops isBareChar v → identifier.Reads name v []

/-- The same for a name that may stand behind a schema. -/
def IsQualified (name : Text) : Prop :=
  ∀ v, Stops isBareChar v → Stops (· == '.') v → qualified.Reads name v []

theorem IsIdentifier.stops {name : Text} (h : IsIdentifier name) (v : Text) :
    Stops isBlank (name ++ v) :=
  (h [] (stops_nil _)).stops (by decide) (fun _ => identifier_starts_of_isBlank) v

theorem IsIdentifier.isQualified {name : Text} (h : IsIdentifier name) : IsQualified name := by
  intro v hbare hdot
  have hqualifier : (maybe (one (· == '.') ++ identifier)).Reads [] v [] :=
    reads_missing (Rejects.seq (Rejects.of_starts (p := one (· == '.')) rfl hdot) _)
  have hall := Reads.seq (h v hbare) hqualifier
  rwa [List.append_nil] at hall

theorem isIdentifier_bare {name : Text} (hne : name ≠ []) (hchars : ∀ c ∈ name, isBareChar c) :
    IsIdentifier name := by
  intro v hv
  have hquoted : ∀ quote, isBareChar quote = false → (quotedIdentifier quote).Rejects (name ++ v) := by
    intro quote hquote
    obtain ⟨c, rest, rfl⟩ := List.exists_cons_of_ne_nil hne
    have hother : (c == quote) = false := by
      rw [beq_eq_false_iff_ne]
      rintro rfl
      rw [hchars c List.mem_cons_self] at hquote
      cases hquote
    have hopen : (one (· == quote) : SqlPattern).Rejects (c :: rest ++ v) :=
      .of_starts rfl (stops_cons.mpr hother)
    exact (hopen.seq _).seq _
  have hbare : (run1 isBareChar .longest : SqlPattern).Reads name v [] := reads_run1 hne hchars hv
  exact .other (hquoted '"' (by decide)) (.other (hquoted backQuote (by decide)) hbare)

theorem isIdentifier_quoted {quote : Char} {name : Text} (hquote : quote = '"' ∨ quote = backQuote)
    (hne : name ≠ []) (hclosed : quote ∉ name) : IsIdentifier (quote :: (name ++ [quote])) := by
  intro v _
  have hread : (quotedIdentifier quote).Reads (quote :: (name ++ [quote])) v [] :=
    reads_within (reads_unquotedRun hne hclosed _)
  rcases hquote with rfl | rfl
  · exact hread.preferred _
  · have hdouble : (quotedIdentifier '"').Rejects (backQuote :: (name ++ [backQuote]) ++ v) :=
      .of_starts rfl (stops_cons.mpr (by decide))
    exact .other hdouble (hread.preferred _)

theorem IsIdentifier.qualified {schema name : Text} (hschema : IsIdentifier schema) (hname : IsIdentifier name) :
    IsQualified (schema ++ '.' :: name) := by
  intro v hbare _
  have hdot : (one (· == '.') : SqlPattern).Reads ['.'] (name ++ v) [] := reads_one rfl _
  have hqualifier : identifier.Reads schema ((['.'] ++ name) ++ v) [] :=
    hschema _ (stops_cons.mpr (by decide))
  exact hqualifier.seq (hdot.seq (hname v hbare)).maybe

theorem IsQualified.stops {table : Text} (h : IsQualified table) (v : Text) :
    Stops isBlank (table ++ v) := by
  refine (h [] (stops_nil _) (stops_nil _)).stops (by decide) ?_ v
  intro c hc
  have hfirst : qualified.starts c = identifier.starts c := by
    simp [qualified, append_eq_seq, starts, show identifier.nullable = false by decide]
  rw [hfirst, identifier_starts_of_isBlank hc]

theorem reads_constraintName (hname : ∀ n ∈ name, IsIdentifier n) (hblank : Stops isBlank v)
    (hletter : Stops (sameLetter 'C') v) : constraintName.Reads (namedText name) v [] := by
  cases name with
  | none =>
      have hkeyword : (keyword "CONSTRAINT" : SqlPattern).Rejects v :=
        .keyword rfl hletter
      have hclause : nameClause.Rejects v := by
        rw [nameClause]
        exact ((hkeyword.seq _).seq _).seq _
      exact reads_missing hclause
  | some n =>
      have hid := hname n rfl
      have hword : (keyword "CONSTRAINT" : SqlPattern).Reads "CONSTRAINT".toList
          ([' '] ++ (n ++ ([' '] ++ v))) [] := reads_keyword "CONSTRAINT" _
      have hgap : (blanks : SqlPattern).Reads [' '] (n ++ ([' '] ++ v)) [] :=
        reads_blanks (hid.stops _)
      have hn : identifier.Reads n ([' '] ++ v) [] := hid _ (stops_cons.mpr (by decide))
      have hend : (blanks : SqlPattern).Reads [' '] v [] :=
        reads_blanks hblank
      have hclause := (((hword.seq hgap).seq hn).seq hend).maybe
      rw [constraintName, namedText_some]
      simpa only [List.append_assoc, List.cons_append, List.nil_append, List.append_nil] using hclause

theorem reads_columnList (hcolumns : shallowText.Reads columns [')'] []) :
    (literal "(" ++ (part .columns shallowText ++ literal ")") : SqlPattern).Reads
      ('(' :: (columns ++ [')'])) [] [(.columns, columns)] := by
  have hopen : (literal "(" : SqlPattern).Reads ['('] ((columns ++ [')']) ++ []) [] :=
    reads_literal "(" _
  have hclose : (literal ")" : SqlPattern).Reads [')'] [] [] := reads_literal ")" _
  exact hopen.seq ((hcolumns.part Part.columns).seq hclose)

/-- What a primary key declares, from the name of the constraint to the closing parenthesis. -/
theorem reads_primaryKeyDefinition (hname : ∀ n ∈ name, IsIdentifier n)
    (hcolumns : shallowText.Reads columns [')'] []) :
    primaryKeyDefinition.Reads (primaryKeyText name columns) [] [(.columns, columns)] := by
  have husing : ∀ v, (maybe (keyword "USING" ++ blanks ++ run1 isWordChar .longest ++ gap) :
      SqlPattern).Reads [] ('(' :: v) [] := by
    intro v
    have hkeyword : (keyword "USING" : SqlPattern).Rejects ('(' :: v) :=
      .keyword rfl (stops_cons.mpr (by decide))
    exact reads_missing (((hkeyword.seq _).seq _).seq _)
  have hphrase : ∀ v, (phrase ["PRIMARY", "KEY"] : SqlPattern).Reads
      (spacedWords ["PRIMARY", "KEY"]) v [] := fun v => reads_phrase (by decide) (by decide) v
  have hgap : ∀ v, (gap : SqlPattern).Reads [' '] ('(' :: v) [] :=
    fun v => reads_gap (stops_cons.mpr (by decide))
  have hopening : ∀ v, constraintName.Reads (namedText name)
      ((spacedWords ["PRIMARY", "KEY"] ++ v) ++ []) [] :=
    fun v => reads_constraintName hname (stops_cons.mpr (by decide)) (stops_cons.mpr (by decide))
  have hall := (hopening _).seq ((hphrase _).seq ((hgap _).seq ((husing _).seq
    (reads_columnList hcolumns))))
  simp only [primaryKeyDefinition, reads_assoc, primaryKeyText]
  simpa only [List.append_nil, List.cons_append, List.nil_append] using hall

/-- What a foreign key declares, whatever is said about deletion and update behind it. -/
theorem reads_foreignKeyDefinition (hname : ∀ n ∈ name, IsIdentifier n)
    (hcolumns : columns ≠ []) (hcolumn : ∀ c ∈ columns, c ≠ ')') (htable : IsQualified table)
    (hspace : ∀ c ∈ space, isBlank c) (hreferences : references ≠ [])
    (hreference : ∀ c ∈ references, c ≠ ')') :
    foreignKeyDefinition.Reads (foreignKeyText name columns table space references) tail
      [(.references, references), (.table, table), (.columns, columns)] := by
  have hlist : ∀ list : Text, list ≠ [] → (∀ c ∈ list, c ≠ ')') → ∀ v,
      (run1 (· != ')') .longest : SqlPattern).Reads list (')' :: v) [] :=
    fun list hne hlist v => reads_run1 hne (fun c hc => bne_iff_ne.mpr (hlist c hc))
      (stops_cons.mpr (by decide))
  have hmissing : ∀ v, (maybe (identifier ++ gap)).Reads [] ('(' :: v) [] := by
    intro v
    have hid : identifier.Rejects ('(' :: v) := .of_starts (by decide) (stops_cons.mpr (by decide))
    exact reads_missing (hid.seq _)
  have hopen : ∀ v, (literal "(" : SqlPattern).Reads ['('] v [] := fun v => reads_literal "(" v
  have hclose : ∀ v, (literal ")" : SqlPattern).Reads [')'] v [] := fun v => reads_literal ")" v
  have hgap : ∀ c v, isBlank c = false → (gap : SqlPattern).Reads [' '] (c :: v) [] :=
    fun c v hc => reads_gap (stops_cons.mpr hc)
  have hgapped : ∀ v, (gap : SqlPattern).Reads space ('(' :: v) [] :=
    fun v => reads_run hspace (stops_cons.mpr (by decide))
  have htarget : ∀ v, qualified.Reads table ((space ++ '(' :: v) ++ tail) [] := by
    intro v
    rw [List.append_assoc]
    cases space with
    | nil => exact htable _ (stops_cons.mpr (by decide)) (stops_cons.mpr (by decide))
    | cons c space =>
        have hblank := hspace c List.mem_cons_self
        have hdot : (c == '.') = false := beq_eq_false_iff_ne.mpr (by rintro rfl; exact absurd hblank (by decide))
        exact htable _ (stops_cons.mpr (isBareChar_eq_false_of_isBlank hblank)) (stops_cons.mpr hdot)
  have hbefore : ∀ v, (blanks : SqlPattern).Reads [' '] ((table ++ v) ++ tail) [] := by
    intro v
    rw [List.append_assoc]
    exact reads_blanks (htable.stops _)
  have hopening : ∀ v, constraintName.Reads (namedText name)
      ((spacedWords ["FOREIGN", "KEY"] ++ v) ++ tail) [] :=
    fun v => reads_constraintName hname (stops_cons.mpr (by decide)) (stops_cons.mpr (by decide))
  have hphrase : ∀ v, (phrase ["FOREIGN", "KEY"] : SqlPattern).Reads
      (spacedWords ["FOREIGN", "KEY"]) v [] := fun v => reads_phrase (by decide) (by decide) v
  have hend := (hgapped _).seq ((hopen _).seq (((hlist references hreferences hreference tail).part
    Part.references).seq (hclose tail)))
  have hreferenced := (hbefore _).seq (((htarget _).part Part.table).seq hend)
  have hkeyword := (hgap 'R' _ (by decide)).seq ((reads_keyword "REFERENCES" _).seq hreferenced)
  have hlisted := (hopen _).seq (((hlist columns hcolumns hcolumn _).part Part.columns).seq
    ((hclose _).seq hkeyword))
  have hall := (hopening _).seq ((hphrase _).seq ((hgap '(' _ (by decide)).seq
    ((hmissing _).seq hlisted)))
  simp only [foreignKeyDefinition, reads_assoc, foreignKeyText]
  exact hall

theorem endsSolid_primaryKeyText : EndsSolid (primaryKeyText name columns) := by
  have hclose : EndsSolid [')'] := by decide
  have hend := hclose.behind (by decide) (namedText name ++
    (spacedWords ["PRIMARY", "KEY"] ++ ' ' :: '(' :: columns))
  simp only [List.append_assoc, List.cons_append] at hend
  exact hend

theorem trimmed_primaryKeyText : Trimmed (primaryKeyText name columns) := by
  apply endsSolid_primaryKeyText.trimmed
  cases name with
  | none => exact fun c hc => Option.some.inj hc ▸ by decide
  | some n => exact fun c hc => Option.some.inj hc ▸ by decide

theorem endsSolid_foreignKeyText : EndsSolid (foreignKeyText name columns table space references) := by
  have hclose : EndsSolid [')'] := by decide
  have hend := hclose.behind (by decide) (namedText name ++
    (spacedWords ["FOREIGN", "KEY"] ++ ' ' :: '(' :: (columns ++ ')' :: ' ' ::
      ("REFERENCES".toList ++ ' ' :: (table ++ (space ++ '(' :: references))))))
  simp only [List.append_assoc, List.cons_append] at hend
  exact hend

theorem trimmed_foreignKeyText (htail : EndsSolid tail) :
    Trimmed (foreignKeyText name columns table space references ++ tail) := by
  apply (endsSolid_foreignKeyText.append htail).trimmed
  cases name with
  | none => exact fun c hc => Option.some.inj hc ▸ by decide
  | some n => exact fun c hc => Option.some.inj hc ▸ by decide

end SqlPattern

namespace Constraint

variable {d : Dialect} {name : Option Text} {columns table space references tail : Text}

/-- A definition that is read as a primary key declares it. -/
theorem parse?_of_primaryReads {t u v : Text} (ht : t.trim = u ++ v)
    (hreads : primaryKeyDefinition.Reads u v [(.columns, columns)]) (hnames : splitIdentifiers columns ≠ []) :
    parse? d t = some (.primaryKey (splitIdentifiers columns)) := by
  obtain ⟨o, ho, hreading⟩ := exists_at?_of_read? (.atStart (u ++ v)) (hreads none)
  have hopening : primaryKeyDefinition.opening? (u ++ v) = some o := ho
  have hpart : o.part .columns = columns := by
    rw [Occurrence.part_eq, hreading]
    rfl
  cases hlist : splitIdentifiers columns with
  | nil => exact absurd hlist hnames
  | cons name names => simp only [parse?, ht, hopening, hpart, hlist]

theorem parse?_primaryKeyText (hname : ∀ n ∈ name, IsIdentifier n)
    (hcolumns : shallowText.Reads columns [')'] []) (hnames : splitIdentifiers columns ≠ []) :
    parse? d (primaryKeyText name columns) = some (.primaryKey (splitIdentifiers columns)) :=
  parse?_of_primaryReads (trimmed_primaryKeyText.trim_eq.trans (List.append_nil _).symm)
    (reads_primaryKeyDefinition hname hcolumns) hnames

/-- A definition that is read as a foreign key declares it. -/
theorem parse?_of_reads {t u v : Text} (ht : t.trim = u ++ v)
    (hreads : foreignKeyDefinition.Reads u v
      [(.references, references), (.table, table), (.columns, columns)])
    (hnames : splitIdentifiers columns ≠ []) (htargets : splitIdentifiers references ≠ []) :
    parse? d t = some (.foreignKey ⟨splitIdentifiers columns, d.normalizeName table,
      splitIdentifiers references⟩) := by
  obtain ⟨o, ho, hreading⟩ := exists_at?_of_read? (.atStart (u ++ v)) (hreads none)
  have hopening : foreignKeyDefinition.opening? (u ++ v) = some o := ho
  -- a foreign key is no primary key
  have hprimary : primaryKeyDefinition.opening? (u ++ v) = none := by
    cases hp : primaryKeyDefinition.opening? (u ++ v) with
    | none => rfl
    | some p =>
        have hforeign := mem_readings_of_opening? hopening
        have hprimary := mem_readings_of_opening? hp
        simp only [foreignKeyDefinition, readings_seq_assoc] at hforeign
        simp only [primaryKeyDefinition, readings_seq_assoc] at hprimary
        obtain ⟨r, hr⟩ := exists_kindOpening hforeign
        obtain ⟨s, hs⟩ := exists_kindOpening hprimary
        exact (kindOpening_disjoint hs hr).elim
  have hparts : o.part .columns = columns ∧ o.part .table = table ∧
      o.part .references = references := by
    simp only [Occurrence.part_eq, hreading]
    exact ⟨rfl, rfl, rfl⟩
  simp only [parse?, ht, hprimary, hopening, hparts]

theorem parse?_foreignKeyText (hname : ∀ n ∈ name, IsIdentifier n) (hcolumns : columns ≠ [])
    (hcolumn : ∀ c ∈ columns, c ≠ ')') (htable : IsQualified table) (hspace : ∀ c ∈ space, isBlank c)
    (hreferences : references ≠ []) (hreference : ∀ c ∈ references, c ≠ ')')
    (htail : EndsSolid tail) (hnames : splitIdentifiers columns ≠ [])
    (htargets : splitIdentifiers references ≠ []) :
    parse? d (foreignKeyText name columns table space references ++ tail) =
      some (.foreignKey ⟨splitIdentifiers columns, d.normalizeName table,
        splitIdentifiers references⟩) :=
  parse?_of_reads (trimmed_foreignKeyText htail).trim_eq
    (reads_foreignKeyDefinition hname hcolumns hcolumn htable hspace hreferences hreference) hnames htargets

theorem rejects_keyDefinition {t : Text} {word next : String} {words : List String} {q : SqlPattern}
    (hname : (keyword "CONSTRAINT" : SqlPattern).Rejects t)
    (hword : (keyword word : SqlPattern).Rejects t) :
    (constraintName ++ (phrase (word :: next :: words) ++ q)).Rejects t := by
  have hphrase : (phrase (word :: next :: words) : SqlPattern).Rejects t := (hword.seq _).seq _
  have hclause : nameClause.Rejects t := by
    rw [nameClause]
    exact ((hname.seq _).seq _).seq _
  exact .missing hclause (hphrase.seq q)

/-- A definition that starts with none of the words of a key declares no key. -/
theorem parse?_eq_none {t : Text} (hname : (keyword "CONSTRAINT" : SqlPattern).Rejects t.trim)
    (hprimary : (keyword "PRIMARY" : SqlPattern).Rejects t.trim)
    (hforeign : (keyword "FOREIGN" : SqlPattern).Rejects t.trim) : parse? d t = none := by
  have hpk : primaryKeyDefinition.Rejects t.trim := by
    simp only [primaryKeyDefinition, rejects_assoc]
    exact rejects_keyDefinition hname hprimary
  have hfk : foreignKeyDefinition.Rejects t.trim := by
    simp only [foreignKeyDefinition, rejects_assoc]
    exact rejects_keyDefinition hname hforeign
  have hnone : ∀ {p : SqlPattern}, p.Rejects t.trim → p.opening? t.trim = none :=
    fun h => at?_eq_none_iff.mpr (h none)
  simp only [parse?, hnone hpk, hnone hfk]

/-- A definition that opens neither a primary key nor a foreign key declares no key. -/
theorem parse?_eq_none_of_kind {t : Text}
    (h : ∀ word ∈ ["PRIMARY", "FOREIGN"], ∀ r, r ∉ (kindOpening word).readings none t.trim) :
    parse? d t = none := by
  have hprimary : primaryKeyDefinition.opening? t.trim = none := by
    rw [← Option.not_isSome_iff_eq_none, Option.isSome_iff_exists]
    rintro ⟨o, ho⟩
    have hread := mem_readings_of_opening? ho
    simp only [primaryKeyDefinition, readings_seq_assoc] at hread
    obtain ⟨r, hr⟩ := exists_kindOpening hread
    exact h "PRIMARY" (by decide) r hr
  have hforeign : foreignKeyDefinition.opening? t.trim = none := by
    rw [← Option.not_isSome_iff_eq_none, Option.isSome_iff_exists]
    rintro ⟨o, ho⟩
    have hread := mem_readings_of_opening? ho
    simp only [foreignKeyDefinition, readings_seq_assoc] at hread
    obtain ⟨r, hr⟩ := exists_kindOpening hread
    exact h "FOREIGN" (by decide) r hr
  simp only [parse?, hprimary, hforeign]

end Constraint

/-- Words that open a constraint in any dialect. -/
def constraintWords : List String := ["PRIMARY", "UNIQUE", "KEY", "CONSTRAINT", "FOREIGN", "CHECK"]

theorem mem_readings_anyOf {p : SqlPattern} {ps : List SqlPattern} (hp : p ∈ ps) {before : Option Char}
    {t : Text} {r : Match Part} (hr : r ∈ p.readings before t) :
    r ∈ (anyOf ps).readings before t := by
  induction ps with
  | nil => cases hp
  | cons q ps ih =>
      cases ps with
      | nil =>
          obtain rfl := List.mem_singleton.mp hp
          exact hr
      | cons q' ps =>
          rcases List.mem_cons.mp hp with rfl | hp
          · exact List.mem_append_left _ hr
          · exact List.mem_append_right _ (ih hp)

/-- One of some words in any letter case, standing by itself. -/
theorem read?_words_ne_none {words : List String} {word : String} (hword : word ∈ words)
    (hletters : ∀ c ∈ word.toList, c.isAlpha) (hne : word.toList ≠ []) {w v : Text}
    (hw : spells sameLetter word.toList w) (hv : Stops isWordChar v) :
    (anyOf (words.map keyword) ++ wordEdge : SqlPattern).read? none (w ++ v) ≠ none := by
  intro hnone
  have hfilled : w ≠ [] := by
    rintro rfl
    exact hne (List.length_eq_zero_iff.mp (spells_length hw).symm)
  have hkeyword : (⟨w, [], v⟩ : Match Part) ∈
      (anyOf (words.map keyword) : SqlPattern).readings none (w ++ v) := by
    apply mem_readings_anyOf (List.mem_map_of_mem hword)
    exact mem_readings_keyword.mpr ⟨rfl, hw, rfl⟩
  have hedge := read?_seq_eq_none.mp hnone _ hkeyword
  rw [read?_wordEdge_of_end hfilled (isWordChar_of_spells hletters hw) hv] at hedge
  cases hedge

theorem opensConstraint_of_read? {d : Dialect} {t : Text} (ht : Stops isBlank t)
    (h : (constraintOpening d).read? none t ≠ none) : opensConstraint d t = true := by
  have hstart : t.trimStart = t := dropWhile_eq_self ht
  rw [opensConstraint, hstart, Option.isSome_iff_ne_none]
  exact mt at?_eq_none_iff.mp h

theorem constraintWords_letters : ∀ word ∈ constraintWords ++ ["INDEX", "FULLTEXT", "SPATIAL"],
    word.toList ≠ [] ∧ (∀ c ∈ word.toList, c.isAlpha) ∧ ∀ c ∈ word.toList.head?, isBlank c = false := by
  decide

theorem stops_append {accepts : Char → Bool} {u : Text} (hne : u ≠ [])
    (hu : ∀ c ∈ u.head?, accepts c = false) (v : Text) : Stops accepts (u ++ v) := by
  obtain ⟨c, rest, rfl⟩ := List.exists_cons_of_ne_nil hne
  exact stops_cons.mpr (hu c rfl)

theorem opensConstraint_mysql (word : String) {v : Text}
    (hword : word ∈ constraintWords ++ ["INDEX", "FULLTEXT", "SPATIAL"]) (hv : Stops isWordChar v) :
    opensConstraint .mysql (word.toList ++ v) = true := by
  obtain ⟨hne, hletters, hblank⟩ := constraintWords_letters word hword
  exact opensConstraint_of_read? (stops_append hne hblank v)
    (read?_words_ne_none hword hletters hne (spells_self sameLetter_self _) hv)

/-- A word that opens a constraint tells it from a column, in any letter case. -/
theorem opensConstraint_spelled {d : Dialect} {word : String} {w v : Text} (hword : word ∈ constraintWords)
    (hw : spells sameLetter word.toList w) (hv : Stops isWordChar v) : opensConstraint d (w ++ v) = true := by
  obtain ⟨hne, hletters, -⟩ := constraintWords_letters word (List.mem_append_left _ hword)
  have hfilled : w ≠ [] := by
    rintro rfl
    exact hne (List.length_eq_zero_iff.mp (spells_length hw).symm)
  have hsolid : ∀ c ∈ w.head?, isBlank c = false := fun c hc =>
    isBlank_eq_false_of_isWordChar (isWordChar_of_spells hletters hw c (List.mem_of_mem_head? hc))
  refine opensConstraint_of_read? (stops_append hfilled hsolid v) ?_
  cases d with
  | mysql => exact read?_words_ne_none (List.mem_append_left _ hword) hletters hne hw hv
  | postgresql =>
      rw [constraintOpening, read?_alt]
      intro hnone
      exact read?_words_ne_none hword hletters hne hw hv (Option.or_eq_none_iff.mp hnone).1

theorem opensConstraint_postgresql (word : String) {v : Text} (hword : word ∈ constraintWords)
    (hv : Stops isWordChar v) : opensConstraint .postgresql (word.toList ++ v) = true :=
  opensConstraint_spelled hword (spells_self sameLetter_self _) hv

end SchemaDump
