import SchemaDump.Dump.Extract
import SchemaDump.Proofs.Definition.KeptName
import SchemaDump.Proofs.Definition.ReadIdentifier
import SchemaDump.Proofs.MySQL.AttributeComment
import SchemaDump.Proofs.MySQL.Table
import SchemaDump.Proofs.PostgreSQL.Alteration
import SchemaDump.Proofs.PostgreSQL.Table
/- Every record that is extracted from a text is well formed, as long as no name in quotes in it consists of
quotes, blanks and comment lines only. The options of a column in MySQL are read without comments and the
default, which can leave nothing of a name as well. -/
namespace SchemaDump
open SqlPattern Pattern

variable {d : Dialect} {sql fragment body : Text} {column : Column} {before : Option Char} {r : Match Part}

/-- A fragment whose names in quotes have characters of their own, also the one it begins with. -/
structure NamedFragment (fragment : Text) : Prop where
  solid : Solid fragment
  start : ∀ name v, InQuotes backQuote name → fragment = name ++ v → isHollow name = false

theorem namedFragment_of_mem_splitDefinitions (h : Named ('(' :: body)) (hfragment : fragment ∈ splitDefinitions body) :
    NamedFragment fragment := by
  obtain ⟨piece, hpiece, rfl⟩ := List.mem_map.mp (List.mem_of_mem_filter hfragment)
  obtain ⟨opening, hopening, hstretch⟩ := exists_opening_of_mem_splitAtSeparators hpiece
  have hnamed := h.within hstretch
  exact ⟨hnamed.solid_cleanFragment hopening, fun name v => hnamed.not_hollow_start hopening⟩

theorem wellFormed_bodyConstraints (h : Named ('(' :: body)) :
    ∀ k ∈ ((splitDefinitions body).filter (opensConstraint d)).filterMap (Constraint.parse? d), k.WellFormed := by
  intro k hk
  obtain ⟨fragment, hfragment, hparse⟩ := List.mem_filterMap.mp hk
  exact Constraint.wellFormed_of_parse? hparse
    (namedFragment_of_mem_splitDefinitions h (List.mem_of_mem_filter hfragment)).solid

theorem isInfix_body {p inner : SqlPattern} {t : Text} (hp : p.HasPart .body (· = ['(']) inner)
    (hr : r ∈ p.readings before t) : '(' :: r.part .body <:+: t := by
  obtain ⟨x, front, w, y, hread, rfl, hpart, -⟩ := hp before t r hr
  refine ⟨x, y ++ r.rest, ?_⟩
  rw [Match.part, hpart, ← readings_text p before t r hr, hread]
  simp

theorem endsIn_parenthesis (p : SqlPattern) : (p ++ literal "(").EndsIn (· = ['(']) := by
  have h : (literal "(" : SqlPattern).EndsIn (· = ['(']) := fun before t r hr =>
    ⟨[], ['('], (mem_readings_literal.mp hr).2.1, rfl⟩
  exact h.behind p

/-- Where a table is found, its name has a character of its own, and so have the names in its body. -/
theorem named_of_mem_found {p name content : SqlPattern} (hname : p.HasPart .name TableFront name)
    (hquoted : HollowInQuotes name) (hbody : p.HasPart .body (· = ['(']) content) (h : Named sql)
    {o : Occurrence Part} (ho : o ∈ p.occurrences sql) :
    isHollow (o.reading.part .name) = false ∧ Named ('(' :: o.reading.part .body) := by
  obtain ⟨v, htext, hread⟩ := exists_of_mem_occurrences ho
  have hv : Named v := h.within (htext ▸ (List.suffix_append _ v).isInfix)
  have hr := mem_of_read? hread
  exact ⟨not_hollow_part hname hquoted hv.solid hr, hv.within (isInfix_body hbody hr)⟩

namespace PostgreSQL

theorem hasPart_name : tableBlock.HasPart .name TableFront qualified :=
  ((((((((endsIn_creation _).hasPart .name qualified).seq (by decide)).seq (by decide)).seq (by decide)).seq
    (by decide)).seq (by decide)).seq (by decide)).seq (by decide)

theorem hasPart_body : tableBlock.HasPart .body (· = ['(']) (run (fun _ => true) .shortest) :=
  (((((endsIn_parenthesis _).hasPart .body _).seq (by decide)).seq (by decide)).seq (by decide)).seq (by decide)

/-- The name of a column is not empty, whether quoted or bare. -/
theorem columnName_ne_nil {o : Occurrence Part} {name : Text} (ho : columnDefinition.opening? fragment = some o)
    (hname : (o.part? .quotedName <|> o.part? .name) = some name) : name ≠ [] := by
  have hr := Constraint.mem_readings_of_opening? ho
  rw [Occurrence.part?_eq, Occurrence.part?_eq] at hname
  cases hquoted : o.reading.part? .quotedName with
  | some quoted =>
      have hsame : quoted = name := by simpa [hquoted] using hname
      exact hsame ▸ part?_ne_nil (by decide) hr hquoted
  | none =>
      have hbare : o.reading.part? .name = some name := by simpa [hquoted] using hname
      exact part?_ne_nil (by decide) hr hbare

theorem wellFormed_of_parseColumn? (hparse : parseColumn? fragment = some column) (hsolid : Solid fragment) :
    column.WellFormed := by
  simp only [parseColumn?, Option.bind_eq_bind, Option.bind_eq_some_iff] at hparse
  obtain ⟨o, ho, name, hname, hcolumn⟩ := hparse
  have hr := Constraint.mem_readings_of_opening? ho
  -- A part that is missing is empty.
  have hpart : ∀ label, Solid (o.part label) := by
    intro label
    rw [Occurrence.part_eq, Match.part]
    cases h : o.reading.part? label with
    | none => exact hsolid.within (List.nil_prefix.isInfix)
    | some text => exact hsolid.within (isInfix_of_part? hr h)
  have htype : Solid (o.part .type).trim := by
    obtain ⟨a, b, htrim, -⟩ := exists_trim (o.part .type)
    exact (hpart .type).within ⟨a, b, by rw [List.append_assoc, ← htrim]⟩
  have hdefault : ∀ raw ∈ o.part? .default, Solid raw := by
    intro raw hraw
    have h := hpart .default
    rwa [Occurrence.part, hraw] at h
  rw [← Option.some.inj hcolumn]
  exact ⟨ofList_ne_empty (columnName_ne_nil ho hname), fun key hkey =>
    Markers.wellFormed_foreignKey? hkey (Markers.hasNames_ofColumn _ _) (Markers.leads_ofColumn htype hdefault)⟩

theorem wellFormed_of_mem_alterations {table : String} {constraint : Constraint}
    (h : (table, constraint) ∈ allAlterations sql) (hnamed : Named sql) : constraint.WellFormed := by
  rcases List.mem_append.mp h with h | h
  · intro key hkey
    rw [foreignKeys_of_mem_alterations h] at hkey
    cases hkey
  · obtain ⟨o, ho, hadded⟩ := List.mem_filterMap.mp h
    obtain ⟨parsed, hparse, hpair⟩ := Option.map_eq_some_iff.mp hadded
    obtain rfl : parsed = constraint := congrArg Prod.snd hpair
    obtain ⟨v, htext, hread⟩ := exists_of_mem_occurrences ho
    have hv : Named v := hnamed.within (htext ▸ (List.suffix_append _ v).isInfix)
    refine Constraint.wellFormed_of_parse? hparse ?_
    rw [Occurrence.part_eq, Match.part]
    cases hpart : o.reading.part? .constraint with
    | none => exact hv.solid.within (List.nil_prefix.isInfix)
    | some text => exact hv.solid.within (isInfix_of_part? (mem_of_read? hread) hpart)

theorem parse_wellFormed (h : Named sql) : ∀ t ∈ (parse sql).tables, t.WellFormed := by
  rw [parse_tables, show tableBlock.found none sql = _ from (tableBlock.occurrences_reading sql).symm,
    List.map_map]
  have hdefined : ∀ t ∈ (tableBlock.occurrences sql).map ((fun r => tableOf r.parts) ∘ (·.reading)),
      t.WellFormed := by
    intro t ht
    obtain ⟨o, ho, rfl⟩ := List.mem_map.mp ht
    obtain ⟨hname, hbody⟩ := named_of_mem_found hasPart_name hollowInQuotes_qualified hasPart_body h ho
    refine Table.wellFormed_ofDefinition (normalizeName_ne_empty hname) (fun c hc => ?_)
      (wellFormed_bodyConstraints hbody)
    obtain ⟨fragment, hfragment, hparse⟩ := List.mem_filterMap.mp hc
    exact wellFormed_of_parseColumn? hparse
      (namedFragment_of_mem_splitDefinitions hbody (List.mem_of_mem_filter hfragment)).solid
  exact forall_mem_mapFirst hdefined fun t ht => ht.under fun k hk =>
    wellFormed_of_mem_alterations (SchemaDraft.mem_alterationsOf hk) h

end PostgreSQL

namespace MySQL

/-- The options of a column as its markers are read from them, without comments and the default. -/
def optionText (options : Text) : Text :=
  match defaultClause.find? (uncommented options) with
  | some d => d.before ++ d.after
  | none => uncommented options

/-- The texts that the markers of the columns of a dump are read from. -/
def optionTexts (sql : Text) : List Text :=
  (tableBlock.occurrences sql).flatMap fun o =>
    ((splitDefinitions (o.part .body)).filter fun fragment => !opensConstraint .mysql fragment).filterMap
      fun fragment => (columnDefinition.opening? fragment).map fun c => optionText (c.part .options)

theorem hasPart_name :
    tableBlock.HasPart .name TableFront (tableIdentifier ++ maybe (literal "." ++ tableIdentifier)) :=
  (((((((((endsIn_creation _).hasPart .name _).seq (by decide)).seq (by decide)).seq (by decide)).seq
    (by decide)).seq (by decide)).seq (by decide)).seq (by decide)).seq (by decide)

theorem hasPart_body : tableBlock.HasPart .body (· = ['(']) (run1 (· != ';') .shortest) :=
  ((((((endsIn_parenthesis _).hasPart .body _).seq (by decide)).seq (by decide)).seq (by decide)).seq
    (by decide)).seq (by decide)

theorem isHollow_word {c : Char} (hc : isWordChar c) : isHollow [c] = false :=
  isHollow_bare (by rw [isBareChar, hc]; rfl)

theorem hollowInQuotes_tableName : HollowInQuotes (tableIdentifier ++ maybe (literal "." ++ tableIdentifier)) := by
  refine ((hollowInQuotes_quoted (.inr rfl)).alt (hollowInQuotes_run1 (fun _ => isHollow_word) _)).maybe
    fun before t r hr => ?_
  obtain ⟨a, ha, b, -, rfl⟩ := mem_readings_seq.mp hr
  rw [Match.andThen_read, (mem_readings_literal.mp ha).2.1]
  rfl

/-- The name of a column is what a fragment begins with, in back quotes or as a word. -/
theorem not_hollow_columnName {o : Occurrence Part} {name : Text} (hfragment : NamedFragment fragment)
    (ho : columnDefinition.opening? fragment = some o) (hname : (o.part? .quotedName <|> o.part? .name) = some name) :
    isHollow name = false := by
  have hr := Constraint.mem_readings_of_opening? ho
  simp only [columnDefinition, readings_seq_assoc] at hr
  obtain ⟨a, ha, b, hb, hsplit⟩ := mem_readings_seq.mp hr
  have hquoted : o.part? .quotedName = a.part? .quotedName := by
    rw [Occurrence.part?_eq, ← hsplit]
    exact part?_andThen_of_not_mem (by decide) hb
  have hbare : o.part? .name = a.part? .name := by
    rw [Occurrence.part?_eq, ← hsplit]
    exact part?_andThen_of_not_mem (by decide) hb
  rw [hquoted, hbare] at hname
  rcases List.mem_append.mp ha with ha | ha
  · obtain ⟨_, _, x, hx, hparts, hread, -⟩ := mem_readings_within ha
    obtain ⟨c, hc, rfl⟩ := List.mem_map.mp hx
    obtain ⟨hne, -, -, hall⟩ := mem_readings_run1 hc
    obtain rfl : c.read = name := by simpa [Match.part?, hparts] using hname
    have hquotes : InQuotes backQuote a.read :=
      ⟨.inr rfl, c.read, hne, fun hmem => absurd (hall backQuote hmem) (by simp), hread⟩
    have hsolid := hfragment.start a.read a.rest hquotes (readings_text _ _ _ a ha).symm
    rw [hread, ← List.singleton_append, isHollow_append, Match.labelled_read, isHollow_append] at hsolid
    simpa [isHollow] using hsolid
  · obtain ⟨c, hc, rfl⟩ := List.mem_map.mp ha
    obtain ⟨hne, hparts, -, hall⟩ := mem_readings_run1 hc
    obtain rfl : c.read = name := by simpa [Match.part?, hparts] using hname
    obtain ⟨d, rest, hread⟩ := List.exists_cons_of_ne_nil hne
    rw [hread, ← List.singleton_append, isHollow_append, isHollow_word (hall d (by rw [hread]; exact List.mem_cons_self))]
    rfl

theorem wellFormed_of_parseColumn? (hparse : parseColumn? fragment = some column) (hfragment : NamedFragment fragment)
    (hoptions : ∀ o ∈ columnDefinition.opening? fragment, Solid (optionText (o.part .options))) :
    column.WellFormed := by
  simp only [parseColumn?, Option.bind_eq_bind, Option.bind_eq_some_iff] at hparse
  obtain ⟨o, ho, name, hname, hcolumn⟩ := hparse
  rw [← Option.some.inj hcolumn]
  refine ⟨ofList_ne_empty (unquote_ne_nil (not_hollow_columnName hfragment ho hname)), fun key hkey => ?_⟩
  exact Markers.wellFormed_foreignKey? hkey (Markers.hasNames_take _ _) (Markers.leads_take true (hoptions o ho))

theorem parse_wellFormed (h : Named sql) (hoptions : ∀ options ∈ optionTexts sql, Named options) :
    ∀ t ∈ (parse sql).tables, t.WellFormed := by
  rw [parse_tables, show tableBlock.found none sql = _ from (tableBlock.occurrences_reading sql).symm,
    List.map_map]
  intro t ht
  obtain ⟨o, ho, rfl⟩ := List.mem_map.mp ht
  obtain ⟨hname, hbody⟩ := named_of_mem_found hasPart_name hollowInQuotes_tableName hasPart_body h ho
  refine Table.wellFormed_ofDefinition (normalizeName_ne_empty hname) (fun c hc => ?_)
    (wellFormed_bodyConstraints hbody)
  obtain ⟨fragment, hfragment, hparse⟩ := List.mem_filterMap.mp hc
  refine wellFormed_of_parseColumn? hparse
    (namedFragment_of_mem_splitDefinitions hbody (List.mem_of_mem_filter hfragment)) fun c hc => ?_
  refine (hoptions _ (List.mem_flatMap.mpr ⟨o, ho, List.mem_filterMap.mpr ⟨fragment, ?_, ?_⟩⟩)).solid
  · rwa [Occurrence.part_eq]
  · rw [hc]
    rfl

end MySQL

/-- The names in quotes of a dump. In MySQL names are also those in the options of a column without its
comments and the default. -/
def Dialect.quotedNames : Dialect → Text → List Text
  | .mysql, sql => SchemaDump.quotedNames sql ++ (MySQL.optionTexts sql).flatMap SchemaDump.quotedNames
  | .postgresql, sql => SchemaDump.quotedNames sql

/-- Every record that is extracted is well formed, whichever way its keys arose. -/
theorem extract_wellFormed (d : Dialect) (sql : Text) (h : ∀ name ∈ d.quotedNames sql, isVoid name = false) :
    ∀ t ∈ (d.extract sql).tables, t.WellFormed := by
  cases d with
  | mysql =>
      exact MySQL.parse_wellFormed (fun name hname => h name (List.mem_append_left _ hname))
        fun options hoptions name hname =>
          h name (List.mem_append_right _ (List.mem_flatMap.mpr ⟨options, hoptions, hname⟩))
  | postgresql => exact PostgreSQL.parse_wellFormed h

/-- A composite key over more columns than it refers to, an inline reference, and a key that is added later. -/
def variedKeysText : Text :=
  "CREATE TABLE public.\"a`b\" (\n".toList ++ "    x integer,\n".toList ++
    "    y integer REFERENCES u(id),\n".toList ++ "    z integer,\n".toList ++
      "    FOREIGN KEY (x, y) REFERENCES u(id)\n);\n".toList ++
        "ALTER TABLE \"a`b\" ADD FOREIGN KEY (z) ".toList ++ "REFERENCES \"u\"(id);\n".toList

/-- A name over several lines, one of them a comment, and a reference between a default and a comment. -/
def brokenNameText : Text :=
  "CREATE TABLE `a` (\n".toList ++ "  `x\n-- y\n ` int DEFAULT '`' ".toList ++
    "REFERENCES `u v` (`id`) COMMENT 'a ` b'\n".toList ++ ") ENGINE=InnoDB;\n".toList

theorem extract_variedKeysText :
    ((∀ name ∈ Dialect.postgresql.quotedNames variedKeysText, isVoid name = false) ∧
      ∀ t ∈ (Dialect.postgresql.extract variedKeysText).tables, t.WellFormed) ∧
    (∀ name ∈ Dialect.mysql.quotedNames brokenNameText, isVoid name = false) ∧
      ∀ t ∈ (Dialect.mysql.extract brokenNameText).tables, t.WellFormed := by
  have hvaried : ∀ name ∈ Dialect.postgresql.quotedNames variedKeysText, isVoid name = false := by decide +kernel
  have hbroken : ∀ name ∈ Dialect.mysql.quotedNames brokenNameText, isVoid name = false := by decide +kernel
  exact ⟨⟨hvaried, extract_wellFormed _ _ hvaried⟩, hbroken, extract_wellFormed _ _ hbroken⟩

/-- A name in quotes over several lines, of which one looks like a comment. -/
def commentNameText : Text := "CREATE TABLE `t` (\n  `\n-- x\n` int\n) ENGINE=InnoDB;".toList

/-- A reference to a name in quotes in which a comment on the column seems to stand. -/
def cutNameText : Text :=
  "CREATE TABLE `t` (\n  `a` int REFERENCES ` COMMENT 'x'\"` (`c`)\n) ENGINE=InnoDB;".toList

/-- No name in these texts consists of quotes and blanks only. But the comment line is left out even of a name,
and the comment on the column is cut out of one, so that nothing is left. -/
theorem extract_commentNameText :
    ((∀ name ∈ quotedNames commentNameText, isHollow name = false) ∧
      ∃ t ∈ (Dialect.mysql.extract commentNameText).tables, ∃ c ∈ t.columns, c.name = "") ∧
    (∀ name ∈ quotedNames cutNameText, isHollow name = false) ∧
      ∃ t ∈ (Dialect.mysql.extract cutNameText).tables, ∃ c ∈ t.columns, ∃ key ∈ c.foreignKey,
        key.referencesTable = "" := by
  decide +kernel

end SchemaDump
