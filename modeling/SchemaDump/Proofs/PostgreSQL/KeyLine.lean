import SchemaDump.Proofs.Definition.ShallowText
import SchemaDump.Proofs.Definition.Unbroken
import SchemaDump.Proofs.PostgreSQL.Rendering
/- Names and keys as they are written are read back as what they were written for. -/
namespace SchemaDump.PostgreSQL
open SqlPattern Pattern

theorem quote_not_mem {t : Text} (h : ∀ c ∈ t, isWordChar c ∨ c = ' ') : '"' ∉ t := by
  intro hmem
  rcases h '"' hmem with h | h
  · exact absurd h (by decide)
  · exact absurd h (by decide)

namespace Name

theorem mem_text {n : Name} {c : Char} (h : c ∈ n.text) : isWordChar c ∨ c = ' ' ∨ c = '"' := by
  cases n with
  | bare word => exact .inl (word.chars c h)
  | quoted text _ chars _ =>
      rcases List.mem_cons.mp h with rfl | h
      · exact .inr (.inr rfl)
      · rcases List.mem_append.mp h with h | h
        · exact (chars c h).imp_right .inl
        · exact .inr (.inr (List.mem_singleton.mp h))

theorem not_mem_text (n : Name) {c : Char} (hc : isWordChar c = false) (hblank : c ≠ ' ')
    (hquote : c ≠ '"') : c ∉ n.text := by
  intro h
  rcases mem_text h with h | h | h
  · rw [hc] at h
    cases h
  · exact hblank h
  · exact hquote h

theorem content_ne_nil (n : Name) : n.content ≠ [] := by
  cases n with
  | bare word => exact word.nonempty
  | quoted text nonempty _ _ => exact nonempty

theorem content_chars (n : Name) : ∀ c ∈ n.content, isWordChar c ∨ c = ' ' := by
  cases n with
  | bare word => exact fun c hc => .inl (word.chars c hc)
  | quoted text _ chars _ => exact chars

theorem content_filter (n : Name) :
    n.content.filter (fun c => c != '"' && c != backQuote) = n.content := by
  rw [List.filter_eq_self]
  intro c hc
  rcases n.content_chars c hc with h | rfl
  · have hdouble : c ≠ '"' := ne_of_isWordChar (by decide) h
    have hback : c ≠ backQuote := ne_of_isWordChar (by decide) h
    simp [hdouble, hback]
  · decide

theorem text_filter (n : Name) :
    n.text.filter (fun c => c != '"' && c != backQuote) = n.content := by
  cases n with
  | bare word => exact (bare word).content_filter
  | quoted text nonempty chars trimmed =>
      have h := (quoted text nonempty chars trimmed).content_filter
      simp only [content] at h
      simp [Name.text, content, List.filter_append, h]

theorem trimmed_text (n : Name) : Trimmed n.text := by
  cases n with
  | bare word => exact trimmed_of_wordChars word.chars
  | quoted text _ _ _ =>
      have hquote : EndsSolid ['"'] := by decide
      exact (hquote.behind (by decide) ('"' :: text)).trimmed fun c hc => Option.some.inj hc ▸ by decide

theorem isIdentifier (n : Name) : IsIdentifier n.text := by
  cases n with
  | bare word => exact isIdentifier_bare word.nonempty fun c hc => by simp [isBareChar, word.chars c hc]
  | quoted text nonempty chars _ => exact isIdentifier_quoted (.inl rfl) nonempty (quote_not_mem chars)

theorem itemName?_eq (n : Name) : itemName? n.text = some n.string := by
  cases n with
  | bare word =>
      have hname := @itemName?_bare word.text [] word.chars word.nonempty nofun
      rwa [List.append_nil] at hname
  | quoted text nonempty chars _ =>
      exact itemName?_quoted (.inl rfl) (quote_not_mem chars) nonempty []

end Name

namespace Target

theorem isQualified (t : Target) : IsQualified t.text := by
  rw [Target.text]
  cases t.qualified with
  | false => exact t.name.isIdentifier.isQualified
  | true =>
      have hschema : IsIdentifier "public".toList := isIdentifier_bare (by decide) (by decide)
      exact hschema.qualified t.name.isIdentifier

theorem content_ne_schema (n : Name) (u : Text) : n.content ≠ "public".toList ++ ['.'] ++ u := by
  intro h
  have hdot : '.' ∈ n.content := by rw [h]; simp
  rcases n.content_chars '.' hdot with h | h
  · exact absurd h (by decide)
  · exact absurd h (by decide)

theorem dropPrefix?_self_append (start t : Text) : Text.dropPrefix? start (start ++ t) = some t := by
  induction start with
  | nil => rfl
  | cons c start ih => simp [Text.dropPrefix?, ih]

theorem eq_append_of_dropPrefix? {start t u : Text} (h : Text.dropPrefix? start t = some u) :
    t = start ++ u := by
  induction start generalizing t with
  | nil => exact Option.some.inj h
  | cons c start ih =>
      cases t with
      | nil => cases h
      | cons d t =>
          rw [Text.dropPrefix?] at h
          split at h
          · next hcd => rw [hcd, ih h, List.cons_append]
          · cases h

theorem unquote_text (t : Target) :
    unquote t.text = (if t.qualified then "public".toList ++ ['.'] else []) ++ t.name.content := by
  have htrim : Trimmed t.text := by
    rw [Target.text]
    cases t.qualified with
    | false => exact t.name.trimmed_text
    | true =>
        refine ⟨fun c hc => Option.some.inj hc ▸ by decide, ?_⟩
        intro c hc
        rw [List.getLast?_append] at hc
        cases hlast : t.name.text.getLast? with
        | none => rw [hlast] at hc; exact Option.some.inj hc ▸ by decide
        | some d => rw [hlast] at hc; exact Option.some.inj hc ▸ t.name.trimmed_text.2 d hlast
  rw [unquote, htrim.trim_eq, Target.text, List.filter_append, t.name.text_filter]
  cases t.qualified <;> rfl

/-- The schema in front of a table and the quotes around it do not belong to its name. -/
theorem normalize_eq (t : Target) : Dialect.postgresql.normalizeName t.text = t.name.string := by
  have hschema : Dialect.postgresql.defaultSchema.toList = "public".toList := rfl
  have hnonempty : ("public".toList).isEmpty = false := by decide
  obtain ⟨c, rest, hname⟩ := List.exists_cons_of_ne_nil t.name.content_ne_nil
  rw [Dialect.normalizeName, hschema, t.unquote_text]
  cases t.qualified with
  | true =>
      have hdrop := dropPrefix?_self_append ("public".toList ++ ['.']) t.name.content
      rw [hname] at hdrop
      simp only [hnonempty, Bool.false_eq_true, if_false, if_true, hname, hdrop, Name.string]
  | false =>
      have hdrop : Text.dropPrefix? ("public".toList ++ ['.']) t.name.content = none := by
        cases hd : Text.dropPrefix? ("public".toList ++ ['.']) t.name.content with
        | none => rfl
        | some u => exact absurd (eq_append_of_dropPrefix? hd) (content_ne_schema t.name u)
      simp only [hnonempty, Bool.false_eq_true, if_false, List.nil_append, hdrop, Name.string]

end Target

theorem unbroken_word (w : Word) : Unbroken w.text := fun c hc => unbroken_wordChar (w.chars c hc)

theorem unbroken_name (n : Name) : Unbroken n.text := by
  intro c hc
  constructor <;>
  · rintro rfl
    exact n.not_mem_text (by decide) (by decide) (by decide) hc

theorem unbroken_target (t : Target) : Unbroken t.text := by
  rw [Target.text]
  cases t.qualified with
  | false => exact unbroken_name t.name
  | true => exact Unbroken.append (by decide) (unbroken_name t.name)

namespace KeyClause

theorem mem_nameList {spaced : Bool} {names : List Name} {c : Char} (h : c ∈ nameList spaced names) :
    isWordChar c ∨ c = ' ' ∨ c = '"' ∨ c = ',' := by
  rcases mem_commaJoin h with rfl | rfl | ⟨item, hitem, hc⟩
  · exact .inr (.inr (.inr rfl))
  · exact .inr (.inl rfl)
  · obtain ⟨n, -, rfl⟩ := List.mem_map.mp hitem
    rcases Name.mem_text hc with h | h | h
    · exact .inl h
    · exact .inr (.inl h)
    · exact .inr (.inr (.inl h))

theorem ne_of_mem_nameList {spaced : Bool} {names : List Name} {c d : Char}
    (h : c ∈ nameList spaced names) (hd : isWordChar d = false)
    (hmarks : d ≠ ' ' ∧ d ≠ '"' ∧ d ≠ ',') : c ≠ d := by
  rintro rfl
  rcases mem_nameList h with h | h | h | h
  · rw [hd] at h
    cases h
  · exact hmarks.1 h
  · exact hmarks.2.1 h
  · exact hmarks.2.2 h

theorem nameList_ne_nil (spaced : Bool) {names : List Name} (hne : names ≠ []) :
    nameList spaced names ≠ [] := by
  obtain ⟨n, names, rfl⟩ := List.exists_cons_of_ne_nil hne
  refine commaJoin_ne_nil ?_ _
  obtain ⟨c, rest, hcontent⟩ := List.exists_cons_of_ne_nil n.content_ne_nil
  cases n with
  | bare word => exact word.nonempty
  | quoted text _ _ _ => exact List.cons_ne_nil _ _

theorem splitIdentifiers_nameList (spaced : Bool) (names : List Name) :
    splitIdentifiers (nameList spaced names) = names.map (·.string) :=
  splitIdentifiers_map spaced Name.text Name.string fun n _ =>
    ⟨n.not_mem_text (by decide) (by decide) (by decide), n.itemName?_eq⟩

theorem isIdentifier_of_mem (name : Option Name) : ∀ n ∈ name.map (·.text), IsIdentifier n := by
  intro n hn
  obtain ⟨name, -, rfl⟩ := Option.map_eq_some_iff.mp hn
  exact name.isIdentifier

/-- A foreign key is read back, whatever is said behind it. -/
theorem parse?_foreignKey (name : Option Name) (spaced : Bool) {columns references : List Name}
    (hcolumns : columns ≠ []) (table : Target) (space : Bool) (hreferences : references ≠ [])
    {tail : Text} (htail : EndsSolid tail) :
    Constraint.parse? .postgresql (foreignKeyText (name.map (·.text)) (nameList spaced columns)
        table.text (spaceText space) (nameList spaced references) ++ tail) =
      some (.foreignKey ⟨columns.map (·.string), table.name.string, references.map (·.string)⟩) := by
  have hname : ∀ n ∈ name.map (·.text), IsIdentifier n := isIdentifier_of_mem name
  have hspace : ∀ c ∈ spaceText space, isBlank c := by cases space <;> decide
  have hclose : ∀ {names}, ∀ c ∈ nameList spaced names, c ≠ ')' :=
    fun c hc => ne_of_mem_nameList hc (by decide) (by decide)
  have hsplit := splitIdentifiers_nameList spaced columns
  have htargets := splitIdentifiers_nameList spaced references
  rw [Constraint.parse?_foreignKeyText hname (nameList_ne_nil spaced hcolumns) hclose
    table.isQualified hspace (nameList_ne_nil spaced hreferences) hclose htail
    (hsplit ▸ by simpa using hcolumns) (htargets ▸ by simpa using hreferences), hsplit, htargets,
    table.normalize_eq]

theorem parse?_primaryKey (name : Option Name) (spaced : Bool) {columns : List Name}
    (hcolumns : columns ≠ []) :
    Constraint.parse? .postgresql (primaryKeyText (name.map (·.text)) (nameList spaced columns)) =
      some (.primaryKey (columns.map (·.string))) := by
  have hlist : shallowText.Reads (nameList spaced columns) [')'] [] :=
    Shallow.reads (.of_forall fun c hc => ⟨ne_of_mem_nameList hc (by decide) (by decide),
      ne_of_mem_nameList hc (by decide) (by decide)⟩) []
  have hsplit := splitIdentifiers_nameList spaced columns
  rw [Constraint.parse?_primaryKeyText (isIdentifier_of_mem name) hlist
    (hsplit ▸ by simpa using hcolumns), hsplit]

theorem parse?_keyText (k : KeyClause) :
    Constraint.parse? .postgresql k.keyText = some k.constraint := by
  rw [keyText, constraint]
  cases k.key with
  | primaryKey spaced columns nonempty => exact parse?_primaryKey k.constraintName spaced nonempty
  | foreignKey spaced columns nonempty table space references referencesNonempty suffix =>
      have h := @parse?_foreignKey k.constraintName spaced _ _ nonempty table space
        referencesNonempty [] (by decide)
      rwa [List.append_nil] at h

theorem parse?_text (k : KeyClause) : Constraint.parse? .postgresql k.text = some k.constraint := by
  rw [text, keyText, suffixText, constraint]
  cases k.key with
  | primaryKey spaced columns nonempty =>
      rw [List.append_nil]
      exact parse?_primaryKey k.constraintName spaced nonempty
  | foreignKey spaced columns nonempty table space references referencesNonempty suffix =>
      exact parse?_foreignKey k.constraintName spaced nonempty table space referencesNonempty
        suffix.solid

theorem trimmed_text (k : KeyClause) : Trimmed k.text := by
  rw [text, keyText, suffixText]
  cases k.key with
  | primaryKey spaced columns nonempty =>
      rw [List.append_nil]
      exact trimmed_primaryKeyText
  | foreignKey spaced columns nonempty table space references referencesNonempty suffix =>
      exact trimmed_foreignKeyText suffix.solid

theorem opensConstraint_text (k : KeyClause) : opensConstraint .postgresql k.text = true := by
  rw [text, keyText]
  cases k.constraintName with
  | none =>
      cases k.key with
      | primaryKey => exact opensConstraint_postgresql "PRIMARY" (by decide) (stops_cons.mpr (by decide))
      | foreignKey => exact opensConstraint_postgresql "FOREIGN" (by decide) (stops_cons.mpr (by decide))
  | some n =>
      cases k.key <;>
        exact opensConstraint_postgresql "CONSTRAINT" (by decide) (stops_cons.mpr (by decide))

end KeyClause

end SchemaDump.PostgreSQL
