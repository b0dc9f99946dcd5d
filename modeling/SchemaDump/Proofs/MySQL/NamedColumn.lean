import SchemaDump.Proofs.Dump.ListedColumn
import SchemaDump.Proofs.MySQL.ColumnDefinition
import SchemaDump.Proofs.Pattern.Parts
/- Columns by their names. A name with a word behind it defines a column of that name, whatever stands behind the
word: every text can be read as arguments, modifiers and options. -/
namespace SchemaDump.MySQL
open SqlPattern Pattern
open PostgreSQL (Spacing)

variable {before : Option Char} {t v : Text}

def definitionPattern : SqlPattern :=
  part .type typePattern ++ (part .options (run (fun _ => true) .longest) ++ textEnd)

theorem exists_mem_readings_typePattern {c : Char} (hc : isWordChar c) (before : Option Char) (t : Text) :
    ∃ r, r ∈ typePattern.readings before (c :: t) := by
  have hstops : Stops isWordChar ((c :: t).dropWhile isWordChar) := by
    intro d hd
    have hhead := List.head?_dropWhile_not isWordChar (c :: t)
    rw [Option.mem_def.mp hd] at hhead
    simpa using hhead
  have hword : (run1 isWordChar .longest : SqlPattern).Reads ((c :: t).takeWhile isWordChar)
      ((c :: t).dropWhile isWordChar) [] :=
    reads_run1 (by rw [List.takeWhile_cons_of_pos hc]; exact List.cons_ne_nil _ _)
      (List.all_eq_true.mp List.all_takeWhile) hstops
  have hread := mem_of_read? (hword before)
  rw [List.takeWhile_append_dropWhile] at hread
  have hconsumes : modifierPattern.Consumes := consumes_of_not_nullable rfl
  have hmodifiers : ∀ before t, (⟨[], [], t⟩ : Match Part) ∈ (many modifierPattern).readings before t := by
    intro before t
    rw [readings_many hconsumes]
    exact List.mem_append_right _ (List.mem_singleton_self _)
  have harguments : ∀ before t, (⟨[], [], t⟩ : Match Part) ∈ (maybe argumentPattern).readings before t :=
    fun _ _ => List.mem_append_right _ (List.mem_singleton_self _)
  exact ⟨_, mem_readings_seq.mpr ⟨_, mem_readings_seq.mpr ⟨_, hread, _, harguments _ _, rfl⟩, _, hmodifiers _ _, rfl⟩⟩

theorem exists_read?_definitionPattern {c : Char} (hc : isWordChar c) (before : Option Char) (t : Text) :
    ∃ r, definitionPattern.read? before (c :: t) = some r := by
  have htype : (part .type typePattern).read? before (c :: t) ≠ none := by
    obtain ⟨r, hr⟩ := exists_mem_readings_typePattern hc before t
    rw [Ne, ← readings_eq_nil_iff, readings_part, List.map_eq_nil_iff]
    exact List.ne_nil_of_mem hr
  obtain ⟨r, hr⟩ := Option.ne_none_iff_exists'.mp htype
  have hrun : (run (fun _ => true) .longest : SqlPattern).Reads r.rest [] [] :=
    reads_run (fun _ _ => rfl) (stops_nil _)
  have hoptions := (hrun.part Part.options).seq_end reads_textEnd (lastOf before r.read)
  rw [List.append_nil, List.append_nil] at hoptions
  exact ⟨_, read?_seq hr hoptions⟩

def nameParts : Identifier .mysql → List (Part × Text)
  | .bare word => [(.name, word.text)]
  | .quoted text _ _ _ _ => [(.quotedName, text)]

variable (n : Identifier .mysql)

theorem reads_columnName (hv : Stops isWordChar v) : columnName.Reads n.text v (nameParts n) := by
  cases n with
  | bare word => exact reads_columnName_bare word hv
  | quoted text nonempty closed _ _ => exact reads_columnName_quoted nonempty closed v

theorem unquote_content : unquote n.content = n.content := by
  cases n with
  | bare word =>
      rw [unquote, Identifier.content, (trimmed_of_wordChars word.chars).trim_eq, List.filter_eq_self]
      intro c hc
      have hword := word.chars c hc
      simp [ne_of_isWordChar (d := '"') (by decide) hword, ne_of_isWordChar (d := backQuote) (by decide) hword]
  | quoted text _ _ _ kept => exact kept rfl

/-- A name with a word behind it defines a column of that name. -/
theorem exists_parseColumn? (behind : Spacing) {c : Char} (hc : isWordChar c) (t : Text) :
    ∃ column, parseColumn? (n.text ++ (behind.text ++ c :: t)) = some column ∧ column.name = n.string := by
  have hblank : Stops isBlank (c :: t) := stops_cons.mpr (isBlank_eq_false_of_isWordChar hc)
  have hname : columnName.read? none (n.text ++ (behind.text ++ c :: t)) =
      some ⟨n.text, nameParts n, behind.text ++ c :: t⟩ :=
    reads_columnName n (behind.stops (fun _ => isWordChar_eq_false_of_isBlank) _) none
  obtain ⟨r, hr⟩ := exists_read?_definitionPattern hc (lastOf (lastOf none n.text) behind.text) t
  have hsplit : columnDefinition.read? none (n.text ++ (behind.text ++ c :: t)) =
      (columnName ++ (blanks ++ definitionPattern)).read? none (n.text ++ (behind.text ++ c :: t)) := by
    simp only [columnDefinition, definitionPattern, read?_seq_assoc]
    rfl
  have hread := hsplit.trans (read?_seq hname (read?_seq (behind.reads hblank _) hr))
  obtain ⟨o, ho, hreading⟩ := exists_at?_of_read? (.atStart (n.text ++ (behind.text ++ c :: t))) hread
  have hopening : columnDefinition.opening? (n.text ++ (behind.text ++ c :: t)) = some o := ho
  have hmem := mem_of_read? hr
  have hfound : (o.part? .quotedName <|> o.part? .name) = some n.content := by
    rw [Occurrence.part?_eq, Occurrence.part?_eq, hreading, ← Match.andThen_assoc,
      part?_andThen_of_not_mem (by decide) hmem, part?_andThen_of_not_mem (by decide) hmem]
    cases n <;> rfl
  rw [parseColumn?, hopening]
  simp only [Option.bind_eq_bind, Option.bind_some, hfound, unquote_content]
  exact ⟨_, rfl, rfl⟩

end SchemaDump.MySQL
