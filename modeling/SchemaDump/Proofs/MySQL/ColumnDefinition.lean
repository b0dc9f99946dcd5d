import SchemaDump.Proofs.Definition.Identifier
import SchemaDump.Proofs.MySQL.Attribute
import SchemaDump.Proofs.Pattern.Reads
/- Reading a column line. The type ends where the attributes start, the comment and the default are
found among the attributes, and what is left tells whether the column may be null. -/
namespace SchemaDump.MySQL
open SqlPattern Pattern
open PostgreSQL (Word)

variable {before : Option Char} {t v : Text}

/-- What the attributes of a column may start with. -/
def optionLetters : Text := ['N', 'P', 'A', 'D', 'C', 'R']

/-- What may follow a type: nothing, a comma, or a blank and the start of an attribute. -/
def OptionsAhead (t : Text) : Prop := t = [] ∨ (∃ u, t = ',' :: u) ∨ ∃ d u, t = ' ' :: d :: u ∧ d ∈ optionLetters

theorem OptionsAhead.endsPart (h : OptionsAhead t) : EndsPart t := by
  refine h.imp_right (Or.imp_right ?_)
  rintro ⟨d, u, ht, hd⟩
  have halpha : ∀ d ∈ optionLetters, d.isAlpha := by decide
  exact ⟨d, u, ht, halpha d hd⟩

/-- What may stand behind a definition up to the end of its fragment: nothing, or a comma and anything. -/
def IsTrail (t : Text) : Prop := ∀ c ∈ t.head?, c = ','

instance (t : Text) : Decidable (IsTrail t) := inferInstanceAs (Decidable (∀ c ∈ t.head?, c = ','))

theorem isTrail_nil : IsTrail [] := fun _ hc => nomatch hc

theorem IsTrail.stops (h : IsTrail t) {accepts : Char → Bool} (hcomma : accepts ',' = false) : Stops accepts t :=
  fun c hc => h c hc ▸ hcomma

theorem IsTrail.rejects (h : IsTrail t) {p : SqlPattern} (hnull : p.nullable = false) (hcomma : p.starts ',' = false) :
    p.Rejects t := .of_starts hnull (h.stops hcomma)

theorem IsTrail.optionsAhead (h : IsTrail t) : OptionsAhead t := by
  cases t with
  | nil => exact .inl rfl
  | cons c t => exact .inr (.inl ⟨t, by rw [h c rfl]⟩)

theorem ColumnOption.exists_text_eq (o : ColumnOption) : ∃ d u, o.text = ' ' :: d :: u ∧ d ∈ optionLetters := by
  cases o with
  | notNull => exact ⟨'N', _, rfl, by decide⟩
  | primaryKey => exact ⟨'P', _, rfl, by decide⟩
  | autoIncrement => exact ⟨'A', _, rfl, by decide⟩
  | default => exact ⟨'D', _, rfl, by decide⟩
  | comment => exact ⟨'C', _, rfl, by decide⟩

theorem Attribute.exists_text_eq (a : Attribute) : ∃ d u, a.text = ' ' :: d :: u ∧ d ∈ optionLetters := by
  cases a with
  | option o => exact o.exists_text_eq
  | null => exact ⟨'N', _, rfl, by decide⟩
  | collate => exact ⟨'C', _, rfl, by decide⟩
  | references => exact ⟨'R', _, rfl, by decide⟩
  | default => exact ⟨'D', _, rfl, by decide⟩

theorem attributesText_append (front back : List Attribute) :
    attributesText (front ++ back) = attributesText front ++ attributesText back := List.flatMap_append

theorem attributesText_cons (a : Attribute) (attributes : List Attribute) :
    attributesText (a :: attributes) = a.text ++ attributesText attributes := List.flatMap_cons

theorem attributesText_starts (attributes : List Attribute) (hv : OptionsAhead v) :
    OptionsAhead (attributesText attributes ++ v) := by
  cases attributes with
  | nil => exact hv
  | cons a attributes =>
      obtain ⟨d, u, htext, hd⟩ := a.exists_text_eq
      exact .inr (.inr ⟨d, (u ++ attributesText attributes) ++ v, by rw [attributesText_cons, htext]; rfl, hd⟩)

theorem endsPart_attributesText (attributes : List Attribute) (hv : OptionsAhead v) :
    EndsPart (attributesText attributes ++ v) := (attributesText_starts attributes hv).endsPart

theorem endsPart_modifierText (modifiers : List Modifier) (h : EndsPart v) :
    EndsPart (ColumnType.modifierText modifiers ++ v) := by
  cases modifiers with
  | nil => exact h
  | cons m modifiers =>
      refine .inr (.inr ?_)
      cases m with
      | unsigned => exact ⟨'u', _, rfl, by decide⟩
      | signed => exact ⟨'s', _, rfl, by decide⟩
      | zerofill => exact ⟨'z', _, rfl, by decide⟩

def argumentPattern : SqlPattern :=
  gap ++ literal "(" ++ run (· != ')') .longest ++ literal ")"

def modifierPattern : SqlPattern :=
  blanks ++ anyOf [keyword "unsigned", keyword "signed", keyword "zerofill"]

def typePattern : SqlPattern :=
  run1 isWordChar .longest ++ maybe argumentPattern ++ many modifierPattern

theorem rejects_argumentPattern (h : EndsPart t) : argumentPattern.Rejects t := by
  have hparen : (literal "(" : SqlPattern).nullable = false := rfl
  have hstarts : ∀ c, (literal "(" : SqlPattern).starts c = (c == '(') := fun c => by
    simp [literal]
  refine Rejects.seq (Rejects.seq ?_ _) _
  rcases h with rfl | ⟨u, rfl⟩ | ⟨c, u, rfl, hc⟩
  · exact Rejects.of_starts rfl (stops_nil _)
  · exact Rejects.of_starts rfl (stops_cons.mpr (by decide))
  · have hblank : Stops isBlank (c :: u) :=
      stops_cons.mpr (isBlank_eq_false_of_isWordChar (isWordChar_of_isAlpha hc))
    refine Rejects.gap (u := [' ']) (by decide) hblank hparen ?_ (.of_starts hparen ?_)
    · intro d hd
      have hne : d ≠ '(' := by
        rintro rfl
        exact absurd hd (by decide)
      simpa [hstarts] using hne
    · have hne : c ≠ '(' := by
        rintro rfl
        exact absurd hc (by decide)
      simpa [hstarts] using hne

theorem reads_argumentPattern {a : Text} (ha : ∀ c ∈ a, c ≠ ')') :
    argumentPattern.Reads ('(' :: (a ++ [')'])) v [] := by
  have hrun : (run (· != ')') .longest : SqlPattern).Reads a (')' :: v) [] :=
    reads_run (fun c hc => bne_iff_ne.mpr (ha c hc)) (stops_cons.mpr (by decide))
  have h := (((reads_no_gap (stops_cons.mpr (by decide))).seq (reads_literal "(" _)).seq hrun).seq
    (reads_literal ")" v)
  rw [argumentPattern]
  simpa using h

theorem reads_modifierPattern (m : Modifier) (v : Text) :
    modifierPattern.Reads (' ' :: m.word.toList) v [] := by
  have hstops : ∀ m : Modifier, Stops isBlank (m.word.toList ++ v) := by
    intro m
    cases m <;> exact stops_cons.mpr (by decide)
  have hword : (anyOf [keyword "unsigned", keyword "signed", keyword "zerofill"] :
      SqlPattern).Reads m.word.toList v [] := by
    cases m with
    | unsigned => exact (reads_keyword "unsigned" v).preferred _
    | signed =>
        exact .other (.keyword rfl (stops_cons.mpr (by decide)))
          ((reads_keyword "signed" v).preferred _)
    | zerofill =>
        exact .other (.keyword rfl (stops_cons.mpr (by decide)))
          (.other (.keyword rfl (stops_cons.mpr (by decide))) (reads_keyword "zerofill" v))
  exact (reads_blanks (hstops m)).seq hword

theorem rejects_modifierPattern (h : OptionsAhead v) : modifierPattern.Rejects v := by
  rcases h with h | ⟨u, h⟩ | ⟨d, u, h, hd⟩
  · rw [h]
    exact .of_starts rfl (stops_nil _)
  · rw [h]
    exact .of_starts rfl (stops_cons.mpr (by decide))
  · have hblank : ∀ d ∈ optionLetters, isBlank d = false := by decide
    have hletter : ∀ d ∈ optionLetters, ∀ e ∈ ['u', 's', 'z'], sameLetter e d = false := by decide
    rw [h]
    refine .blanks (stops_cons.mpr (hblank d hd)) ?_
    exact .alt (.keyword rfl (stops_cons.mpr (hletter d hd 'u' (by decide))))
      (.alt (.keyword rfl (stops_cons.mpr (hletter d hd 's' (by decide))))
        (.keyword rfl (stops_cons.mpr (hletter d hd 'z' (by decide)))))

theorem Arguments.ne_paren (a : Arguments) (h : ∀ l ∈ a.contents, ')' ∉ l.text) : ∀ c ∈ a.text, c ≠ ')' := by
  rintro c hc rfl
  cases a with
  | plain text chars => exact (chars _ hc).1 rfl
  | literals spaced first more =>
      rcases mem_commaJoin hc with hmark | hmark | ⟨item, hitem, hc⟩
      · cases hmark
      · cases hmark
      · obtain ⟨l, hl, rfl⟩ := List.mem_map.mp hitem
        rcases List.mem_cons.mp hc with hc | hc
        · cases hc
        · rcases List.mem_append.mp hc with hc | hc
          · exact h l hl hc
          · exact absurd hc (by decide)

theorem reads_typePattern (t : DataType) (h : ∀ l ∈ t.contents, ')' ∉ l.text) (hv : OptionsAhead v) :
    typePattern.Reads t.text v [] := by
  have hmodifiers : (many modifierPattern).Reads (ColumnType.modifierText t.modifiers) v [] :=
    reads_rounds (consumes_of_not_nullable rfl) _ (fun _ => True)
      (fun m _ w _ => reads_modifierPattern m w) (fun _ _ _ => trivial) trivial
      (rejects_modifierPattern hv)
  have hahead := endsPart_modifierText t.modifiers hv.endsPart
  have harguments : (maybe argumentPattern).Reads t.argumentText
      (ColumnType.modifierText t.modifiers ++ v) [] := by
    rw [DataType.argumentText]
    cases ha : t.arguments with
    | none => exact reads_missing (rejects_argumentPattern hahead)
    | some a => exact (reads_argumentPattern (a.ne_paren fun l hl => h l (DataType.mem_contents ha hl))).maybe
  have hword : (run1 isWordChar .longest : SqlPattern).Reads t.word
      (t.argumentText ++ (ColumnType.modifierText t.modifiers ++ v)) [] := by
    refine reads_run1 t.wordNonempty t.wordChars ?_
    rw [DataType.argumentText]
    cases t.arguments with
    | none => exact hahead.stops (by decide)
    | some a => exact stops_cons.mpr (by decide)
  have h := (hword.seq harguments).seq hmodifiers
  rwa [List.append_assoc] at h

theorem DataType.stops (t : DataType) {accepts : Char → Bool} (h : ∀ c, isWordChar c → accepts c = false) (v : Text) :
    Stops accepts (t.text ++ v) := by
  rw [DataType.text, List.append_assoc]
  exact Word.stops ⟨t.word, t.wordNonempty, t.wordChars⟩ h _

theorem stops_typeText (t : DataType) (v : Text) : Stops isBlank (t.text ++ v) :=
  t.stops (fun _ => isBlank_eq_false_of_isWordChar) v

def columnName : SqlPattern :=
  alt (within backQuote (part .quotedName (unquotedRun backQuote))) (part .name (run1 isWordChar .longest))

theorem reads_columnName_quoted (hne : t ≠ []) (hclosed : backQuote ∉ t) (v : Text) :
    columnName.Reads (backQuote :: (t ++ [backQuote])) v [(.quotedName, t)] := by
  have hrun := reads_unquotedRun hne hclosed v
  exact (reads_within (hrun.part Part.quotedName)).preferred _

theorem reads_columnName_bare (word : Word) (hv : Stops isWordChar v) :
    columnName.Reads word.text v [(.name, word.text)] := by
  have hquote : (one (· == backQuote) : SqlPattern).Rejects (word.text ++ v) := .of_starts rfl (word.stops
    (fun c hc => beq_eq_false_iff_ne.mpr (ne_of_isWordChar (by decide) hc)) _)
  have hword : (run1 isWordChar .longest : SqlPattern).Reads word.text v [] :=
    reads_run1 word.nonempty word.chars hv
  exact .other ((hquote.seq _).seq _) (hword.part Part.name)

namespace ColumnName

variable (n : ColumnName)

theorem stops {accepts : Char → Bool} (hquote : accepts backQuote = false)
    (hword : ∀ c, isWordChar c → accepts c = false) (v : Text) : Stops accepts (n.text ++ v) := by
  cases n with
  | quoted name => exact stops_cons.mpr hquote
  | bare word => exact word.stops hword v

def part : ColumnName → Part × Text
  | quoted name => (.quotedName, name.text)
  | bare word _ => (.name, word.text)

theorem reads (hv : Stops isWordChar v) : columnName.Reads n.text v [n.part] := by
  cases n with
  | quoted name => exact reads_columnName_quoted name.nonempty (fun hmem => (name.chars _ hmem).1 rfl) v
  | bare word => exact reads_columnName_bare word hv

end ColumnName

/-- What a column line is made of, as the pattern of a definition sees it. -/
theorem reads_columnDefinition (name : ColumnName) (type : DataType) (h : ∀ l ∈ type.contents, ')' ∉ l.text)
    {options : Text} (hahead : OptionsAhead options) :
    columnDefinition.Reads (name.text ++ ' ' :: (type.text ++ options)) []
      [(.options, options), (.type, type.text), name.part] := by
  have hname : columnName.Reads name.text (' ' :: (type.text ++ (options ++ []))) [name.part] :=
    name.reads (stops_cons.mpr (by decide))
  have hblanks : (blanks : SqlPattern).Reads [' '] (type.text ++ (options ++ [])) [] :=
    reads_blanks (stops_typeText type _)
  have htype : (part .type typePattern).Reads type.text (options ++ []) [(.type, type.text)] := by
    rw [List.append_nil]
    exact (reads_typePattern type h hahead).part .type
  have hoptions : (run (fun _ => true) .longest : SqlPattern).Reads options [] [] :=
    reads_run (fun _ _ => rfl) (stops_nil _)
  have h := (((hname.seq hblanks).seq htype).seq (hoptions.part Part.options)).seq reads_textEnd
  simpa [columnDefinition, columnName, typePattern, argumentPattern, modifierPattern] using h

end SchemaDump.MySQL
