import SchemaDump.Proofs.Definition.CommentedBody
import SchemaDump.Proofs.MySQL.Line
import SchemaDump.Proofs.MySQL.Locality
import SchemaDump.Proofs.Pattern.Seam
/- A body ends at the parenthesis in front of the storage engine. No parenthesis within a line is
followed by an engine, so the body reaches to the end of its lines. -/
namespace SchemaDump.MySQL
open SqlPattern Pattern

variable {before : Option Char} {u v : Text}

theorem encloses_bodyEnd : Encloses bodyEnd (· == ')') "ENGINE" := by
  intro before t r hr
  obtain ⟨a, ha, b, hb, -⟩ := mem_readings_seq.mp hr
  obtain ⟨-, hparen, ht⟩ := mem_readings_literal.mp ha
  obtain ⟨g, hg, d, hd, -⟩ := mem_readings_seq.mp hb
  obtain ⟨-, hgrest, hblank⟩ := mem_readings_run.mp hg
  obtain ⟨e, he, f, hf, -⟩ := mem_readings_seq.mp hd
  obtain ⟨-, hspells, herest⟩ := mem_readings_keyword.mp he
  refine ⟨')', g.read, e.read, e.rest, ?_, rfl, hblank, hspells, ?_⟩
  · rw [herest, hgrest, ← ht, hparen]
    rfl
  · have hnullable : (gap ++ literal "=" : SqlPattern).nullable = false := rfl
    obtain ⟨c, w, hc, hstart⟩ := exists_head_of_mem hnullable hf
    rw [hc]
    refine stops_cons.mpr ?_
    cases hword : isWordChar c with
    | false => rfl
    | true =>
        have hblank := isBlank_eq_false_of_isWordChar hword
        have hsign : c ≠ '=' := by
          rintro rfl
          exact absurd hword (by decide)
        have hstarts : (gap ++ literal "=" : SqlPattern).starts c = (isBlank c || c == '=') := by
          simp [append_eq_seq, gap, literal, starts, nullable]
        rw [hstarts, hblank] at hstart
        simp [hsign] at hstart

/-- Behind the blanks that a text starts with neither an engine is named nor one is given. -/
def NoEngineAhead (v : Text) : Prop :=
  Stops (fun c => (keyword "ENGINE" : SqlPattern).starts c || c == '=') (v.dropWhile isBlank)

theorem noEngineAhead_cons {c : Char} (hblank : isBlank c = false) (hopens : sameLetter 'E' c = false ∧ c ≠ '=')
    (v : Text) : NoEngineAhead (c :: v) := by
  have hletter : (keyword "ENGINE" : SqlPattern).starts c = false :=
    (starts_spelled_cons (w := "NGINE".toList)).trans hopens.1
  rw [NoEngineAhead, List.dropWhile_cons_of_neg (by simp [hblank])]
  exact stops_cons.mpr (by simp [hletter, hopens.2])

theorem NoEngineAhead.blank (h : NoEngineAhead v) {c : Char} (hblank : isBlank c) :
    NoEngineAhead (c :: v) := by
  rw [NoEngineAhead, List.dropWhile_cons_of_pos hblank]
  exact h

theorem NoEngineAhead.rejects_gap {q : SqlPattern} (h : NoEngineAhead v) (hnull : q.nullable = false)
    (hblank : ∀ c, isBlank c → q.starts c = false)
    (hq : ∀ c, q.starts c → (keyword "ENGINE" : SqlPattern).starts c || c == '=') : (gap ++ q).Rejects v := by
  have hsplit : v = v.takeWhile isBlank ++ v.dropWhile isBlank := List.takeWhile_append_dropWhile.symm
  have hstops : Stops isBlank (v.dropWhile isBlank) := by
    intro c hc
    have hfirst := List.head?_dropWhile_not isBlank v
    rw [Option.mem_def.mp hc] at hfirst
    exact hfirst
  have hrest : Stops q.starts (v.dropWhile isBlank) := by
    intro c hc
    cases hstart : q.starts c with
    | false => rfl
    | true => exact (hq c hstart).symm.trans (h c hc)
  have hblanks : ∀ c ∈ v.takeWhile isBlank, isBlank c := List.all_eq_true.mp List.all_takeWhile
  have hgap := Rejects.gap hblanks hstops hnull hblank (.of_starts hnull hrest)
  rwa [← hsplit] at hgap

theorem NoEngineAhead.rejects_engine (h : NoEngineAhead v) :
    (gap ++ (keyword "ENGINE" ++ (gap ++ literal "=")) : SqlPattern).Rejects v :=
  h.rejects_gap rfl (starts_keyword_seq_of_blank rfl (by decide)) fun c hc => by
    rw [append_eq_seq, starts, show (keyword "ENGINE" : SqlPattern).nullable = false from rfl, Bool.false_and,
      Bool.or_false] at hc
    rw [hc, Bool.true_or]

theorem NoEngineAhead.rejects_sign (h : NoEngineAhead v) : (gap ++ literal "=" : SqlPattern).Rejects v := by
  have hstarts : ∀ c, (literal "=" : SqlPattern).starts c = (c == '=') := fun c => by simp [literal]
  refine h.rejects_gap rfl (fun c hc => ?_) fun c hc => by rw [← hstarts, hc, Bool.or_true]
  rw [hstarts, beq_eq_false_iff_ne]
  rintro rfl
  exact absurd hc (by decide)

theorem NoEngineAhead.stops (h : NoEngineAhead v) : Stops (· == '=') v := by
  cases v with
  | nil => exact stops_nil _
  | cons c v =>
      refine stops_cons.mpr (beq_eq_false_iff_ne.mpr ?_)
      rintro rfl
      have hmark := (Bool.or_eq_false_iff.mp (h '=' rfl)).2
      cases hmark

theorem silent_of_no_paren (h : ')' ∉ u) : bodyEnd.Silent before u v := by
  apply silent_of_starts rfl
  intro c hc
  have hne : c ≠ ')' := fun hcp => h (hcp ▸ hc)
  have hstarts : bodyEnd.starts c = (c == ')') := by
    simp [bodyEnd, append_eq_seq, literal, starts]
  rw [hstarts]
  exact beq_eq_false_iff_ne.mpr hne

theorem silent_paren (h : NoEngineAhead v) : bodyEnd.Silent before [')'] v :=
  silent_cons.mpr ⟨Rejects.behind (fun before => readings_literal ")" before v) h.rejects_engine before, silent_nil v⟩

/-- A text that holds no end of a body does not end one together with what stands behind it. -/
theorem silent_text (hu : bodyEnd.occursIn u = false) (hv : Stops isWordChar v) (h : NoEngineAhead v) :
    bodyEnd.Silent before u v := by
  have hsign : (gap ++ literal "=" : SqlPattern).Confined u v :=
    confined_gap_seq (confined_mark rfl h.stops) h.rejects_sign
  have hword : (keyword "ENGINE" : SqlPattern).Confined u v := confined_keyword_of_stops (by decide) hv
  have hengine := confined_gap_seq (hword.seq hsign) h.rejects_engine
  exact (Body.staysWithin_parenthesis.seq hengine).silent rfl hu

theorem silent_noEngine (hu : hasWord "ENGINE" u = false) (hv : Stops isWordChar v)
    (hengine : NoEngineAhead v) : bodyEnd.Silent before u v := by
  have hopens : ∀ c : Char, (c == ')') = true → isWordChar c = false := by
    intro c hc
    rw [beq_iff_eq.mp hc]
    decide
  exact silent_of_hasWord encloses_bodyEnd (by decide) (by decide) hopens hu (.inl hv)
    (.inl fun c hc => (Bool.or_eq_false_iff.mp (hengine c hc)).1)

theorem Name.no_paren (n : Name) : ')' ∉ n.quoted :=
  n.not_mem_quoted (by decide) (by decide) (by decide)

theorem Name.no_bodyEnd (n : Name) : bodyEnd.occursIn n.text = false :=
  occursIn_eq_false_of_silent (consumes_of_not_nullable rfl)
    (silent_of_no_paren (n.not_mem (by decide) (by decide)))

theorem silent_quoted (l : Content) (hl : bodyEnd.occursIn l.text = false) :
    bodyEnd.Silent before l.quoted v := by
  have hsplit : l.quoted = ['\''] ++ (l.text ++ ['\'']) := rfl
  have hcontent : bodyEnd.StaysWithin l.text ('\'' :: v) := staysWithin_of_not_mentioned rfl
  rw [hsplit, silent_append, silent_append]
  exact ⟨silent_of_no_paren (by decide), hcontent.silent rfl hl, silent_of_no_paren (by decide)⟩

theorem noEngineAhead_attributesText (attributes : List Attribute) (h : NoEngineAhead v) :
    NoEngineAhead (attributesText attributes ++ v) := by
  cases attributes with
  | nil => exact h
  | cons a attributes =>
      obtain ⟨d, u, htext, hd⟩ := a.exists_text_eq
      have hletter : ∀ d ∈ optionLetters, isBlank d = false ∧ sameLetter 'E' d = false ∧ d ≠ '=' := by decide
      rw [attributesText_cons, htext]
      exact (noEngineAhead_cons (hletter d hd).1 (hletter d hd).2 _).blank (by decide)

theorem noEngineAhead_modifierText (modifiers : List Modifier) (h : NoEngineAhead v) :
    NoEngineAhead (ColumnType.modifierText modifiers ++ v) := by
  cases modifiers with
  | nil => exact h
  | cons m modifiers =>
      cases m <;> exact (noEngineAhead_cons (by decide) (by decide) _).blank (by decide)

theorem silent_arguments (a : Arguments) (ha : ∀ l ∈ a.contents, bodyEnd.occursIn l.text = false) :
    bodyEnd.Silent before a.text v := by
  cases a with
  | plain text chars => exact silent_of_no_paren fun hmem => (chars _ hmem).1 rfl
  | literals spaced first more =>
      have hseparator : ')' ∉ ',' :: (if spaced then [' '] else []) := by cases spaced <;> decide
      have hall : ∀ literals : List Content, (∀ l ∈ literals, bodyEnd.occursIn l.text = false) →
          ∀ before, bodyEnd.Silent before (commaJoin spaced (literals.map (·.quoted))) v := by
        intro literals hliterals
        induction literals with
        | nil => exact fun _ => silent_nil v
        | cons l literals ih =>
            obtain ⟨hl, hliterals⟩ := List.forall_mem_cons.mp hliterals
            cases literals with
            | nil => exact fun _ => silent_quoted l hl
            | cons next literals =>
                exact fun _ => (silent_quoted l hl).append ((silent_of_no_paren hseparator).append (ih hliterals _))
      exact hall (first :: more) ha before

theorem silent_dataType (type : DataType) (hc : ∀ l ∈ type.contents, bodyEnd.occursIn l.text = false)
    (h : NoEngineAhead v) : bodyEnd.Silent before type.text v := by
  have hword : ')' ∉ type.word := fun hmem => absurd (type.wordChars _ hmem) (by decide)
  have hmodifiers : ')' ∉ ColumnType.modifierText type.modifiers := by
    rw [ColumnType.modifierText, List.mem_flatMap]
    rintro ⟨m, -, hmem⟩
    revert hmem
    cases m <;> decide
  have harguments : ∀ before, bodyEnd.Silent before type.argumentText
      (ColumnType.modifierText type.modifiers ++ v) := by
    intro before
    rw [DataType.argumentText]
    cases ha : type.arguments with
    | none => exact silent_nil _
    | some a =>
        have hopen : ')' ∉ ['('] := by decide
        exact (silent_of_no_paren hopen).append ((silent_arguments a fun l hl =>
          hc l (DataType.mem_contents ha hl)).append (silent_paren (noEngineAhead_modifierText _ h)))
  exact (silent_of_no_paren hword).append ((harguments _).append (silent_of_no_paren hmodifiers))

theorem silent_option (o : ColumnOption) (ho : ∀ l ∈ o.contents, bodyEnd.occursIn l.text = false) :
    bodyEnd.Silent before o.text v := by
  cases o with
  | notNull => exact silent_of_no_paren (by decide)
  | primaryKey => exact silent_of_no_paren (by decide)
  | autoIncrement => exact silent_of_no_paren (by decide)
  | comment l =>
      have hsplit : (ColumnOption.comment l).text = " COMMENT ".toList ++ l.quoted := rfl
      rw [hsplit, silent_append]
      exact ⟨silent_of_no_paren (by decide), silent_quoted l (ho l (List.mem_singleton_self l))⟩
  | default d =>
      have hsplit : (ColumnOption.default d).text = " DEFAULT ".toList ++ d.text := rfl
      rw [hsplit, silent_append]
      refine ⟨silent_of_no_paren (by decide), ?_⟩
      cases d with
      | literal content => exact silent_quoted content (ho content (List.mem_singleton_self content))
      | bare token hne hchars =>
          apply silent_of_no_paren
          intro hparen
          rcases hchars ')' hparen with h | h | h | h <;> exact absurd h (by decide)

theorem silent_anyName (n : QuotedName) (h : bodyEnd.occursIn n.text = false) : bodyEnd.Silent before n.quoted v := by
  have hsplit : n.quoted = [backQuote] ++ (n.text ++ [backQuote]) := rfl
  have hstays : bodyEnd.StaysWithin n.text (backQuote :: v) := staysWithin_of_not_mentioned rfl
  rw [hsplit, silent_append, silent_append]
  exact ⟨silent_of_no_paren (by decide), hstays.silent rfl h, silent_of_no_paren (by decide)⟩

theorem no_paren_word (word : PostgreSQL.Word) : ')' ∉ word.text := fun h => absurd (word.chars _ h) (by decide)

theorem silent_targetName (n : TargetName) (h : bodyEnd.occursIn n.content = false) :
    bodyEnd.Silent before n.text v := by
  cases n with
  | quoted name => exact silent_anyName name h
  | bare word => exact silent_of_no_paren (no_paren_word word)

theorem noEngineAhead_actions (actions : List ReferentialAction) (h : NoEngineAhead v) :
    NoEngineAhead (actionText actions ++ v) := by
  cases actions with
  | nil => exact h
  | cons action actions => exact (noEngineAhead_cons (by decide) (by decide) _).blank (by decide)

theorem no_paren_actionText (actions : List ReferentialAction) : ')' ∉ actionText actions := by
  rw [actionText, List.mem_flatMap]
  rintro ⟨⟨event, outcome⟩, -, hmem⟩
  revert hmem
  cases event <;> cases outcome <;> decide

theorem silent_reference (r : ColumnReference) (htable : bodyEnd.occursIn r.table.content = false)
    (h : NoEngineAhead v) : bodyEnd.Silent before (Attribute.references r).text v := by
  have hquiet : ∀ {u : Text}, ')' ∉ u → ∀ {before v}, bodyEnd.Silent before u v := fun hu => silent_of_no_paren hu
  have hgap : ')' ∉ (if r.spaced then [' '] else [] : Text) := by cases r.spaced <;> decide
  have hcolumn : ')' ∉ r.column.text := fun hmem => (r.listed _ hmem).2 rfl
  have hsplit : r.front = "REFERENCES".toList ++ ([' '] ++ (r.table.text ++ ((if r.spaced then [' '] else []) ++
      (['('] ++ (r.column.text ++ [')']))))) := rfl
  have hfront : ∀ before, bodyEnd.Silent before r.front (actionText r.actions ++ v) := fun before => by
    rw [hsplit]
    exact (hquiet (by decide)).append ((hquiet (by decide)).append ((silent_targetName r.table htable).append
      ((hquiet hgap).append ((hquiet (by decide)).append ((hquiet hcolumn).append
        (silent_paren (noEngineAhead_actions _ h)))))))
  have hblank : ∀ w, bodyEnd.Silent before [' '] w := fun w => silent_of_no_paren (by decide)
  exact (hblank _).append ((hfront _).append (silent_of_no_paren (no_paren_actionText _)))

theorem silent_attribute (a : Attribute) (ha : ∀ t ∈ a.opaqueTexts, bodyEnd.occursIn t = false)
    (hv : Stops isWordChar v) (h : NoEngineAhead v) : bodyEnd.Silent before a.text v := by
  cases a with
  | option o => exact silent_option o fun l hl => ha l.text (List.mem_map_of_mem hl)
  | null => exact silent_of_no_paren (by decide)
  | collate word =>
      have hsplit : (Attribute.collate word ‹_›).text = " COLLATE ".toList ++ word.text := rfl
      rw [hsplit, silent_append]
      exact ⟨silent_of_no_paren (by decide), silent_of_no_paren (no_paren_word word)⟩
  | references r => exact silent_reference r (ha _ List.mem_cons_self) h
  | default d =>
      have hsplit : (Attribute.default d).text = " DEFAULT ".toList ++ d.text := rfl
      rw [hsplit, silent_append]
      exact ⟨silent_of_no_paren (by decide), silent_text (ha d.text (List.mem_singleton_self _)) hv h⟩

theorem stops_attributesText (attributes : List Attribute) (hv : Stops isWordChar v) :
    Stops isWordChar (attributesText attributes ++ v) := by
  cases attributes with
  | nil => exact hv
  | cons a attributes =>
      obtain ⟨d, u, htext, -⟩ := a.exists_text_eq
      rw [attributesText_cons, htext]
      exact stops_cons.mpr (by decide)

theorem silent_attributesText (attributes : List Attribute)
    (hattributes : ∀ t ∈ attributes.flatMap (·.opaqueTexts), bodyEnd.occursIn t = false) (hv : Stops isWordChar v)
    (h : NoEngineAhead v) : bodyEnd.Silent before (attributesText attributes) v := by
  induction attributes generalizing before with
  | nil => exact silent_nil v
  | cons a attributes ih =>
      rw [List.flatMap_cons] at hattributes
      exact (silent_attribute a (fun t ht => hattributes t (List.mem_append_left _ ht))
        (stops_attributesText attributes hv) (noEngineAhead_attributesText attributes h)).append
          (ih fun t ht => hattributes t (List.mem_append_right _ ht))

theorem silent_attributeLine (c : AttributeLine) (hc : ∀ t ∈ c.opaqueTexts, bodyEnd.occursIn t = false)
    (hv : Stops isWordChar v) (h : NoEngineAhead v) : bodyEnd.Silent before c.text v := by
  have hblank : ')' ∉ [' '] := by decide
  have htype : ∀ before, bodyEnd.Silent before c.type.text (attributesText c.attributes ++ v) := fun _ =>
    silent_dataType c.type (fun l hl => hc _ (List.mem_cons_of_mem _ (List.mem_append_left _ (List.mem_map_of_mem hl))))
      (noEngineAhead_attributesText c.attributes h)
  have hattributes : ∀ before, bodyEnd.Silent before (attributesText c.attributes) v := fun _ =>
    silent_attributesText c.attributes (fun t ht => hc t (List.mem_cons_of_mem _ (List.mem_append_right _ ht))) hv h
  have hsplit : c.text = c.name.text ++ ([' '] ++ (c.type.text ++ attributesText c.attributes)) := rfl
  rw [hsplit]
  exact (silent_targetName c.name.target (hc _ List.mem_cons_self)).append ((silent_of_no_paren hblank).append
    ((htype _).append (hattributes _)))

theorem silent_optionLine (c : OptionLine) (hname : bodyEnd.occursIn c.name.text = false)
    (hc : ∀ l ∈ c.contents, bodyEnd.occursIn l.text = false) (hv : Stops isWordChar v) (h : NoEngineAhead v) :
    bodyEnd.Silent before c.text v := by
  refine c.text_line ▸ silent_attributeLine c.line (fun t ht => ?_) hv h
  rcases c.mem_opaqueTexts_line.mp ht with rfl | ⟨l, hl, rfl⟩
  · exact hname
  · exact hc l hl

theorem silent_freeLine (c : FreeLine) (hc : ∀ l, c.Holds l → bodyEnd.occursIn l.text = false)
    (hv : Stops isWordChar v) (h : NoEngineAhead v) : bodyEnd.Silent before c.text v :=
  c.text_line ▸ silent_optionLine c.line c.name.no_bodyEnd (fun l hl => hc l (c.mem_contents_line.mp hl)) hv h

theorem Literal.no_bodyEnd (l : Literal) : bodyEnd.occursIn l.text = false := by
  have hsilent : bodyEnd.Silent none l.text [] := silent_noEngine l.noEngine (stops_nil _) (stops_nil _)
  exact occursIn_eq_false_of_silent (consumes_of_not_nullable rfl) hsilent

theorem silent_columnLine (c : ColumnLine) (hv : Stops isWordChar v) (h : NoEngineAhead v) :
    bodyEnd.Silent before c.text v := by
  refine c.free_text ▸ silent_freeLine c.free (fun l hl => ?_) hv h
  obtain ⟨literal, rfl⟩ := c.exists_of_holds hl
  exact literal.no_bodyEnd

theorem silent_indexedName (i : IndexedName) (h : NoEngineAhead v) :
    bodyEnd.Silent before i.text v := by
  refine (silent_of_no_paren i.name.no_paren).append ?_
  cases hl : i.length with
  | none => exact silent_nil v
  | some l =>
      have hopen : ')' ∉ '(' :: l := by
        intro hmem
        rcases List.mem_cons.mp hmem with hmem | hmem
        · exact absurd hmem (by decide)
        · exact absurd (i.lengthDigits l hl _ hmem) (by decide)
      exact (silent_of_no_paren hopen).append (silent_paren h)

theorem silent_indexedNames (spaced : Bool) (columns : List IndexedName) :
    bodyEnd.Silent before (commaJoin spaced (columns.map (·.text))) (')' :: v) := by
  have hcomma : ∀ w, NoEngineAhead (',' :: w) := noEngineAhead_cons (by decide) (by decide)
  induction columns generalizing before with
  | nil => exact silent_nil _
  | cons i columns ih =>
      cases columns with
      | nil => exact silent_indexedName i (noEngineAhead_cons (by decide) (by decide) v)
      | cons j columns =>
          have hspace : ')' ∉ ',' :: (if spaced then [' '] else []) := by
            cases spaced <;> decide
          exact (silent_indexedName i (hcomma _)).append ((silent_of_no_paren hspace).append ih)

theorem silent_primaryKey (spaced : Bool) (columns : List IndexedName) (h : NoEngineAhead v) :
    bodyEnd.Silent before (primaryKeyText none (commaJoin spaced (columns.map (·.text)))) v := by
  have hwords : ')' ∉ "PRIMARY KEY (".toList := by decide
  exact (silent_of_no_paren hwords).append ((silent_indexedNames spaced columns).append
    (silent_paren h))

theorem noEngineAhead_actionText (actions : List (Trigger × Effect)) (h : NoEngineAhead v) :
    NoEngineAhead (ForeignKeyLine.actionText actions ++ v) := by
  cases actions with
  | nil => exact h
  | cons action actions =>
      obtain ⟨trigger, effect⟩ := action
      cases trigger <;> exact (noEngineAhead_cons (by decide) (by decide) _).blank (by decide)

theorem silent_foreignKey (k : ForeignKeyLine) (h : NoEngineAhead v) :
    bodyEnd.Silent before k.text v := by
  have hname : ')' ∉ namedText (k.constraint.map (·.quoted)) := by
    cases k.constraint with
    | none => decide
    | some n =>
        have hkeyword : ')' ∉ "CONSTRAINT ".toList := by decide
        have hquoted : ')' ∉ n.quoted ++ [' '] := by simp [n.no_paren]
        have hsplit : namedText (some n.quoted) = "CONSTRAINT ".toList ++ (n.quoted ++ [' ']) := rfl
        rw [Option.map_some, hsplit, List.mem_append]
        exact fun hmem => hmem.elim hkeyword hquoted
  have hcolumns : ')' ∉ k.columnText := fun hmem => names_ne_paren k.spaced _ _ hmem rfl
  have hreferences : ')' ∉ k.referenceText := fun hmem => names_ne_paren k.spaced _ _ hmem rfl
  have hactions : ')' ∉ ForeignKeyLine.actionText k.actions := by
    rw [ForeignKeyLine.actionText, List.mem_flatMap]
    rintro ⟨⟨trigger, effect⟩, -, hmem⟩
    revert hmem
    cases trigger <;> cases effect <;> decide
  have hafter : ∀ w, NoEngineAhead (' ' :: 'R' :: w) :=
    fun w => (noEngineAhead_cons (by decide) (by decide) w).blank (by decide)
  have hsplit : k.text = namedText (k.constraint.map (·.quoted)) ++ ("FOREIGN KEY (".toList ++
      (k.columnText ++ ([')'] ++ (" REFERENCES ".toList ++ (k.table.quoted ++ (" (".toList ++
        (k.referenceText ++ ([')'] ++ ForeignKeyLine.actionText k.actions)))))))) := by
    simp [ForeignKeyLine.text, foreignKeyText, spacedWords]
  have hquiet : ∀ {u : Text}, ')' ∉ u → ∀ {before v}, bodyEnd.Silent before u v :=
    fun hu => silent_of_no_paren hu
  rw [hsplit]
  exact (hquiet hname).append ((hquiet (by decide)).append ((hquiet hcolumns).append
    ((silent_paren (hafter _)).append ((hquiet (by decide)).append ((hquiet k.table.no_paren).append
      ((hquiet (by decide)).append ((hquiet hreferences).append ((silent_paren
        (noEngineAhead_actionText _ h)).append (hquiet hactions)))))))))

theorem silent_keyLine (k : KeyLine) (hv : Stops isWordChar v) (h : NoEngineAhead v) :
    bodyEnd.Silent before k.text v := by
  cases k with
  | primaryKey spaced columns hne => exact silent_primaryKey spaced columns h
  | foreignKey key => exact silent_foreignKey key h
  | inert opening rest hchars hengine =>
      have hwords : ')' ∉ spacedWords opening.words ++ [' '] := by
        cases opening <;> decide
      have hsplit : (KeyLine.inert opening rest hchars hengine).text =
          (spacedWords opening.words ++ [' ']) ++ rest := by simp [KeyLine.text]
      rw [hsplit, silent_append]
      exact ⟨silent_of_no_paren hwords, silent_noEngine hengine hv h⟩

theorem silent_line (l : Line) (hv : Stops isWordChar v) (h : NoEngineAhead v) :
    bodyEnd.Silent before l.text v := by
  cases l with
  | column line => exact silent_columnLine line hv h
  | key line => exact silent_keyLine line hv h

theorem silent_joinLines (indent : Indent) (lines : List Line) (hv : Stops isWordChar v)
    (h : NoEngineAhead v) :
    bodyEnd.Silent before (TableStatement.joinLines indent.text (lines.map (·.text))) v := by
  induction lines generalizing before with
  | nil => exact silent_nil v
  | cons l lines ih =>
      cases lines with
      | nil => exact silent_line l hv h
      | cons next lines =>
          have hindent : ')' ∉ ',' :: '\n' :: indent.text := by
            have hblanks : ')' ∉ indent.text := indent.not_mem (by decide)
            simp [hblanks]
          exact (silent_line l (stops_cons.mpr (by decide))
            (noEngineAhead_cons (by decide) (by decide) _)).append
              ((silent_of_no_paren hindent).append ih)

theorem silent_body (t : TableStatement) (v : Text) : bodyEnd.Silent before t.body (')' :: v) := by
  have hfirst : ')' ∉ t.first.text := t.first.not_mem (by decide)
  have hend : NoEngineAhead ('\n' :: ')' :: v) :=
    (noEngineAhead_cons (by decide) (by decide) v).blank (by decide)
  rw [TableStatement.body, ← t.lineList_text]
  exact (silent_of_no_paren hfirst).append ((silent_joinLines t.indent t.lineList
    (stops_cons.mpr (by decide)) hend).append (silent_of_no_paren (by decide)))

end SchemaDump.MySQL
