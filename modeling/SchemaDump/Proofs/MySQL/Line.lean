import SchemaDump.Proofs.Definition.Split
import SchemaDump.Proofs.MySQL.ColumnLine
import SchemaDump.Proofs.MySQL.KeyLine
import SchemaDump.Proofs.Definition.Unbroken
/- The lines of a table's body. No line contains the end of a statement or is broken itself. -/
namespace SchemaDump.MySQL
open SqlPattern Pattern

/-- A line of a body. -/
inductive Line
  | column (line : ColumnLine)
  | key (line : KeyLine)

namespace Line

def text : Line → Text
  | column line => line.text
  | key line => line.text

def columns : Line → List Column
  | column line => [line.column]
  | key _ => []

def constraints : Line → List Constraint
  | column _ => []
  | key line => line.constraint?.toList

end Line

theorem unbroken_quotedName (n : Name) : Unbroken n.quoted := by
  intro c hc
  constructor <;>
  · rintro rfl
    exact n.not_mem_quoted (by decide) (by decide) (by decide) hc

theorem unbroken_quoted {l : Content} (hl : ';' ∉ l.text) : Unbroken l.quoted := by
  have hcontent : Unbroken l.text := fun c hc => ⟨fun h => hl (h ▸ hc), (l.chars c hc).2.2⟩
  exact .cons (by decide) (hcontent.append (by decide))

theorem unbroken_arguments (a : Arguments) (ha : ∀ l ∈ a.contents, ';' ∉ l.text) : Unbroken a.text := by
  cases a with
  | plain text chars => exact fun c hc => (chars c hc).2
  | literals spaced first more =>
      refine unbroken_commaJoin spaced fun item hitem => ?_
      obtain ⟨l, hl, rfl⟩ := List.mem_map.mp hitem
      exact unbroken_quoted (ha l hl)

theorem unbroken_dataType (type : DataType) (h : ∀ l ∈ type.contents, ';' ∉ l.text) : Unbroken type.text := by
  have hword : Unbroken type.word := fun c hc => unbroken_wordChar (type.wordChars c hc)
  have harguments : Unbroken type.argumentText := by
    rw [DataType.argumentText]
    cases ha : type.arguments with
    | none => decide
    | some a =>
        have hchars : Unbroken a.text := unbroken_arguments a fun l hl => h l (DataType.mem_contents ha hl)
        exact .cons (by decide) (hchars.append (by decide))
  have hmodifiers : Unbroken (ColumnType.modifierText type.modifiers) := by
    apply unbroken_flatMap
    intro m
    cases m <;> decide
  exact hword.append (harguments.append hmodifiers)

theorem unbroken_option (o : ColumnOption) (h : ∀ l ∈ o.contents, ';' ∉ l.text) : Unbroken o.text := by
  cases o with
  | notNull => decide
  | primaryKey => decide
  | autoIncrement => decide
  | comment l =>
      have hkeyword : Unbroken " COMMENT ".toList := by decide
      exact hkeyword.append (unbroken_quoted (h l (List.mem_singleton_self l)))
  | default d =>
      have hkeyword : Unbroken " DEFAULT ".toList := by decide
      refine hkeyword.append ?_
      cases d with
      | literal content => exact unbroken_quoted (h content (List.mem_singleton_self content))
      | bare token hne hchars =>
          intro c hc
          rcases hchars c hc with h | rfl | rfl | rfl
          · exact unbroken_wordChar h
          all_goals decide

theorem unbroken_anyName (n : QuotedName) (h : ';' ∉ n.text) : Unbroken n.quoted := by
  have htext : Unbroken n.text := fun d hd => ⟨fun heq => h (heq ▸ hd), (n.chars d hd).2⟩
  exact .cons (by decide) (htext.append (by decide))

theorem unbroken_word (word : PostgreSQL.Word) : Unbroken word.text := fun c hc => unbroken_wordChar (word.chars c hc)

theorem unbroken_targetName (n : TargetName) (h : ';' ∉ n.content) : Unbroken n.text := by
  cases n with
  | quoted name => exact unbroken_anyName name h
  | bare word => exact unbroken_word word

theorem unbroken_actionText (actions : List ReferentialAction) : Unbroken (actionText actions) := by
  refine unbroken_flatMap (fun action => ?_) actions
  obtain ⟨event, outcome⟩ := action
  cases event <;> cases outcome <;> decide

theorem unbroken_reference (r : ColumnReference) (htable : ';' ∉ r.table.content) (hcolumn : ';' ∉ r.column.content) :
    Unbroken r.text := by
  have hwords : Unbroken "REFERENCES ".toList := by decide
  have hgap : Unbroken (if r.spaced then [' '] else []) := by cases r.spaced <;> decide
  have hlist : Unbroken ('(' :: (r.column.text ++ [')'])) :=
    .cons (by decide) ((unbroken_targetName r.column hcolumn).append (by decide))
  have hfront : Unbroken r.front := hwords.append ((unbroken_targetName r.table htable).append (hgap.append hlist))
  exact hfront.append (unbroken_actionText r.actions)

theorem unbroken_attribute (a : Attribute) (h : ∀ t ∈ a.opaqueTexts, ';' ∉ t) : Unbroken a.text := by
  cases a with
  | option o => exact unbroken_option o fun l hl => h l.text (List.mem_map_of_mem hl)
  | null => decide
  | collate word =>
      have hkeyword : Unbroken " COLLATE ".toList := by decide
      exact hkeyword.append (unbroken_word word)
  | references r =>
      exact .cons (by decide) (unbroken_reference r (h _ List.mem_cons_self)
        (h _ (List.mem_cons_of_mem _ (List.mem_singleton_self _))))
  | default d =>
      have hkeyword : Unbroken " DEFAULT ".toList := by decide
      have htext : Unbroken d.text := fun c hc =>
        ⟨fun heq => h d.text (List.mem_singleton_self _) (heq ▸ hc), fun heq => d.no_lineBreak (heq ▸ hc)⟩
      exact hkeyword.append htext

theorem unbroken_attributeLine (c : AttributeLine) (h : ∀ t ∈ c.opaqueTexts, ';' ∉ t) : Unbroken c.text := by
  have hname : Unbroken c.name.text := unbroken_targetName c.name.target (h _ List.mem_cons_self)
  have htype : Unbroken c.type.text := unbroken_dataType c.type fun l hl =>
    h _ (List.mem_cons_of_mem _ (List.mem_append_left _ (List.mem_map_of_mem hl)))
  have hattributes : Unbroken (attributesText c.attributes) := by
    intro d hd
    obtain ⟨a, ha, hd⟩ := List.mem_flatMap.mp hd
    exact unbroken_attribute a (fun t ht =>
      h t (List.mem_cons_of_mem _ (List.mem_append_right _ (List.mem_flatMap.mpr ⟨a, ha, ht⟩)))) d hd
  exact hname.append (.cons (by decide) (htype.append hattributes))

theorem unbroken_optionLine (c : OptionLine) (hname : ';' ∉ c.name.text) (hc : ∀ l ∈ c.contents, ';' ∉ l.text) :
    Unbroken c.text := by
  refine c.text_line ▸ unbroken_attributeLine c.line fun t ht => ?_
  rcases c.mem_opaqueTexts_line.mp ht with rfl | ⟨l, hl, rfl⟩
  · exact hname
  · exact hc l hl

theorem unbroken_freeLine (c : FreeLine) (hc : ∀ l, c.Holds l → ';' ∉ l.text) : Unbroken c.text :=
  c.text_line ▸ unbroken_optionLine c.line (c.name.not_mem (by decide) (by decide))
    fun l hl => hc l (c.mem_contents_line.mp hl)

theorem unbroken_columnLine (c : ColumnLine) : Unbroken c.text := by
  refine c.free_text ▸ unbroken_freeLine c.free fun l hl hmem => ?_
  obtain ⟨literal, rfl⟩ := c.exists_of_holds hl
  exact (literal.chars _ hmem).2.2.1 rfl

theorem unbroken_indexedName (i : IndexedName) : Unbroken i.text := by
  apply (unbroken_quotedName i.name).append
  cases hl : i.length with
  | none => decide
  | some l =>
      have hdigits : Unbroken l := by
        intro c hc
        have hdigit := i.lengthDigits l hl c hc
        constructor <;>
        · rintro rfl
          exact absurd hdigit (by decide)
      exact .cons (by decide) (hdigits.append (by decide))

theorem unbroken_foreignKeyLine (k : ForeignKeyLine) : Unbroken k.text := by
  have hname : Unbroken (namedText (k.constraint.map (·.quoted))) := by
    cases k.constraint with
    | none => decide
    | some n =>
        have hkeyword : Unbroken "CONSTRAINT ".toList := by decide
        exact hkeyword.append ((unbroken_quotedName n).append (by decide))
  have hlist : ∀ name : Name × Name → Name,
      Unbroken (commaJoin k.spaced (k.pairs.map fun p => (name p).quoted)) := by
    intro name
    apply unbroken_commaJoin
    intro item hitem
    obtain ⟨p, -, rfl⟩ := List.mem_map.mp hitem
    exact unbroken_quotedName (name p)
  have hwords : Unbroken "FOREIGN KEY (".toList := by decide
  have hreferences : Unbroken ") REFERENCES ".toList := by decide
  have hopen : Unbroken " (".toList := by decide
  have hactions : Unbroken (ForeignKeyLine.actionText k.actions) := by
    apply unbroken_flatMap
    rintro ⟨trigger, effect⟩
    cases trigger <;> cases effect <;> decide
  have hkey : Unbroken (namedText (k.constraint.map (·.quoted)) ++ ("FOREIGN KEY (".toList ++
      (k.columnText ++ (") REFERENCES ".toList ++ (k.table.quoted ++ (" (".toList ++
        (k.referenceText ++ [')']))))))) :=
    hname.append (hwords.append ((hlist (·.1)).append (hreferences.append
      ((unbroken_quotedName k.table).append (hopen.append ((hlist (·.2)).append (by decide)))))))
  exact hkey.append hactions

theorem unbroken_keyLine (k : KeyLine) : Unbroken k.text := by
  cases k with
  | primaryKey spaced columns hne =>
      have hlist : Unbroken (commaJoin spaced (columns.map (·.text))) := by
        apply unbroken_commaJoin
        intro item hitem
        obtain ⟨i, -, rfl⟩ := List.mem_map.mp hitem
        exact unbroken_indexedName i
      have hwords : Unbroken "PRIMARY KEY (".toList := by decide
      exact hwords.append (hlist.append (by decide))
  | foreignKey key => exact unbroken_foreignKeyLine key
  | inert opening rest hchars hengine =>
      have hwords : Unbroken (spacedWords opening.words) := by
        cases opening <;> decide
      have hrest : Unbroken rest := fun c hc => ⟨(hchars c hc).1, (hchars c hc).2.1⟩
      exact hwords.append (.cons (by decide) hrest)

theorem Line.unbroken (l : Line) : Unbroken l.text := by
  cases l with
  | column line => exact unbroken_columnLine line
  | key line => exact unbroken_keyLine line

theorem isLine_inert (opening : InertOpening) {rest : Text} (hrest : '\n' ∉ rest) :
    IsLine (spacedWords opening.words ++ ' ' :: rest) := by
  refine ⟨?_, ?_⟩
  · have hwords : '\n' ∉ spacedWords opening.words := by
      cases opening <;> decide
    simp [hwords, hrest]
  · cases opening with
    | key => exact ⟨'K', _, rfl, by decide, by decide⟩
    | uniqueKey => exact ⟨'U', _, rfl, by decide, by decide⟩
    | fulltextKey => exact ⟨'F', _, rfl, by decide, by decide⟩
    | spatialKey => exact ⟨'S', _, rfl, by decide, by decide⟩
    | check => exact ⟨'C', _, rfl, by decide, by decide⟩

theorem Line.isLine (l : Line) : IsLine l.text := by
  refine ⟨fun h => (l.unbroken _ h).2 rfl, ?_⟩
  cases l with
  | column line => exact ⟨backQuote, _, rfl, by decide, by decide⟩
  | key line =>
      cases line with
      | primaryKey spaced columns hne => exact ⟨'P', _, rfl, by decide, by decide⟩
      | foreignKey key =>
          rw [Line.text, KeyLine.text, ForeignKeyLine.text]
          cases key.constraint with
          | none => exact ⟨'F', _, rfl, by decide, by decide⟩
          | some n => exact ⟨'C', _, rfl, by decide, by decide⟩
      | inert opening rest hchars hengine =>
          exact (isLine_inert opening fun h => (hchars _ h).2.1 rfl).opens

namespace TableStatement

variable (t : TableStatement)

def lineList : List Line := t.columns.map Line.column ++ t.keys.map Line.key

theorem lineList_text : t.lineList.map (·.text) = t.lines := by
  simp only [lineList, lines, List.map_append, List.map_map]
  rfl

theorem no_semicolon_joinLines (indent : Indent) (lines : List Line) :
    ';' ∉ joinLines indent.text (lines.map (·.text)) := by
  have hline : ∀ l : Line, ';' ∉ l.text := fun l h => (l.unbroken _ h).1 rfl
  have hindent : ';' ∉ indent.text := indent.not_mem (by decide)
  induction lines with
  | nil => exact List.not_mem_nil
  | cons l lines ih =>
      cases lines with
      | nil => exact hline l
      | cons next lines =>
          have hbreak : ';' ∉ [',', '\n'] := by decide
          have hsplit : joinLines indent.text ((l :: next :: lines).map (·.text)) =
              l.text ++ ([',', '\n'] ++ (indent.text ++
                joinLines indent.text ((next :: lines).map (·.text)))) := rfl
          rw [hsplit]
          simp only [List.mem_append, hline, hbreak, hindent, ih, or_self, not_false_eq_true]

theorem no_semicolon_body : ∀ c ∈ t.body, c ≠ ';' := by
  have hfirst : ';' ∉ t.first.text := t.first.not_mem (by decide)
  have hlines := no_semicolon_joinLines t.indent t.lineList
  rintro c hc rfl
  rw [body, ← t.lineList_text, List.mem_append, List.mem_append] at hc
  rcases hc with hc | hc | hc
  · exact hfirst hc
  · exact hlines hc
  · exact absurd hc (by decide)

theorem body_ne_nil : t.body ≠ [] := by
  simp [body]

end TableStatement

end SchemaDump.MySQL
