import SchemaDump.Proofs.PostgreSQL.CommentedTable
import SchemaDump.Proofs.PostgreSQL.DeclaredKey
/- Dumps whose statements are spelled in any way: with keywords in any letter case, any blanks between the
words, and tables with or without their schema and in or without quotes. Each statement is read where it
stands. -/
namespace SchemaDump.PostgreSQL
open SqlPattern Pattern

variable {before : Option Char} {p : SqlPattern} {u v : Text}

/-- What stands in front of a mark opens a statement only if it does so in front of the mark. -/
theorem Form.Heads.silent_closed {f : Form} (h : f.Heads p) {c : Char} (hc : c = ';' ∨ c = '(')
    (hu : f.opening.occursIn (u ++ [c]) = false) : p.Silent before (u ++ [c]) v := by
  have hmark : isWordChar c = false ∧ f.opening.mentions c = false := by
    rcases hc with rfl | rfl <;> cases f <;> decide
  have hplain : f.opening.plain := by cases f <;> rfl
  have hstays : f.opening.StaysWithin u ([c] ++ v) := staysWithin_of_not_mentioned hmark.2
  have hfront : f.opening.occursIn u = false := occursIn_eq_false_of_isInfix (x := []) hplain hu
  exact (h.silent_of_opening (hstays.silent hplain hfront)).append
    (h.silent_marks fun d hd => .inl (List.mem_singleton.mp hd ▸ hmark.1))

/-- A statement that creates a table, up to its semicolon. -/
structure SpelledTable where
  head : CreationHead
  body : Body
  inert : InertBody body
  noAlteration : alterOpening.occursIn head.text = false

namespace SpelledTable

variable (t : SpelledTable)

def text : Text := t.head.text ++ (t.body.text ++ [')', ';'])

def parts : List (Part × Text) := [(.body, t.body.text), (.name, t.head.name.text)]

theorem foundIn_tableBlock : FoundIn tableBlock t.text t.text (some t.parts) :=
  ⟨[], (List.append_nil _).symm, fun _ => t.head.reads_block fun _ => t.inert.silent_bodyEnd,
    fun _ _ => silent_nil _⟩

theorem silent_statement (h : Form.alteration.Opens p) : p.Silent before t.text v := by
  have hhead : p.Silent before t.head.text (t.body.text ++ [')', ';'] ++ v) := by
    have hopening := t.noAlteration
    rw [t.head.text_eq] at hopening ⊢
    exact h.silent_closed (.inr rfl) hopening
  have hbody : ∀ before, p.Silent before t.body.text ([')', ';'] ++ v) := fun _ => t.inert.silent_statement h
  exact hhead.append ((hbody _).append (h.silent_marks (by decide)))

theorem splitDefinitions_body : splitDefinitions t.body.text = t.body.definitions := by
  rw [t.inert.splitDefinitions_text]
  refine (List.map_congr_left fun d hd => ?_).trans (List.map_id _)
  obtain ⟨c, rest, rfl, hc, -⟩ := (t.inert.definitions d hd).opens
  exact ((t.inert.definitions _ hd).endsSolid.trimmed (stops_cons.mpr hc)).trim_eq

end SpelledTable

/-- What a statement adds to a table. -/
inductive StatementKey
  | primaryKey (key : DeclaredPrimaryKey)
  | foreignKey (key : DeclaredKey) (columnsPlain : ∀ c ∈ key.columns.text, c ≠ ';')
      (referencesPlain : ∀ c ∈ key.reference.columns.text, c ≠ ';')

namespace StatementKey

def kind : StatementKey → KeyKind
  | primaryKey _ => .primaryKey
  | foreignKey _ _ _ => .foreignKey

def text : StatementKey → Text
  | primaryKey key => key.text
  | foreignKey key _ _ => key.text

variable (k : StatementKey)

theorem reads (v : Text) : k.kind.pattern.Reads k.text v [] := by
  cases k with
  | primaryKey key => exact key.reads_added v
  | foreignKey key columnsPlain referencesPlain => exact key.reads_added columnsPlain referencesPlain v

theorem stops_blank (v : Text) : Stops isBlank (k.text ++ v) := by
  cases k with
  | primaryKey key => exact key.stops_blank v
  | foreignKey key _ _ => exact key.stops_blank v

theorem rejects_add (v : Text) : (keyword "ADD" : SqlPattern).Rejects (k.text ++ v) := by
  cases k with
  | primaryKey key => exact key.rejects_add v
  | foreignKey key _ _ => exact key.rejects_add v

end StatementKey

/-- The text of a statement that adds a key, up to its semicolon. -/
def additionText (head : AlterationHead) (key : StatementKey) (suffix : Text) : Text :=
  head.text ++ (key.text ++ (suffix ++ [';']))

/-- A statement that adds a key, and says something behind it. -/
structure SpelledAddition where
  head : AlterationHead
  key : StatementKey
  suffix : Text
  noCreation : createOpening.occursIn (additionText head key suffix) = false
  noOther : alterOpening.occursIn (additionText head key suffix).tail = false

namespace SpelledAddition

variable (a : SpelledAddition)

def text : Text := additionText a.head a.key a.suffix

def read : Text := a.head.text ++ a.key.text

def parts : List (Part × Text) := [(.constraint, a.key.text), (.table, a.head.target.text)]

theorem text_eq : a.text = a.read ++ (a.suffix ++ [';']) := (List.append_assoc _ _ _).symm

theorem exists_text_eq : ∃ c front, a.text = c :: (front ++ [';']) ∧ a.text.tail = front ++ [';'] := by
  obtain ⟨c, rest, hhead, -⟩ := a.head.alter.keyword.exists_head rfl
  have htext : ∃ front, a.text = c :: (front ++ [';']) := by
    simp only [text, additionText, AlterationHead.text, SpacedWord.text, hhead, List.cons_append, ← List.append_assoc]
    exact ⟨_, rfl⟩
  obtain ⟨front, htext⟩ := htext
  exact ⟨c, front, htext, by rw [htext, List.tail_cons]⟩

theorem reads_read (v : Text) : a.key.kind.statement.Reads a.read v a.parts :=
  a.head.reads (a.key.reads v) (a.key.stops_blank v) (a.key.rejects_add v)

theorem silent_other {kind : KeyKind} (h : a.key.kind ≠ kind) : kind.statement.Silent before a.text v := by
  obtain ⟨c, front, htext, htail⟩ := a.exists_text_eq
  have hfirst : kind.statement.Rejects (a.text ++ v) := by
    rw [text, additionText, List.append_assoc, List.append_assoc]
    exact a.head.rejects (a.key.stops_blank _) (a.key.rejects_add _) kind.opensKey
      (KeyKind.rejects_of_reads h (a.key.reads _))
  have hopening : alterOpening.occursIn (front ++ [';']) = false := htail ▸ a.noOther
  rw [htext] at hfirst ⊢
  exact silent_cons.mpr ⟨hfirst before, kind.opens_statement.silent_closed (.inl rfl) hopening⟩

theorem silent_suffix (kind : KeyKind) : kind.statement.Silent before (a.suffix ++ [';']) v := by
  obtain ⟨c, rest, hhead, -⟩ := a.head.alter.keyword.exists_head rfl
  have htail : ∃ x, a.text.tail = x ++ ((a.suffix ++ [';']) ++ []) := by
    refine ⟨a.read.tail, ?_⟩
    rw [text_eq, List.tail_append_of_ne_nil, List.append_nil]
    simp [read, AlterationHead.text, SpacedWord.text, hhead]
  obtain ⟨x, htail⟩ := htail
  have hopening : alterOpening.occursIn (a.suffix ++ [';']) = false :=
    occursIn_eq_false_of_isInfix rfl (htail ▸ a.noOther)
  exact kind.opens_statement.silent_closed (.inl rfl) hopening

theorem foundIn_statement (kind : KeyKind) :
    FoundIn kind.statement a.text a.read (if a.key.kind = kind then some a.parts else none) := by
  split
  · next h => exact ⟨_, a.text_eq, fun v => h ▸ a.reads_read _, fun _ _ => a.silent_suffix kind⟩
  · next h => exact fun _ _ => a.silent_other h

theorem silent_creation (h : Form.creation.Opens p) : p.Silent before a.text v := by
  obtain ⟨c, front, htext, -⟩ := a.exists_text_eq
  have hopening := a.noCreation
  rw [← text, htext, ← List.cons_append] at hopening
  rw [htext, ← List.cons_append]
  exact h.silent_closed (.inl rfl) hopening

end SpelledAddition

inductive SpelledStatement
  | table (statement : SpelledTable)
  | addition (statement : SpelledAddition)

namespace SpelledStatement

def text : SpelledStatement → Text
  | table t => t.text
  | addition a => a.text

def read : SpelledStatement → Text
  | table t => t.text
  | addition a => a.read

def table? : SpelledStatement → Option SpelledTable
  | table t => some t
  | addition _ => none

/-- The parts that a statement which adds a key of some kind is read with. -/
def keyParts (kind : KeyKind) : SpelledStatement → Option (List (Part × Text))
  | table _ => none
  | addition a => if a.key.kind = kind then some a.parts else none

variable (s : SpelledStatement)

theorem statementAhead (v : Text) : StatementAhead (s.text ++ v) := by
  cases s with
  | table t =>
      refine .inr ⟨"CREATE", by decide, t.head.create.keyword, ?_⟩
      simp only [text, SpelledTable.text, CreationHead.text, SpacedWord.text, List.append_assoc]
      exact ⟨_, rfl⟩
  | addition a =>
      refine .inr ⟨"ALTER", by decide, a.head.alter.keyword, ?_⟩
      simp only [text, SpelledAddition.text, additionText, AlterationHead.text, SpacedWord.text, List.append_assoc]
      exact ⟨_, rfl⟩

theorem foundIn_tableBlock : FoundIn tableBlock s.text s.read (s.table?.map (·.parts)) := by
  cases s with
  | table t => exact t.foundIn_tableBlock
  | addition a => exact fun _ _ => a.silent_creation Form.opens_tableBlock

theorem foundIn_statement (kind : KeyKind) : FoundIn kind.statement s.text s.read (s.keyParts kind) := by
  cases s with
  | table t => exact fun _ _ => t.silent_statement kind.opens_statement
  | addition a => exact a.foundIn_statement kind

end SpelledStatement

structure SpelledDump where
  statements : List (Filler × SpelledStatement)
  trailer : Filler

namespace SpelledDump

def textOf (statements : List (Filler × SpelledStatement)) : Text :=
  statements.flatMap fun s => s.1.text ++ s.2.text

variable (d : SpelledDump)

def text : Text := textOf d.statements ++ d.trailer.text

def tables : List SpelledTable := d.statements.filterMap (·.2.table?)

def heads : List CreationHead := d.tables.map (·.head)

theorem map_reading_occurrences :
    (tableBlock.occurrences d.text).map (fun o => (o.reading.read, o.reading.parts)) =
      d.tables.map fun t => (t.text, t.parts) := by
  have hfound := found_statements_read Form.opens_tableBlock (consumes_of_not_nullable rfl)
    SpelledStatement.statementAhead SpelledStatement.foundIn_tableBlock d.statements none d.trailer
  have hmap : (tableBlock.occurrences d.text).map (fun o => (o.reading.read, o.reading.parts)) =
      ((tableBlock.occurrences d.text).map (·.reading)).map fun r => (r.read, r.parts) := by
    rw [List.map_map]
    rfl
  rw [hmap, occurrences_reading, tables, List.map_filterMap]
  refine hfound.trans (congrArg (List.filterMap · d.statements) (funext fun s => ?_))
  cases s.2 <;> rfl

/-- No statement that adds a key starts within another one. -/
theorem not_covers {front back : List (Filler × SpelledStatement)} {filler : Filler} {s : SpelledStatement}
    (hd : d.statements = front ++ (filler, s) :: back) (kind : KeyKind) {o : Occurrence Part}
    (ho : o ∈ kind.statement.occurrences d.text) : ¬o.Covers (textOf front ++ filler.text).length := by
  have hconsumes : kind.statement.Consumes := by cases kind <;> exact consumes_of_not_nullable rfl
  have htext : d.text = textOf front ++ filler.text ++ (s.text ++ (textOf back ++ d.trailer.text)) := by
    rw [text, hd, textOf, List.flatMap_append, List.flatMap_cons]
    simp only [textOf, List.append_assoc]
  obtain ⟨rs, hfound, -, hlength⟩ := exists_found_append kind.opens_statement hconsumes SpelledStatement.statementAhead
    (fun s => s.foundIn_statement kind) front none
    (filler.text ++ (s.text ++ (textOf back ++ d.trailer.text)))
  have hsilent : ∀ before, kind.statement.Silent before filler.text (s.text ++ (textOf back ++ d.trailer.text)) :=
    fun _ => kind.opens_statement.silent_filler filler (s.statementAhead _)
  rw [found_append_of_silent (hsilent _), ← lastOf_append, ← List.append_assoc] at hfound
  rw [htext] at ho
  refine not_covers_of_found hfound (fun r hr => ?_) ho
  have hrest := hlength r hr
  rw [List.length_append] at hrest
  omega

end SpelledDump

end SchemaDump.PostgreSQL
