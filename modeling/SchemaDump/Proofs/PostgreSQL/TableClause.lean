import SchemaDump.Proofs.Definition.ClosedLine
import SchemaDump.Proofs.PostgreSQL.Silence
/- Tables with a clause behind their columns. A clause is no end of a body: one that ends with a parenthesis
stands in the body of its table, and one without parentheses opens it for the statements that follow. -/
namespace SchemaDump.PostgreSQL
open SqlPattern Pattern

variable {before : Option Char} {p : SqlPattern} {pad u v x : Text}

/-- A column with nothing but a name and a type. -/
structure PlainColumn where
  name : Name
  nameFree : name.isOneOf columnExclusions = false
  noExclusion : name.isOneOf ["EXCLUDEUSING"] = false
  type : ColumnType

namespace PlainColumn

def text (c : PlainColumn) : Text := c.name.text ++ ' ' :: c.type.text

def definition (c : PlainColumn) : Column where
  name := c.name.string
  declaredType := .ofList c.type.text

/-- The column as a line of a body. -/
def line (c : PlainColumn) : ColumnLine where
  name := c.name
  nameFree := c.nameFree
  type := c.type
  marks := []
  distinct := List.nodup_nil
  default := none
  notNull := false
  settled := fun _ _ h => nomatch h

end PlainColumn

/-- What may stand between the columns of a table and the semicolon. -/
inductive TableClause
  | absent
  | partition (column : Name)
  | storage (fillfactor : Digits)
  | tablespace (name : Name)

namespace TableClause

def text : TableClause → Text
  | absent => []
  | partition column => ' ' :: (spacedWords ["PARTITION", "BY", "RANGE"] ++ ' ' :: '(' :: (column.text ++ [')']))
  | storage fillfactor => ' ' :: ("WITH".toList ++ ' ' :: '(' :: ("fillfactor=".toList ++ (fillfactor.text ++ [')'])))
  | tablespace name => ' ' :: ("TABLESPACE".toList ++ ' ' :: name.text)

/-- What stands behind the lines of the columns and is taken for a part of the body. -/
def lead : TableClause → Text
  | absent => []
  | partition column => ')' :: ' ' :: (spacedWords ["PARTITION", "BY", "RANGE"] ++ ' ' :: '(' :: column.text)
  | storage fillfactor => ')' :: ' ' :: ("WITH".toList ++ ' ' :: '(' :: ("fillfactor=".toList ++ fillfactor.text))
  | tablespace name => ')' :: ' ' :: ("TABLESPACE".toList ++ ' ' :: (name.text ++ [';']))

/-- Whether no parenthesis ends the clause, so that the body of its table goes on behind it. -/
def keepsOpen : TableClause → Bool
  | tablespace _ => true
  | absent | partition _ | storage _ => false

/-- What is taken for the end of the body behind that. -/
def close (clause : TableClause) : Text := if clause.keepsOpen then [] else [')', ';']

/-- The columns that are left of some in front of a clause: any clause takes the last one. -/
def kept (clause : TableClause) (columns : List PlainColumn) : List PlainColumn :=
  match clause with
  | absent => columns
  | partition _ | storage _ | tablespace _ => columns.dropLast

end TableClause

/-- A statement that creates a table of plain columns, with a clause behind them. -/
structure ClausedTable where
  kind : TableKind
  ifNotExists : Bool
  target : Target
  columns : List PlainColumn
  nonempty : columns ≠ []
  first : Indent
  indent : Indent
  clause : TableClause

namespace ClausedTable

variable (t : ClausedTable)

def linesText : Text :=
  t.first.text ++ (TableStatement.joinLines t.indent.text (t.columns.map (·.text)) ++ ['\n'])

def text : Text :=
  openingText t.kind t.ifNotExists t.target ++ (t.linesText ++ ')' :: (t.clause.text ++ [';']))

def definition : Table := ⟨t.target.name.string, t.columns.map (·.definition)⟩

/-- What is read of the table, where a table may be open in front of the statement. -/
def readInto (opened : Option Table) : Table :=
  match opened with
  | none => ⟨t.target.name.string, (t.clause.kept t.columns).map (·.definition)⟩
  | some o => { o with columns := o.columns ++ (t.clause.kept t.columns.tail).map (·.definition) }

end ClausedTable

/-- The tables that are read from statements, where a table may be open in front of them. One that is still
open at the end is lost. -/
def readTables : Option Table → List ClausedTable → List Table
  | _, [] => []
  | opened, t :: statements =>
      if t.clause.keepsOpen then readTables (some (t.readInto opened)) statements
      else t.readInto opened :: readTables none statements

/-- A statement whose clause ends with a parenthesis is no concern of those behind it. -/
theorem readTables_append {statements : List ClausedTable} (h : ∀ t ∈ statements, t.clause.keepsOpen = false)
    (more : List ClausedTable) :
    readTables none (statements ++ more) = statements.map (·.readInto none) ++ readTables none more := by
  induction statements with
  | nil => rfl
  | cons t statements ih =>
      rw [List.cons_append, readTables, h t List.mem_cons_self, if_neg Bool.false_ne_true,
        ih fun u hu => h u (List.mem_cons_of_mem t hu)]
      rfl

theorem readTables_open {statements : List ClausedTable} (h : ∀ t ∈ statements, t.clause.keepsOpen = true)
    (opened : Option Table) : readTables opened statements = [] := by
  induction statements generalizing opened with
  | nil => rfl
  | cons t statements ih =>
      rw [readTables, h t List.mem_cons_self, if_pos rfl]
      exact ih (fun u hu => h u (List.mem_cons_of_mem t hu)) _

/-- Statements without a clause in front of any others are read as they are written. -/
theorem readTables_plain_append {statements : List ClausedTable} (h : ∀ t ∈ statements, t.clause = .absent)
    (more : List ClausedTable) :
    readTables none (statements ++ more) = statements.map (·.definition) ++ readTables none more := by
  have hclosed : ∀ t ∈ statements, t.clause.keepsOpen = false := fun t ht => by rw [h t ht]; rfl
  have hread : ∀ t ∈ statements, t.readInto none = t.definition := by
    intro t ht
    rw [ClausedTable.readInto, h t ht]
    rfl
  rw [readTables_append hclosed, List.map_congr_left hread]

namespace PlainColumn

variable (c : PlainColumn)

theorem line_text : c.line.text = c.text := by
  simp [ColumnLine.text, line, ColumnLine.markText, ColumnLine.defaultText, ColumnLine.notNullText, text]

theorem isLine : IsLine c.text := c.line_text ▸ c.line.isLine_text

theorem endsSolid : EndsSolid c.text := c.line_text ▸ c.line.endsSolid_text

theorem trim_eq : c.text.trim = c.text := by
  rw [← c.line_text]
  exact c.line.trimmed_text.trim_eq

theorem opensConstraint_text : opensConstraint .postgresql c.text = false := by
  rw [← c.line_text, opensConstraint_column]
  exact c.noExclusion

theorem parseColumn?_text : parseColumn? c.text = some c.definition := by
  rw [← c.line_text, c.line.parseColumn?_text]
  exact congrArg some (Column.under_nil _)

end PlainColumn

def Defines (fragments : List Text) (columns : List Column) : Prop :=
  (∀ f ∈ fragments, opensConstraint .postgresql f = false) ∧ fragments.filterMap parseColumn? = columns

namespace Defines

variable {fragments more : List Text} {columns others : List Column} {body : Text}

theorem append (h : Defines fragments columns) (hmore : Defines more others) :
    Defines (fragments ++ more) (columns ++ others) := by
  refine ⟨fun f hf => (List.mem_append.mp hf).elim (h.1 f) (hmore.1 f), ?_⟩
  rw [List.filterMap_append, h.2, hmore.2]

theorem bodyColumns_eq (h : Defines (splitDefinitions body) columns) : bodyColumns body = columns := by
  rw [bodyColumns, List.filter_eq_self.mpr fun f hf => by rw [h.1 f hf]; rfl]
  exact h.2

theorem bodyConstraints_eq (h : Defines (splitDefinitions body) columns) : bodyConstraints body = [] := by
  have hnone : (splitDefinitions body).filter (opensConstraint .postgresql) = [] :=
    List.filter_eq_nil_iff.mpr fun f hf => by rw [h.1 f hf]; exact Bool.false_ne_true
  rw [bodyConstraints, hnone]
  rfl

end Defines

theorem defines_nil : Defines [] [] := ⟨fun _ hf => (nomatch hf), rfl⟩

theorem PlainColumn.defines (c : PlainColumn) : Defines [c.text] [c.definition] := by
  refine ⟨fun f hf => List.mem_singleton.mp hf ▸ c.opensConstraint_text, ?_⟩
  rw [List.filterMap_cons, c.parseColumn?_text, List.filterMap_nil]

/-- In front of a blank a name is read as a whole. -/
theorem rest_of_mem_readings_columnName {n : Name} {r : Match Part}
    (hr : r ∈ columnName.readings before (n.text ++ ' ' :: v)) (hstops : Stops isWordChar r.rest) :
    r.rest = ' ' :: v := by
  cases n with
  | bare word =>
      have hquote : (one (· == '"') : SqlPattern).Rejects (word.text ++ ' ' :: v) :=
        .of_starts rfl (word.stops (fun c hc => beq_eq_false_iff_ne.mpr (ne_of_isWordChar (by decide) hc)) _)
      rcases List.mem_append.mp hr with hr | hr
      · have hwithin : (within '"' (part Part.quotedName (unquotedRun '"'))).Rejects (word.text ++ ' ' :: v) :=
          (hquote.seq _).seq _
        exact absurd (readings_eq_nil_iff.mpr (hwithin before)) (List.ne_nil_of_mem hr)
      · obtain ⟨a, ha, rfl⟩ := List.mem_map.mp hr
        exact (rest_of_mem_readings_run1 ha hstops).trans
          (dropWhile_append_of_stops word.chars (stops_cons.mpr (by decide)))
  | quoted text nonempty chars trimmed =>
      rcases List.mem_append.mp hr with hr | hr
      · obtain ⟨a, ha, e, he, rfl⟩ := mem_readings_seq.mp hr
        obtain ⟨q, hq, b, hb, rfl⟩ := mem_readings_seq.mp ha
        obtain ⟨x, hx, rfl⟩ := List.mem_map.mp hb
        obtain ⟨k, -, -, -, hopen⟩ := mem_readings_one hq
        obtain ⟨d, hd, -, -, hclose⟩ := mem_readings_one he
        obtain ⟨-, -, htext, hall⟩ := mem_readings_run1 hx
        obtain rfl : d = '"' := beq_iff_eq.mp hd
        have hname : text ++ '"' :: ' ' :: v = x.read ++ '"' :: e.rest := by
          have hq : text ++ ['"'] ++ ' ' :: v = q.rest := (List.cons.inj hopen).2
          have hx : x.rest = '"' :: e.rest := hclose
          rw [hx, ← hq] at htext
          simpa using htext
        have hrest : '"' :: ' ' :: v = '"' :: e.rest := by
          have hdrop := congrArg (List.dropWhile (· != '"')) hname
          have hquote : ∀ w, Stops (· != '"') ('"' :: w) := fun w => stops_cons.mpr (by decide)
          have hchars : ∀ c ∈ text, c != '"' := fun c hc => bne_iff_ne.mpr fun h =>
            quote_not_mem chars (h ▸ hc)
          rwa [dropWhile_append_of_stops hchars (hquote _), dropWhile_append_of_stops hall (hquote _)] at hdrop
        exact (List.cons.inj hrest).2.symm
      · obtain ⟨a, ha, rfl⟩ := List.mem_map.mp hr
        have hnone : (run1 isWordChar .longest : SqlPattern).read? before ('"' :: (text ++ ['"'] ++ ' ' :: v)) =
            none := read?_run1_of_stops (stops_cons.mpr (by decide))
        exact absurd (readings_eq_nil_iff.mpr hnone) (List.ne_nil_of_mem ha)

theorem rejects_columnName_blanks {n : Name} {q : SqlPattern} (h : (blanks ++ q).Rejects (' ' :: v)) :
    (columnName ++ (blanks ++ q)).Rejects (n.text ++ ' ' :: v) := by
  intro before
  rw [read?_seq_eq_none]
  intro a ha
  cases hread : (blanks ++ q).read? (lastOf before a.read) a.rest with
  | none => rfl
  | some r =>
      have hstops : Stops isWordChar a.rest :=
        (blankAhead_of_read? (by rw [hread]; exact Option.some_ne_none r)).stopsWord
      rw [rest_of_mem_readings_columnName ha hstops, h] at hread
      cases hread

/-- What may follow a type does not go over to a line that starts with a parenthesis. -/
theorem rejects_optionTail_break (w : Text) : optionTail.Rejects ('\n' :: ')' :: w) := by
  have hletters : ∀ word ∈ ["DEFAULT", "NOT"], (keyword word : SqlPattern).nullable = false ∧
      ∀ c ∈ word.toList, c.isAlpha := by decide
  have hkeyword : ∀ word ∈ ["DEFAULT", "NOT"], ∀ {c t}, isWordChar c = false →
      (keyword word : SqlPattern).Rejects (c :: t) := fun word h _ _ hc =>
    .of_starts (hletters word h).1 (stops_cons.mpr (starts_keyword_eq_false (hletters word h).2 hc))
  -- blanks are read to the end of the line break, but nothing behind them
  have hblanks : ∀ {q : SqlPattern}, (∀ {c t}, isWordChar c = false → q.Rejects (c :: t)) →
      (blanks ++ q).Rejects ('\n' :: ')' :: w) := fun h =>
    rejects_blanks_run (g := ['\n']) (by decide) (stops_cons.mpr (by decide))
      (fun _ hc _ => h (isWordChar_eq_false_of_isBlank hc)) (h (by decide))
  have hdefault : defaultOption.Rejects ('\n' :: ')' :: w) := by
    simp only [defaultOption, rejects_assoc]
    exact hblanks fun hc => (hkeyword "DEFAULT" (by decide) hc).seq _
  have hnull : notNullOption.Rejects ('\n' :: ')' :: w) := by
    refine hblanks fun {c t} hc before => ?_
    have hphrase : (phrase ["NOT", "NULL"] : SqlPattern).Rejects (c :: t) :=
      ((hkeyword "NOT" (by decide) hc).seq _).seq _
    rw [read?_part, hphrase before]
    rfl
  exact .missing hdefault (.missing hnull (rejects_gap_textEnd ⟨')', by simp, by decide⟩))

theorem rejects_columnDefinition_iff {t : Text} :
    columnDefinition.Rejects t ↔ (columnName ++ (blanks ++
      (part Part.type (run1 (· != '\n') .shortest) ++ optionTail))).Rejects t := by
  simp only [columnDefinition, rejects_assoc]
  rfl

namespace PlainColumn

variable (c : PlainColumn) (w : Text)

theorem parseColumn?_closed : parseColumn? (c.text ++ '\n' :: ')' :: w) = none := by
  have hsilent : ∀ before, optionTail.Silent before c.type.text ('\n' :: ')' :: w) := fun _ =>
    silentInTypes_optionTail.type c.type trivial (stops_cons.mpr (by decide))
  have htype : (run1 (· != '\n') .shortest ++ optionTail).Rejects (c.type.text ++ '\n' :: ')' :: w) := by
    intro before
    rw [read?_seq_eq_none]
    intro a ha
    obtain ⟨-, -, htext, hall⟩ := mem_readings_run1 ha
    rcases exists_append_of_length htext.symm with ⟨z, hz, hrest⟩ | ⟨d, z, hz, hrest⟩
    · rw [hrest]
      cases z with
      | nil => exact rejects_optionTail_break w _
      | cons d z => exact silent_iff.mp (hsilent before) a.read (d :: z) hz (List.cons_ne_nil d z)
    · obtain ⟨rfl, -⟩ := List.cons.inj hrest
      exact absurd (hall '\n' (by rw [hz]; simp)) (by decide)
  have hstops : Stops isBlank (c.type.text ++ '\n' :: ')' :: w) := by
    have hword := c.type.first.1.stops (fun _ => isBlank_eq_false_of_isWordChar)
    simp only [ColumnType.text, ColumnType.wordText, List.append_assoc]
    exact hword _
  have hrejects : columnDefinition.Rejects (c.text ++ '\n' :: ')' :: w) := by
    rw [rejects_columnDefinition_iff, text, List.append_assoc]
    exact rejects_columnName_blanks (.blanks hstops (.part_seq Part.type htype))
  have hopening : columnDefinition.opening? (c.text ++ '\n' :: ')' :: w) = none :=
    at?_eq_none_iff.mpr (hrejects none)
  rw [parseColumn?, hopening]
  rfl

theorem opensConstraint_closed : opensConstraint .postgresql (c.text ++ '\n' :: ')' :: w) = false := by
  rw [text, List.append_assoc]
  exact opensConstraint_name c.nameFree c.noExclusion _

theorem defines_closed : Defines [c.text ++ '\n' :: ')' :: w] [] := by
  refine ⟨fun f hf => List.mem_singleton.mp hf ▸ c.opensConstraint_closed w, ?_⟩
  rw [List.filterMap_cons, c.parseColumn?_closed, List.filterMap_nil]

end PlainColumn

namespace TableClause

variable (clause : TableClause)

theorem lead_append_close : clause.lead ++ clause.close = ')' :: (clause.text ++ [';']) := by
  cases clause <;> simp [lead, close, keepsOpen, text]

def words : List String := ["PARTITION", "WITH", "TABLESPACE"]

variable {clause}

theorem exists_lead_eq (h : clause ≠ absent) :
    ∃ word ∈ words, ∃ u, clause.lead = ')' :: ' ' :: (word.toList ++ u) ∧ ∀ c ∈ u, c ≠ ',' ∧ c ≠ ')' := by
  have hfree : ∀ {u v : Text}, (∀ c ∈ u, c ≠ ',' ∧ c ≠ ')') → (∀ c ∈ v, c ≠ ',' ∧ c ≠ ')') →
      ∀ c ∈ u ++ v, c ≠ ',' ∧ c ≠ ')' := fun hu hv c hc => (List.mem_append.mp hc).elim (hu c) (hv c)
  have hname : ∀ n : Name, ∀ c ∈ n.text, c ≠ ',' ∧ c ≠ ')' := fun n c hc =>
    ⟨fun h => n.not_mem_text (by decide) (by decide) (by decide) (h ▸ hc),
      fun h => n.not_mem_text (by decide) (by decide) (by decide) (h ▸ hc)⟩
  cases clause with
  | absent => exact absurd rfl h
  | partition column =>
      refine ⟨"PARTITION", by decide, ' ' :: (spacedWords ["BY", "RANGE"] ++ [' ', '(']) ++ column.text, ?_,
        hfree (by decide) (hname column)⟩
      simp [lead, spacedWords]
  | storage fillfactor =>
      refine ⟨"WITH", by decide, (' ' :: '(' :: "fillfactor=".toList) ++ fillfactor.text, ?_,
        hfree (by decide) fun c hc => ?_⟩
      · simp [lead]
      · have hword := isWordChar_of_isDigit (fillfactor.chars c hc)
        exact ⟨ne_of_isWordChar (by decide) hword, ne_of_isWordChar (by decide) hword⟩
  | tablespace name =>
      refine ⟨"TABLESPACE", by decide, [' '] ++ (name.text ++ [';']), ?_,
        hfree (by decide) (hfree (hname name) (by decide))⟩
      simp [lead]

theorem exists_lead_eq_cons (h : clause ≠ absent) : ∃ u, clause.lead = ')' :: u ∧ ',' ∉ u ∧ ')' ∉ u := by
  obtain ⟨word, hword, u, hlead, hu⟩ := exists_lead_eq h
  have hfixed : ∀ word ∈ words, ∀ c ∈ ' ' :: word.toList, c ≠ ',' ∧ c ≠ ')' := by decide
  have hall : ∀ c ∈ (' ' :: word.toList) ++ u, c ≠ ',' ∧ c ≠ ')' := fun c hc =>
    (List.mem_append.mp hc).elim (hfixed word hword c) (hu c)
  exact ⟨_, hlead, fun h => (hall _ h).1 rfl, fun h => (hall _ h).2 rfl⟩

theorem rejects_bodyEnd {word : String} (hword : word ∈ words) (w : Text) :
    bodyEnd.Rejects (')' :: ' ' :: (word.toList ++ w)) := by
  have hstart : ∀ word ∈ words, word.toList ≠ [] ∧ Stops (fun c => isBlank c || c == ';') word.toList ∧
      clashes "INHERITS".toList word.toList := by decide
  obtain ⟨hne, hstops, hclash⟩ := hstart word hword
  have hmark := stops_append hne hstops w
  have hblank : Stops isBlank (word.toList ++ w) := fun c hc => (Bool.or_eq_false_iff.mp (hmark c hc)).1
  have hsemicolon : ∀ {t : Text}, Stops (· == ';') t → (literal ";" : SqlPattern).Rejects t := fun ht =>
    .of_starts rfl fun c hc => by simpa [literal] using ht c hc
  have hkeyword : ∀ {c} t, isWordChar c = false → (keyword "INHERITS" : SqlPattern).Rejects (c :: t) :=
    fun t hc => .of_starts rfl (stops_cons.mpr (starts_keyword_eq_false (by decide) hc))
  have hend : (gap ++ literal ";" : SqlPattern).Rejects (' ' :: (word.toList ++ w)) := by
    refine rejects_gap_run (g := [' ']) (by decide) hblank (fun c hc t => hsemicolon (stops_cons.mpr ?_))
      (hsemicolon fun c hc => (Bool.or_eq_false_iff.mp (hmark c hc)).2)
    exact beq_eq_false_iff_ne.mpr fun h => absurd (h ▸ hc) (by decide)
  have hparents : parents.Rejects (' ' :: (word.toList ++ w)) := by
    simp only [parents, rejects_assoc]
    exact rejects_gap_run (g := [' ']) (by decide) hblank
      (fun c hc t => (hkeyword t (isWordChar_eq_false_of_isBlank hc)).seq _) (.seq (.of_clash hclash w) _)
  intro before
  have hparen := read?_literal_seq ")" (maybe parents ++ (gap ++ literal ";")) before
    (' ' :: (word.toList ++ w))
  rw [bodyEnd]
  refine hparen.trans ?_
  rw [Rejects.missing hparents hend]
  rfl

end TableClause

theorem Form.Opens.silent_clause (hp : Form.alteration.Opens p) (clause : TableClause) :
    p.Silent before clause.text (';' :: v) := by
  have hclose : ∀ before, p.Silent before [')'] (';' :: v) := fun before => hp.silent_marks (by decide)
  cases clause with
  | absent => exact silent_nil _
  | partition column =>
      have hwords : p.Silent before (' ' :: (spacedWords ["PARTITION", "BY", "RANGE"] ++ [' ', '(']))
          (column.text ++ [')'] ++ ';' :: v) := hp.silent_fixed (by decide) (.inr (by decide))
      have hall := hwords.append ((hp.silent_name column (Form.apart_cons (by decide) (by decide) _)).append (hclose _))
      simpa [TableClause.text] using hall
  | storage fillfactor =>
      have hwords : p.Silent before ((' ' :: "WITH".toList) ++ (' ' :: '(' :: "fillfactor=".toList))
          (fillfactor.text ++ [')'] ++ ';' :: v) := hp.silent_fixed (by decide) (.inr (by decide))
      have hdigits : ∀ before, p.Silent before fillfactor.text ([')'] ++ ';' :: v) := fun before =>
        hp.silent_marks fun c hc => .inr (fillfactor.chars c hc)
      have hall := hwords.append ((hdigits _).append (hclose _))
      simpa [TableClause.text] using hall
  | tablespace name =>
      have hword : p.Silent before (' ' :: "TABLESPACE".toList ++ [' ']) (name.text ++ ';' :: v) :=
        hp.silent_fixed (by decide) (.inr (by decide))
      have hall := hword.append (hp.silent_name name (Form.apart_cons (by decide) (by decide) _))
      simpa [TableClause.text] using hall

open TableStatement (joinLines)

variable {clause : TableClause} {more : List Column}

theorem defines_lastLine (c : PlainColumn) (hpad : ∀ c ∈ pad, isBlank c) (hx : clause = .absent → x = [])
    (hmore : Defines (laterDefinitions x) more) :
    Defines (splitDefinitions (pad ++ (c.text ++ '\n' :: (clause.lead ++ x))))
      ((clause.kept [c]).map (·.definition) ++ more) := by
  by_cases habsent : clause = .absent
  · subst habsent
    obtain rfl := hx rfl
    have hline : splitDefinitions (pad ++ (c.text ++ ['\n'])) = [c.text] := by
      have hlast := splitDefinitions_lastLine hpad c.isLine fun d hd =>
        ⟨(c.endsSolid d hd).2, fun h => absurd (c.endsSolid d hd).1 (h ▸ by decide)⟩
      rwa [c.trim_eq] at hlast
    have happend := c.defines.append hmore
    rw [show laterDefinitions [] = [] from rfl, List.append_nil, ← hline] at happend
    exact happend
  · obtain ⟨u, hlead, hu, -⟩ := TableClause.exists_lead_eq_cons habsent
    obtain ⟨k, hk⟩ := splitDefinitions_closed hpad c.isLine c.endsSolid hu x
    have hkept : clause.kept [c] = [] := by
      cases clause with
      | absent => exact absurd rfl habsent
      | partition | storage | tablespace => rfl
    rw [hlead, List.cons_append, hk, hkept]
    exact (c.defines_closed k).append hmore

/-- The columns of some lines in front of a clause. The definitions behind the clause are those behind the
next separator, since up to there everything belongs to the last line. -/
theorem defines_joinLines {columns : List PlainColumn} (hne : columns ≠ []) (hpad : ∀ c ∈ pad, isBlank c)
    (indent : Indent) (hx : clause = .absent → x = []) (hmore : Defines (laterDefinitions x) more) :
    Defines (splitDefinitions (pad ++ (joinLines indent.text (columns.map (·.text)) ++
      '\n' :: (clause.lead ++ x)))) ((clause.kept columns).map (·.definition) ++ more) := by
  induction columns generalizing pad with
  | nil => exact absurd rfl hne
  | cons c columns ih =>
      cases columns with
      | nil => exact defines_lastLine c hpad hx hmore
      | cons next columns =>
          have hline : Defines (splitDefinitions (pad ++ c.text)) [c.definition] := by
            rw [splitDefinitions_line hpad c.isLine, c.trim_eq]
            exact c.defines
          have hkept : clause.kept (c :: next :: columns) = c :: clause.kept (next :: columns) := by
            cases clause <;> rfl
          have hsplit : pad ++ (joinLines indent.text ((c :: next :: columns).map (·.text)) ++
              '\n' :: (clause.lead ++ x)) = (pad ++ c.text) ++ ',' :: '\n' :: (indent.text ++
                (joinLines indent.text ((next :: columns).map (·.text)) ++ '\n' :: (clause.lead ++ x))) := by
            simp [joinLines]
          rw [hsplit, splitDefinitions_append, hkept]
          exact hline.append (ih (List.cons_ne_nil next columns) indent.blank)

/-- In an open body the first line of a statement belongs to the definition in front of it. -/
theorem defines_laterLines {columns : List PlainColumn} (hne : columns ≠ []) (hu : ',' ∉ u)
    (indent : Indent) (hx : clause = .absent → x = []) (hmore : Defines (laterDefinitions x) more) :
    Defines (laterDefinitions (u ++ (joinLines indent.text (columns.map (·.text)) ++
      '\n' :: (clause.lead ++ x)))) ((clause.kept columns.tail).map (·.definition) ++ more) := by
  obtain ⟨c, columns, rfl⟩ := List.exists_cons_of_ne_nil hne
  rw [laterDefinitions_behind hu]
  cases columns with
  | nil =>
      have hlead : ',' ∉ clause.lead := by
        by_cases habsent : clause = .absent
        · rw [habsent]
          exact List.not_mem_nil
        · obtain ⟨w, hw, hcomma, -⟩ := TableClause.exists_lead_eq_cons habsent
          rw [hw]
          simp [hcomma]
      have hkept : clause.kept [] = [] := by cases clause <;> rfl
      have hlater := laterDefinitions_line c.isLine c.endsSolid (clause.lead ++ x)
      rw [laterDefinitions_behind hlead] at hlater
      rw [List.tail_cons, hkept]
      exact hlater.symm ▸ hmore
  | cons next columns =>
      have hsplit : joinLines indent.text ((c :: next :: columns).map (·.text)) ++
          '\n' :: (clause.lead ++ x) = c.text ++ ',' :: '\n' :: (indent.text ++
            (joinLines indent.text ((next :: columns).map (·.text)) ++ '\n' :: (clause.lead ++ x))) := by
        simp [joinLines]
      rw [hsplit, laterDefinitions_separated c.isLine]
      exact defines_joinLines (List.cons_ne_nil next columns) indent.blank indent hx hmore

namespace ClausedTable

variable (t : ClausedTable)

/-- What stands behind the opening of a statement and is taken for a part of the body. -/
def bodyText : Text := t.linesText ++ t.clause.lead

theorem text_eq : t.text = openingText t.kind t.ifNotExists t.target ++ (t.bodyText ++ t.clause.close) := by
  rw [text, bodyText, List.append_assoc, t.clause.lead_append_close]

theorem bodyText_append (x : Text) : t.bodyText ++ x = t.first.text ++
    (joinLines t.indent.text (t.columns.map (·.text)) ++ '\n' :: (t.clause.lead ++ x)) := by
  simp [bodyText, linesText]

theorem linesText_eq : t.linesText = t.first.text ++ (joinLines t.indent.text
    ((t.columns.map fun c => Line.column c.line).map (·.text)) ++ ['\n']) := by
  have htext : (t.columns.map fun c => Line.column c.line).map (·.text) = t.columns.map (·.text) := by
    rw [List.map_map]
    exact List.map_congr_left fun c _ => c.line_text
  rw [htext, linesText]

theorem silent_bodyEnd : bodyEnd.Silent before t.bodyText (t.clause.close ++ v) := by
  have hlines : ∀ w, bodyEnd.Silent before t.linesText (')' :: w) := by
    rw [t.linesText_eq]
    exact PostgreSQL.silent_bodyEnd (guarded_lines _ _ _) (no_semicolon_lines _ _ _)
  by_cases habsent : t.clause = .absent
  · rw [bodyText, habsent, TableClause.lead, List.append_nil]
    exact hlines _
  · obtain ⟨word, hword, u, hlead, hu⟩ := TableClause.exists_lead_eq habsent
    have hfixed : ∀ word ∈ TableClause.words, ')' ∉ ' ' :: word.toList := by decide
    have hparen : ')' ∉ (' ' :: word.toList) ++ u := fun h => (List.mem_append.mp h).elim
      (hfixed word hword) fun h => (hu _ h).2 rfl
    have hclause : ∀ before, bodyEnd.Silent before t.clause.lead (t.clause.close ++ v) := by
      intro before
      rw [hlead]
      refine silent_cons.mpr ⟨?_, silent_bodyEnd_of_no_paren hparen⟩
      rw [List.cons_append, List.append_assoc]
      exact TableClause.rejects_bodyEnd hword _ _
    refine Silent.append ?_ (hclause _)
    rw [hlead]
    exact hlines _

theorem defines_bodyText (hx : t.clause = .absent → x = []) (hmore : Defines (laterDefinitions x) more) :
    Defines (splitDefinitions (t.bodyText ++ x)) ((t.clause.kept t.columns).map (·.definition) ++ more) := by
  rw [t.bodyText_append]
  exact defines_joinLines t.nonempty t.first.blank t.indent hx hmore

theorem defines_laterText (hu : ',' ∉ u) (hx : t.clause = .absent → x = [])
    (hmore : Defines (laterDefinitions x) more) :
    Defines (laterDefinitions (u ++ (t.bodyText ++ x)))
      ((t.clause.kept t.columns.tail).map (·.definition) ++ more) := by
  have hfirst : ',' ∉ u ++ t.first.text := fun h => (List.mem_append.mp h).elim hu (t.first.not_mem (by decide))
  rw [t.bodyText_append, ← List.append_assoc]
  exact defines_laterLines t.nonempty hfirst t.indent hx hmore

theorem silent_statement (hp : Form.alteration.Opens p) : p.Silent before t.text v := by
  have hlines : ∀ before w, p.Silent before t.linesText (')' :: w) := by
    intro before w
    rw [t.linesText_eq]
    exact hp.silent_lines _ _ _ w
  have hend : ∀ before, p.Silent before (')' :: (t.clause.text ++ [';'])) v := fun before =>
    (hp.silent_marks (u := [')']) (by decide)).append ((hp.silent_clause t.clause).append
      (hp.silent_marks (by decide)))
  exact (hp.silent_openingText t.kind t.ifNotExists t.target).append ((hlines _ _).append (hend _))

end ClausedTable

end SchemaDump.PostgreSQL
