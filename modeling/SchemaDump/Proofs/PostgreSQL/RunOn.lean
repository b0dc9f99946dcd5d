import SchemaDump.Proofs.PostgreSQL.Statement
import SchemaDump.Proofs.PostgreSQL.TableClause
/- What is read from statements with clauses. A block that a clause leaves open runs on through the statements
behind it: it takes their columns, except those next to a clause or an opening, until one of them ends it. -/
namespace SchemaDump.PostgreSQL
open SqlPattern Pattern

variable {before : Option Char} {opened : Option Table} {start t u v : Text}
  {kind : TableKind} {ifNotExists : Bool} {target : Target}

/-- The tables of the blocks that are found behind some character. -/
def tablesIn (before : Option Char) (t : Text) : List Table :=
  (tableBlock.found before t).map fun r => tableOf r.parts

theorem tablesIn_of_silent (h : tableBlock.Silent before u v) :
    tablesIn before (u ++ v) = tablesIn (lastOf before u) v :=
  congrArg (List.map _) (found_append_of_silent h)

/-- A block with a body that defines columns and nothing else. -/
theorem tablesIn_block {body : Text} {columns : List Column}
    (hsilent : ∀ before, bodyEnd.Silent before body ([')', ';'] ++ v))
    (hdefines : Defines (splitDefinitions body) columns) :
    tablesIn before (openingText kind ifNotExists target ++ (body ++ ([')', ';'] ++ v))) =
      ⟨target.name.string, columns⟩ ::
        tablesIn (lastOf before (creationText kind ifNotExists target body)) v := by
  have hread := reads_creation kind ifNotExists target hsilent before
  have htable : tableOf [(Part.body, body), (Part.name, target.text)] = ⟨target.name.string, columns⟩ := by
    rw [← Table.ofDefinition_nil, ← target.normalize_eq, ← hdefines.bodyColumns_eq,
      ← hdefines.bodyConstraints_eq]
    rfl
  have htext : openingText kind ifNotExists target ++ (body ++ ([')', ';'] ++ v)) =
      creationText kind ifNotExists target body ++ v := by
    rw [creationText_eq, List.append_assoc, List.append_assoc]
  rw [tablesIn, htext, found_of_read? (consumes_of_not_nullable rfl) hread, List.map_cons, htable]
  rfl

def blockOpening : SqlPattern :=
  keyword "CREATE" ++ blanks ++ maybe tableKind ++ keyword "TABLE" ++ blanks ++
    maybe (phrase ["IF", "NOT", "EXISTS"] ++ blanks) ++ part .name qualified ++ gap ++ literal "(" ++
    part .body (run (fun _ => true) .shortest)

theorem read?_tableBlock (before : Option Char) (t : Text) :
    tableBlock.read? before t = (blockOpening ++ bodyEnd).read? before t := by
  rw [tableBlock, read?_seq_assoc, read?_seq_assoc, read?_seq_assoc]
  rfl

theorem tablesIn_eq_nil (h : bodyEnd.Silent before t []) : tablesIn before t = [] := by
  have hsilent : tableBlock.Silent before t [] := by
    have hbehind : (blockOpening ++ bodyEnd).Silent before t [] := h.behind rfl
    rw [silent_iff] at hbehind ⊢
    intro x y hxy hy
    rw [read?_tableBlock]
    exact hbehind x y hxy hy
  rw [tablesIn, found_eq_nil_of_silent hsilent]
  rfl

/-- What stands in an open body in front of the lines of a statement: no body ends in it, and the columns of
the statement follow those of the table that is open, if there is one. -/
structure Run (opened : Option Table) (start : Text) : Prop where
  silent : ∀ before v, bodyEnd.Silent before start v
  defines : ∀ (t : ClausedTable) {x more}, (t.clause = .absent → x = []) →
    Defines (laterDefinitions x) more →
      Defines (splitDefinitions (start ++ (t.bodyText ++ x))) ((t.readInto opened).columns ++ more)

theorem run_nil : Run none [] where
  silent _ _ := silent_nil _
  defines t _ _ hx hmore := t.defines_bodyText hx hmore

theorem not_mem_openingText {c : Char} (hc : c = ',' ∨ c = ')') :
    c ∉ openingText kind ifNotExists target := by
  have hfixed : ∀ c ∈ [',', ')'], isWordChar c = false ∧ c ≠ ' ' ∧ c ≠ '"' ∧ c ∉ "public".toList ++ ['.'] ∧
      c ∉ "CREATE".toList ++ ([' '] ++ (kind.text ++ ("TABLE".toList ++ ([' '] ++
        TableStatement.existsText ifNotExists)))) ∧ c ∉ [' ', '('] := by
    cases kind <;> cases ifNotExists <;> decide
  obtain ⟨hword, hblank, hquote, hschema, hopening, hend⟩ := hfixed c (by simpa using hc)
  have hname : c ∉ target.name.text := target.name.not_mem_text hword hblank hquote
  have htarget : c ∉ target.text := by
    rw [Target.text]
    split
    · exact fun h => (List.mem_append.mp h).elim hschema hname
    · exact hname
  have hsplit : openingText kind ifNotExists target = ("CREATE".toList ++ ([' '] ++ (kind.text ++
      ("TABLE".toList ++ ([' '] ++ TableStatement.existsText ifNotExists))))) ++ (target.text ++ [' ', '(']) := by
    simp only [openingText, List.append_assoc]
  rw [hsplit]
  exact fun h => (List.mem_append.mp h).elim hopening fun h => (List.mem_append.mp h).elim htarget hend

namespace Run

/-- A statement that leaves the body open brings it in front of the next one. -/
theorem next (h : Run opened start) {t : ClausedTable} (hopen : t.clause.keepsOpen = true) (indent : Indent)
    (kind : TableKind) (ifNotExists : Bool) (target : Target) :
    Run (some (t.readInto opened))
      (start ++ (t.bodyText ++ (indent.text ++ openingText kind ifNotExists target))) where
  silent before v := by
    have hbody : ∀ before w, bodyEnd.Silent before t.bodyText w := by
      intro before w
      have hclose : t.clause.close = [] := by rw [TableClause.close, hopen]; rfl
      have hsilent : bodyEnd.Silent before t.bodyText (t.clause.close ++ w) := t.silent_bodyEnd
      rwa [hclose, List.nil_append] at hsilent
    have hparen : ')' ∉ indent.text ++ openingText kind ifNotExists target := fun hmem =>
      (List.mem_append.mp hmem).elim (indent.not_mem (by decide)) (not_mem_openingText (.inr rfl))
    exact (h.silent _ _).append ((hbody _ _).append (silent_bodyEnd_of_no_paren hparen))
  defines next x more hx hmore := by
    have hclause : t.clause ≠ .absent := fun habsent => by rw [habsent] at hopen; cases hopen
    have hcomma : ',' ∉ indent.text ++ openingText kind ifNotExists target := fun hmem =>
      (List.mem_append.mp hmem).elim (indent.not_mem (by decide)) (not_mem_openingText (.inl rfl))
    have hdefines := h.defines t (fun habsent => absurd habsent hclause) (next.defines_laterText hcomma hx hmore)
    simpa only [List.append_assoc, ClausedTable.readInto] using hdefines

theorem tablesIn_closed (h : Run opened start) {t : ClausedTable} (hclosed : t.clause.keepsOpen = false)
    (hname : (t.readInto opened).name = target.name.string) (v : Text) :
    ∃ before', tablesIn before (openingText kind ifNotExists target ++
        (start ++ (t.bodyText ++ (t.clause.close ++ v)))) = t.readInto opened :: tablesIn before' v := by
  have hclose : t.clause.close = [')', ';'] := by rw [TableClause.close, hclosed]; rfl
  have hsilent : ∀ before, bodyEnd.Silent before (start ++ t.bodyText) ([')', ';'] ++ v) := fun before =>
    (h.silent _ _).append (hclose ▸ t.silent_bodyEnd)
  have hdefines : Defines (splitDefinitions (start ++ t.bodyText)) (t.readInto opened).columns := by
    have hall := h.defines t (x := []) (fun _ => rfl) defines_nil
    simpa only [List.append_nil] using hall
  refine ⟨lastOf before (creationText kind ifNotExists target (start ++ t.bodyText)), ?_⟩
  rw [hclose, ← List.append_assoc start, tablesIn_block hsilent hdefines, ← hname]

end Run

section Statements

variable (trailer : Indent)

/-- The text of statements, with blanks in front of each and behind the last. -/
def runText (statements : List (Indent × ClausedTable)) : Text :=
  statements.flatMap (fun s => s.1.text ++ s.2.text) ++ trailer.text

theorem runText_cons (s : Indent × ClausedTable) (statements : List (Indent × ClausedTable)) :
    runText trailer (s :: statements) = s.1.text ++ (openingText s.2.kind s.2.ifNotExists s.2.target ++
      (s.2.bodyText ++ (s.2.clause.close ++ runText trailer statements))) := by
  simp only [runText, List.flatMap_cons, s.2.text_eq, List.append_assoc]

/-- A statement that leaves the body open leaves it to the statements behind it. -/
def ReadOpen (statements : List (Indent × ClausedTable)) : Prop :=
  ∀ (before : Option Char) (kind : TableKind) (ifNotExists : Bool) (target : Target) (start : Text)
    (opened : Option Table) (t : ClausedTable), Run opened start → t.clause.keepsOpen = true →
      (t.readInto opened).name = target.name.string →
        tablesIn before (openingText kind ifNotExists target ++ (start ++ (t.bodyText ++
          runText trailer statements))) = readTables (some (t.readInto opened)) (statements.map (·.2))

/-- From a body that is open in front of its lines on, a statement ends the block or leaves it open. -/
theorem tablesIn_statement {statements : List (Indent × ClausedTable)}
    (hplain : ∀ before, tablesIn before (runText trailer statements) = readTables none (statements.map (·.2)))
    (hopen : ReadOpen trailer statements) (hrun : Run opened start) (t : ClausedTable)
    (hname : (t.readInto opened).name = target.name.string) :
    tablesIn before (openingText kind ifNotExists target ++ (start ++ (t.bodyText ++ (t.clause.close ++
      runText trailer statements)))) = readTables opened (t :: statements.map (·.2)) := by
  rw [readTables]
  cases hkeeps : t.clause.keepsOpen with
  | true =>
      have hclose : t.clause.close = [] := by rw [TableClause.close, hkeeps]; rfl
      rw [hclose, List.nil_append, if_pos rfl]
      exact hopen before kind ifNotExists target start opened t hrun hkeeps hname
  | false =>
      obtain ⟨before', htables⟩ := hrun.tablesIn_closed hkeeps hname (runText trailer statements)
      rw [htables, hplain, if_neg Bool.false_ne_true]

theorem tablesIn_runText (statements : List (Indent × ClausedTable)) :
    (∀ before, tablesIn before (runText trailer statements) = readTables none (statements.map (·.2))) ∧
      ReadOpen trailer statements := by
  induction statements with
  | nil =>
      have htrailer : ∀ before w, bodyEnd.Silent before trailer.text w := fun _ _ =>
        silent_bodyEnd_of_no_paren (trailer.not_mem (by decide))
      refine ⟨fun before => tablesIn_eq_nil (htrailer _ _), ?_⟩
      intro before kind ifNotExists target start opened t hrun hkeeps hname
      -- nothing ends the block that is open
      have hopening : bodyEnd.Silent before (openingText kind ifNotExists target) (start ++ (t.bodyText ++
          runText trailer []) ++ []) := silent_bodyEnd_of_no_paren (not_mem_openingText (.inr rfl))
      have hbody : ∀ before, bodyEnd.Silent before t.bodyText (runText trailer [] ++ []) := by
        intro before
        have hclose : t.clause.close = [] := by rw [TableClause.close, hkeeps]; rfl
        have hsilent : bodyEnd.Silent before t.bodyText (t.clause.close ++ (runText trailer [] ++ [])) :=
          t.silent_bodyEnd
        rwa [hclose, List.nil_append] at hsilent
      exact tablesIn_eq_nil (hopening.append ((hrun.silent _ _).append ((hbody _).append (htrailer _ _))))
  | cons s statements ih =>
      obtain ⟨hplain, hopen⟩ := ih
      refine ⟨fun before => ?_, ?_⟩
      · rw [runText_cons, tablesIn_of_silent (Form.opens_tableBlock.silent_indent s.1)]
        exact tablesIn_statement trailer hplain hopen run_nil s.2 rfl
      · intro before kind ifNotExists target start opened t hrun hkeeps hname
        have hnext := hrun.next hkeeps s.1 s.2.kind s.2.ifNotExists s.2.target
        have htext : start ++ (t.bodyText ++ runText trailer (s :: statements)) = (start ++ (t.bodyText ++
            (s.1.text ++ openingText s.2.kind s.2.ifNotExists s.2.target))) ++ (s.2.bodyText ++
              (s.2.clause.close ++ runText trailer statements)) := by
          rw [runText_cons]
          simp only [List.append_assoc]
        rw [htext]
        exact tablesIn_statement trailer hplain hopen hnext s.2 hname

theorem silent_runText {p : SqlPattern} (hp : Form.alteration.Opens p)
    (statements : List (Indent × ClausedTable)) : p.Silent before (runText trailer statements) [] := by
  induction statements generalizing before with
  | nil => exact hp.silent_indent trailer
  | cons s statements ih =>
      have hstatement : ∀ before, p.Silent before s.2.text (runText trailer statements ++ []) := fun _ =>
        s.2.silent_statement hp
      have hall : p.Silent before (s.1.text ++ (s.2.text ++ runText trailer statements)) [] :=
        (hp.silent_indent s.1).append ((hstatement _).append ih)
      simpa only [runText, List.flatMap_cons, List.append_assoc] using hall

end Statements

/-- A dump of statements with clauses. -/
structure ClausedDump where
  statements : List (Indent × ClausedTable)
  trailer : Indent

namespace ClausedDump

variable (d : ClausedDump)

def text : Text := runText d.trailer d.statements

theorem allAlterations_text : allAlterations d.text = [] := by
  have hnone : ∀ kind : KeyKind, alterations kind.statement d.text = [] := by
    intro kind
    have hsilent : kind.statement.Silent none d.text [] := silent_runText d.trailer kind.opens_statement d.statements
    rw [alterations_parts, found_eq_nil_of_silent hsilent]
    rfl
  rw [allAlterations, ← KeyKind.statement_primaryKey, ← KeyKind.statement_foreignKey, hnone, hnone]
  rfl

theorem tables_text : (parse d.text).tables = readTables none (d.statements.map (·.2)) := by
  rw [parse_tables, mapFirst_id fun t _ => Table.under_none (fun name => ?_) t]
  · exact (tablesIn_runText d.trailer d.statements).1 none
  · rw [d.allAlterations_text]
    rfl

/-- What is read of tables with clauses: each clause takes the last column of its table, and one without
parentheses merges the table with those behind it up to the next block that ends, or loses it. So the tables
are whole if clauses stand at the end only, and none of them ends with a parenthesis. -/
theorem parse_runs_on : parse d.text = ⟨readTables none (d.statements.map (·.2))⟩ ∧
    ∀ plain more, d.statements.map (·.2) = plain ++ more → (∀ t ∈ plain, t.clause = .absent) →
      (∀ t ∈ more, t.clause.keepsOpen = true) → parse d.text = ⟨plain.map (·.definition)⟩ := by
  have htables : parse d.text = ⟨readTables none (d.statements.map (·.2))⟩ := by
    rw [← d.tables_text]
  refine ⟨htables, fun plain more hsplit hplain hmore => ?_⟩
  rw [htables, hsplit, readTables_plain_append hplain, readTables_open hmore, List.append_nil]

/-- A tablespace merges two tables, and storage parameters take a column. -/
example :
    parse ("CREATE TABLE a (\n    x integer,\n    y text\n) TABLESPACE fast;\n\n" ++
        "CREATE TABLE b (\n    z integer,\n    w text\n);\n").toList =
        ⟨[⟨"a", [{ name := "x", declaredType := "integer" }, { name := "w", declaredType := "text" }]⟩]⟩ ∧
      parse "CREATE TABLE a (\n    x integer,\n    y text\n) WITH (fillfactor=70);".toList =
        ⟨[⟨"a", [{ name := "x", declaredType := "integer" }]⟩]⟩ := by
  decide +kernel

end ClausedDump

end SchemaDump.PostgreSQL
