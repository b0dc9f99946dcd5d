import SchemaDump.Proofs.Definition.CommentedBody
import SchemaDump.Proofs.Definition.DefinedTable
import SchemaDump.Proofs.PostgreSQL.Statement
/- Tables with comment lines in their bodies. Comments are found where blocks and statements are looked
for, so the law holds as long as none of them holds the end of a body or the opening of a statement. -/
namespace SchemaDump.PostgreSQL
open SqlPattern Pattern

variable {before : Option Char} {p q : SqlPattern} {u v w y : Text}

/-- A text in which no body ends, no list of parent tables is left open and no table is altered, be it
at the end of its line. -/
structure Inert (t : Text) : Prop where
  noEnd : bodyEnd.occursIn t = false
  noParents : openParents.occursIn t = false
  noAlteration : alterOpening.occursIn (t ++ ['\n']) = false

instance (t : Text) : Decidable (Inert t) :=
  decidable_of_iff (bodyEnd.occursIn t = false ∧ openParents.occursIn t = false ∧
      alterOpening.occursIn (t ++ ['\n']) = false)
    ⟨fun ⟨hend, hparents, halteration⟩ => ⟨hend, hparents, halteration⟩,
      fun h => ⟨h.noEnd, h.noParents, h.noAlteration⟩⟩

/-- What goes on with a list of parent tables, or with a statement that alters a table. -/
def sequel : SqlPattern :=
  alt (keyword "INHERITS" ++ (gap ++ literal "(")) (keyword "TABLE" ++ blanks)

/-- A definition that may stand on a line of a body. -/
structure IsDefinition (t : Text) : Prop extends IsLine t, Inert t where
  endsSolid : EndsSolid t
  starts : Stops (fun c => c == ';' || c == '(') t
  noSequel : sequel.opening? (t ++ ['\n']) = none

instance (t : Text) : Decidable (IsDefinition t) :=
  decidable_of_iff (IsLine t ∧ Inert t ∧ EndsSolid t ∧ Stops (fun c => c == ';' || c == '(') t ∧
      sequel.opening? (t ++ ['\n']) = none)
    ⟨fun ⟨hline, hinert, hsolid, hstarts, hsequel⟩ => ⟨hline, hinert, hsolid, hstarts, hsequel⟩,
      fun h => ⟨h.toIsLine, h.toInert, h.endsSolid, h.starts, h.noSequel⟩⟩

/-- A text that goes on with nothing that a line in front of it may have begun. -/
structure Ahead (v : Text) : Prop where
  stops : Stops (fun c => isBlank c || (c == ';' || c == '(')) v
  noSequel : sequel.Rejects v

theorem ahead_cons {c : Char} (hblank : isBlank c = false) (hmark : c ≠ ';' ∧ c ≠ '(')
    (hword : isWordChar c = false) (v : Text) : Ahead (c :: v) := by
  have hkeyword : ∀ word ∈ ["INHERITS", "TABLE"], (keyword word : SqlPattern).nullable = false ∧
      ∀ d ∈ word.toList, d.isAlpha := by decide
  have hrejects : ∀ word ∈ ["INHERITS", "TABLE"], (keyword word : SqlPattern).Rejects (c :: v) :=
    fun word h => .of_starts (hkeyword word h).1
      (stops_cons.mpr (starts_keyword_eq_false (hkeyword word h).2 hword))
  refine ⟨stops_cons.mpr (by simp [hblank, hmark]), ?_⟩
  exact .alt ((hrejects "INHERITS" (by decide)).seq _) ((hrejects "TABLE" (by decide)).seq _)

namespace Ahead

theorem stopsBlank (h : Ahead v) : Stops isBlank v :=
  fun c hc => (Bool.or_eq_false_iff.mp (h.stops c hc)).1

theorem stopsMark (h : Ahead v) {m : Char} (hm : m = ';' ∨ m = '(') :
    Stops (fun c => isBlank c || c == m) v := by
  intro c hc
  obtain ⟨hblank, hmarks⟩ := Bool.or_eq_false_iff.mp (h.stops c hc)
  obtain ⟨hsemicolon, hparen⟩ := Bool.or_eq_false_iff.mp hmarks
  rcases hm with rfl | rfl <;> simp_all

theorem rejects_list (h : Ahead v) : (keyword "INHERITS" ++ (gap ++ literal "(") : SqlPattern).Rejects v :=
  fun before => (Option.or_eq_none_iff.mp ((read?_alt _ _ before v).symm.trans (h.noSequel before))).1

theorem rejects_table (h : Ahead v) : (keyword "TABLE" ++ blanks : SqlPattern).Rejects v :=
  fun before => (Option.or_eq_none_iff.mp ((read?_alt _ _ before v).symm.trans (h.noSequel before))).2

end Ahead

open Body

/-- What stands in front of the parents of a table. -/
def listOpening : SqlPattern := gap ++ (keyword "INHERITS" ++ (gap ++ literal "("))

theorem readings_listOpening (q : SqlPattern) (before : Option Char) (t : Text) :
    (listOpening ++ q).readings before t =
      (gap ++ (keyword "INHERITS" ++ (gap ++ (literal "(" ++ q)))).readings before t := by
  refine (readings_seq_assoc _ _ _ _ _).trans (readings_seq_congr (fun _ _ => ?_) _ _ _)
  exact (readings_seq_assoc _ _ _ _ _).trans
    (readings_seq_congr (fun _ _ => readings_seq_assoc _ _ _ _ _) _ _ _)

/-- A text that goes on with nothing that the text in front of it may have begun, be it behind blanks. -/
structure Detached (w : Text) : Prop where
  stops : Stops isWordChar w
  noMark : ∀ mark, mark = ";" ∨ mark = "(" → (gap ++ literal mark : SqlPattern).Rejects w
  noList : listOpening.Rejects w
  noTable : (gap ++ (keyword "TABLE" ++ blanks) : SqlPattern).Rejects w

namespace Detached

theorem of_continues (hw : Continues Ahead w) : Detached w where
  stops := by
    cases hw with
    | comma v => exact stops_cons.mpr (by decide)
    | lineBreak => exact stops_cons.mpr (by decide)
  noMark mark hmark := by
    rcases hmark with rfl | rfl
    · exact hw.rejects_gap_mark rfl (by decide) fun _ h => h.stopsMark (.inl rfl)
    · exact hw.rejects_gap_mark rfl (by decide) fun _ h => h.stopsMark (.inr rfl)
  noList := hw.rejects_gap_seq (fun _ h => h.stopsBlank) rfl (starts_keyword_seq_of_blank rfl (by decide)) rfl
    fun _ h => h.rejects_list
  noTable := hw.rejects_gap_seq (fun _ h => h.stopsBlank) rfl (starts_keyword_seq_of_blank rfl (by decide)) rfl
    fun _ h => h.rejects_table

theorem of_blanks {g : Text} (hg : ∀ c ∈ g, isBlank c) (hne : g ≠ []) (hv : Ahead v) : Detached (g ++ v) where
  stops := by
    obtain ⟨c, g, rfl⟩ := List.exists_cons_of_ne_nil hne
    exact stops_cons.mpr (isWordChar_eq_false_of_isBlank (hg c List.mem_cons_self))
  noMark mark hmark := by
    have hmarks : ∀ {mark : String} {m : Char}, mark.toList = [m] → m = ';' ∨ m = '(' →
        (gap ++ literal mark : SqlPattern).Rejects (g ++ v) := by
      intro mark m hmark hm
      have hstarts : ∀ c, (literal mark : SqlPattern).starts c = (c == m) := fun c => by simp [literal, hmark]
      have hnull : (literal mark : SqlPattern).nullable = false := by simp [literal, hmark]
      refine .gap hg hv.stopsBlank hnull (fun c hc => ?_) (.of_starts hnull fun c hc => ?_)
      · rw [hstarts, beq_eq_false_iff_ne]
        rintro rfl
        rcases hm with rfl | rfl <;> exact absurd hc (by decide)
      · rw [hstarts]
        exact (Bool.or_eq_false_iff.mp (hv.stopsMark hm c hc)).2
    rcases hmark with rfl | rfl
    · exact hmarks rfl (.inl rfl)
    · exact hmarks rfl (.inr rfl)
  noList := .gap hg hv.stopsBlank rfl (starts_keyword_seq_of_blank rfl (by decide)) hv.rejects_list
  noTable := .gap hg hv.stopsBlank rfl (starts_keyword_seq_of_blank rfl (by decide)) hv.rejects_table

theorem confined_gap_mark (hw : Detached w) {mark : String} (hmark : mark = ";" ∨ mark = "(") :
    (gap ++ literal mark : SqlPattern).Confined u w := by
  refine confined_gap_seq (fun x y _ before r hr => ?_) (hw.noMark mark hmark)
  have hlength : r.read.length = 1 := by
    rw [(mem_readings_literal.mp hr).2.1]
    rcases hmark with rfl | rfl <;> rfl
  cases y with
  | cons c y =>
      rw [hlength]
      exact Nat.succ_le_succ (Nat.zero_le _)
  | nil =>
      -- without blanks in front the mark does not stand there either
      have hgap : (⟨[], [], w⟩ : Match Part) ∈ (gap : SqlPattern).readings before w :=
        mem_readings_run.mpr ⟨rfl, rfl, fun _ hc => nomatch hc⟩
      have hnone := read?_seq_eq_none.mp (hw.noMark mark hmark before) _ hgap
      rw [List.nil_append] at hr
      exact absurd (readings_eq_nil_iff.mpr hnone) (List.ne_nil_of_mem hr)

theorem confined_listOpening (hw : Detached w) : listOpening.Confined u w :=
  confined_gap_seq ((confined_keyword_of_stops (by decide) hw.stops).seq (hw.confined_gap_mark (.inr rfl)))
    hw.noList

end Detached

/-- The end of a body does not reach over a seam that neither the opening of a list of parent tables nor the
last semicolon reaches over, if no list is open there. -/
theorem staysWithin_bodyEnd (hlist : listOpening.Confined u w)
    (hsemicolon : (gap ++ literal ";" : SqlPattern).Confined u w) (hu : openParents.occursIn u = false) :
    bodyEnd.StaysWithin u w := by
  have hopen : ((literal ")" ++ listOpening) ++ (run (· != ')') .longest ++ textEnd) :
      SqlPattern).occursIn u = false := by
    rw [occursIn_eq_false_iff] at hu ⊢
    intro x y hxy
    have hnone := hu x y hxy
    rw [← readings_eq_nil_iff] at hnone ⊢
    rw [readings_seq_assoc, readings_seq_congr (readings_listOpening _)]
    rw [openParents, parentsOpening, readings_seq_assoc, readings_seq_congr fun _ _ =>
      (readings_seq_assoc _ _ _ _ _).trans (readings_seq_congr (fun _ _ => readings_seq_assoc _ _ _ _ _) _ _ _)]
      at hnone
    exact hnone
  have hclose : ∀ before t, ∀ r ∈ (literal ")" : SqlPattern).readings before t, r.read.length ≤ 1 := by
    intro before t r hr
    rw [(mem_readings_literal.mp hr).2.1]
    exact Nat.le_refl 1
  have hparents := (staysWithin_parenthesis.seq hlist).closed rfl hclose hopen
  have hend := hparents.seq hsemicolon
  refine .seq_maybe (hend.congr fun before t => ?_) (staysWithin_parenthesis.seq hsemicolon)
  rw [readings_seq_assoc, readings_seq_assoc]
  refine readings_seq_congr (fun before t => ?_) _ _ _
  rw [readings_seq_congr fun _ _ => readings_seq_assoc _ _ _ _ _, readings_listOpening]
  simp only [parents, readings_seq_assoc]

theorem Inert.silent_bodyEnd (h : Inert u) (hw : Detached w) : bodyEnd.Silent before u w :=
  (staysWithin_bodyEnd hw.confined_listOpening (hw.confined_gap_mark (.inl rfl)) h.noParents).silent rfl h.noEnd

/-- Blanks that are read at the end of a line are read in front of its line break as well. -/
theorem read?_seq_blanks_ne_none (hq : q.plain) {a b : Match Part}
    (ha : a ∈ q.readings before (y ++ w)) (hle : a.read.length ≤ y.length)
    (hb : b ∈ (blanks : SqlPattern).readings (lastOf before a.read) a.rest) :
    (q ++ blanks).read? before (y ++ ['\n']) ≠ none := by
  obtain ⟨s, hs, rfl⟩ := exists_of_mem_readings_append hq ha hle
  intro hnone
  have hend := read?_seq_eq_none.mp hnone _ (mem_readings_append (v := ['\n']) hq hs)
  obtain ⟨hne, -, htext, hblank⟩ := mem_readings_run1 hb
  have hfirst : ∃ c t, s.rest ++ ['\n'] = c :: t ∧ isBlank c := by
    cases hrest : s.rest with
    | nil => exact ⟨'\n', [], rfl, by decide⟩
    | cons c t =>
        obtain ⟨d, e, hread⟩ := List.exists_cons_of_ne_nil hne
        rw [Match.extend_rest, hrest, hread] at htext
        exact ⟨c, t ++ ['\n'], rfl, hblank c (by rw [hread, (List.cons.inj htext).1]; simp)⟩
  obtain ⟨c, t, hct, hc⟩ := hfirst
  rw [Match.extend_rest, hct] at hend
  have hone : (⟨[c], [], t⟩ : Match Part) ∈ (one isBlank).readings (lastOf before s.read) (c :: t) := by
    rw [readings_one hc]
    exact List.mem_singleton_self _
  have hrun := readings_eq_nil_iff.mpr (read?_seq_eq_none.mp hend _ hone)
  exact absurd hrun (List.ne_nil_of_mem (mem_readings_run.mpr ⟨rfl, rfl, by simp⟩ : (⟨[], [], t⟩ : Match Part) ∈ _))

/-- The words of a statement, if its second one is not behind the end of the line. -/
theorem length_phrase_le (hw : Detached w) {r : Match Part}
    (hr : r ∈ (phrase ["ALTER", "TABLE"] : SqlPattern).readings before (y ++ w))
    (hblanks : (blanks : SqlPattern).read? (lastOf before r.read) r.rest ≠ none) :
    r.read.length ≤ y.length := by
  have hphrase : (phrase ["ALTER", "TABLE"] : SqlPattern) = keyword "ALTER" ++ blanks ++ keyword "TABLE" :=
    rfl
  rw [hphrase, readings_seq_assoc] at hr
  obtain ⟨a, ha, m, hm, rfl⟩ := mem_readings_seq.mp hr
  obtain ⟨b, hb, c, hc, rfl⟩ := mem_readings_seq.mp hm
  have hfirst : a.read.length ≤ y.length :=
    confined_keyword_of_stops (u := y) (by decide) hw.stops [] y (List.nil_append y).symm before a ha
  obtain ⟨z, hyz, hrest⟩ := exists_of_length_le (readings_text _ _ _ a ha) hfirst
  rw [hrest] at hb
  obtain ⟨-, hparts, htext, hall⟩ := mem_readings_run1 hb
  have hgap : b ∈ (gap : SqlPattern).readings (lastOf before a.read) (z ++ w) :=
    mem_readings_run.mpr ⟨hparts, htext.symm, hall⟩
  have htable : (keyword "TABLE" ++ blanks : SqlPattern).read? (lastOf (lastOf before a.read) b.read) b.rest ≠
      none := by
    intro hnone
    have hend := read?_seq_eq_none.mp hnone c hc
    simp only [Match.andThen_read, Match.andThen_rest, lastOf_append] at hblanks
    exact hblanks hend
  have hsecond := length_andThen_le (confined_keyword_of_stops (u := z) (by decide) hw.stops)
    (List.nil_append z).symm htext.symm (length_blanks_le hw.noTable hgap htable) hc
  rw [Match.andThen_read, hyz, List.length_append, List.length_append]
  omega

theorem silent_alterOpening (hw : Detached w) (hu : alterOpening.occursIn (u ++ ['\n']) = false) :
    alterOpening.Silent before u w := by
  have hphrase : ∀ before t, alterOpening.read? before t =
      (phrase ["ALTER", "TABLE"] ++ blanks).read? before t := by
    intro before t
    have hwords : (phrase ["ALTER", "TABLE"] : SqlPattern) =
        keyword "ALTER" ++ blanks ++ keyword "TABLE" := rfl
    rw [hwords, read?_seq_assoc, read?_seq_assoc]
    rfl
  rw [silent_iff]
  intro x y hxy _
  rw [hphrase, read?_seq_eq_none]
  intro a ha
  have hnone := occursIn_eq_false_iff.mp hu x (y ++ ['\n']) (by rw [hxy, List.append_assoc])
  rw [hphrase] at hnone
  apply Classical.byContradiction
  intro hblanks
  obtain ⟨b, hb⟩ := Option.ne_none_iff_exists'.mp hblanks
  have hread := read?_seq_blanks_ne_none rfl ha (length_phrase_le hw ha hblanks) (mem_of_read? hb)
  rw [read?_before rfl _ (lastOf none x)] at hread
  exact hread hnone

theorem Inert.silent_statement (h : Inert u) (hp : Form.alteration.Opens p) (hw : Detached w) :
    p.Silent before u w := hp.silent_of_opening (silent_alterOpening hw h.noAlteration)

/-- A definition goes on with nothing that the line in front of it may have begun. -/
theorem IsDefinition.ahead (h : IsDefinition u) (hw : Continues Ahead w) : Ahead (u ++ w) := by
  obtain ⟨c, rest, rfl, hblank, -⟩ := h.opens
  have hsequel : sequel.Rejects (c :: rest ++ ['\n']) := by
    intro before
    rw [read?_before rfl _ none]
    exact at?_eq_none_iff.mp h.noSequel
  have hstops : Stops (fun c => isBlank c || (c == ';' || c == '(')) (c :: rest) := by
    rw [stops_cons, hblank, Bool.false_or]
    exact stops_cons.mp h.starts
  refine ⟨stops_cons.mpr (stops_cons.mp hstops), .alt (fun before => ?_) fun before => ?_⟩
  · have hlist : (keyword "INHERITS" ++ (gap ++ literal "(") : SqlPattern).Rejects (c :: rest ++ ['\n']) :=
      fun before => (Option.or_eq_none_iff.mp ((read?_alt _ _ before _).symm.trans (hsequel before))).1
    have hconfined : (keyword "INHERITS" ++ (gap ++ literal "(") : SqlPattern).Confined (c :: rest) w :=
      (hw.confined rfl rfl).seq ((Detached.of_continues hw).confined_gap_mark (.inr rfl))
    exact hconfined.rejects rfl (List.cons_ne_nil _ _) (hlist.of_append rfl) before
  · rw [read?_seq_eq_none]
    intro a ha
    apply Classical.byContradiction
    intro hblanks
    obtain ⟨b, hb⟩ := Option.ne_none_iff_exists'.mp hblanks
    have hle : a.read.length ≤ (c :: rest).length :=
      hw.confined (u := c :: rest) rfl rfl [] _ (List.nil_append _).symm before a ha
    refine read?_seq_blanks_ne_none rfl ha hle (mem_of_read? hb) ?_
    exact (Option.or_eq_none_iff.mp ((read?_alt _ _ before _).symm.trans (hsequel before))).2

/-- A body whose definitions and comments neither end it nor open a statement. -/
structure InertBody (b : Body) : Prop where
  definitions : ∀ d ∈ b.definitions, IsDefinition d
  comments : ∀ c ∈ b.allComments, Inert c.text

namespace InertBody

variable {b : Body}

theorem splitDefinitions_text (h : InertBody b) : splitDefinitions b.text = b.definitions.map Text.trim :=
  b.splitDefinitions_text fun d hd => ⟨(h.definitions d hd).toIsLine, (h.definitions d hd).endsSolid⟩

theorem silent (h : InertBody b)
    (hmarks : ∀ {u before w}, (∀ c ∈ u, isBlank c ∨ c = ',' ∨ c = '-') → p.Silent before u w)
    (hinert : ∀ {u before w}, Inert u → Detached w → p.Silent before u w) : p.Silent before b.text (')' :: v) :=
  b.silent_text hmarks (fun w => ahead_cons (by decide) (by decide) (by decide) _)
    (fun d hd _ hw => (h.definitions d hd).ahead hw)
    (fun d hd _ _ hw => hinert (h.definitions d hd).toInert (.of_continues hw))
    (fun c hc _ _ hw => hinert (h.comments c hc) (.of_continues hw)) (ahead_cons (by decide) (by decide) (by decide) v)

theorem silent_bodyEnd (h : InertBody b) : bodyEnd.Silent before b.text (')' :: v) := by
  refine h.silent (fun hu => silent_bodyEnd_of_no_paren fun hparen => ?_) fun h hw => h.silent_bodyEnd hw
  rcases hu ')' hparen with h | h | h <;> exact absurd h (by decide)

theorem silent_statement (h : InertBody b) (hp : Form.alteration.Opens p) : p.Silent before b.text (')' :: v) := by
  refine h.silent (fun hu => hp.silent_marks fun c hc => .inl ?_) fun h hw => h.silent_statement hp hw
  rcases hu c hc with h | rfl | rfl
  · exact isWordChar_eq_false_of_isBlank h
  · decide
  · decide

end InertBody

structure CommentedTable where
  kind : TableKind
  ifNotExists : Bool
  target : Target
  body : Body
  definitions : ∀ d ∈ body.definitions, IsDefinition d
  comments : ∀ c ∈ body.allComments, Inert c.text

namespace CommentedTable

variable (t : CommentedTable)

def text : Text := creationText t.kind t.ifNotExists t.target t.body.text

/-- The table without the comments in its body. -/
def withoutComments : CommentedTable :=
  { t with
    body := t.body.withoutComments
    definitions := fun d hd => t.definitions d (by rwa [Body.definitions_withoutComments] at hd)
    comments := fun c hc => by rw [Body.allComments_withoutComments] at hc; cases hc }

theorem inertBody : InertBody t.body := ⟨t.definitions, t.comments⟩

def parts : List (Part × Text) := [(Part.body, t.body.text), (Part.name, t.target.text)]

theorem tableOf_parts : tableOf t.parts = definedTable .postgresql parseColumn?
    (Dialect.postgresql.normalizeName t.target.text) t.body.definitions := by
  have hcolumns : bodyColumns t.body.text = definedColumns .postgresql parseColumn? t.body.definitions := by
    rw [bodyColumns, t.inertBody.splitDefinitions_text]
    rfl
  have hconstraints : bodyConstraints t.body.text = definedConstraints .postgresql t.body.definitions := by
    rw [bodyConstraints, t.inertBody.splitDefinitions_text]
    rfl
  rw [definedTable, ← hcolumns, ← hconstraints]
  rfl

theorem tableOf_withoutComments : tableOf t.withoutComments.parts = tableOf t.parts := by
  have hdefinitions : t.withoutComments.body.definitions = t.body.definitions :=
    Body.definitions_withoutComments t.body
  rw [tableOf_parts, tableOf_parts, hdefinitions]
  rfl

end CommentedTable

inductive CommentedStatement
  | table (statement : CommentedTable)
  | alteration (statement : Alteration)

namespace CommentedStatement

def text : CommentedStatement → Text
  | table t => t.text
  | alteration a => a.text

def withoutComments : CommentedStatement → CommentedStatement
  | table t => .table t.withoutComments
  | alteration a => .alteration a

def read : CommentedStatement → Text
  | table t => t.text
  | alteration a => a.opening ++ a.clause.keyText

/-- The parts that a statement which creates a table is read with. -/
def tableParts : CommentedStatement → Option (List (Part × Text))
  | table t => some t.parts
  | alteration _ => none

/-- The parts that a statement which adds a key of some kind is read with. -/
def keyParts (kind : KeyKind) : CommentedStatement → Option (List (Part × Text))
  | table _ => none
  | alteration a => ((some a).filter (·.clause.kind = kind)).map (·.parts)

theorem statementAhead (s : CommentedStatement) (v : Text) : StatementAhead (s.text ++ v) := by
  cases s with
  | table t => exact statementAhead_creation
  | alteration a => exact a.statementAhead

theorem foundIn_tableBlock (s : CommentedStatement) : FoundIn tableBlock s.text s.read s.tableParts := by
  cases s with
  | table t => exact foundIn_creation fun _ _ => t.inertBody.silent_bodyEnd
  | alteration a => exact fun _ _ => Form.opens_tableBlock.silent_alteration a

theorem foundIn_statement (kind : KeyKind) (s : CommentedStatement) :
    FoundIn kind.statement s.text s.read (s.keyParts kind) := by
  cases s with
  | table t =>
      exact fun _ _ => kind.opens_statement.silent_creation t.kind t.ifNotExists t.target fun _ =>
        t.inertBody.silent_statement kind.opens_statement
  | alteration a => exact a.foundIn_statement kind

theorem map_tableOf_tableParts (s : CommentedStatement) :
    s.withoutComments.tableParts.map tableOf = s.tableParts.map tableOf := by
  cases s with
  | table t => exact congrArg some t.tableOf_withoutComments
  | alteration a => rfl

end CommentedStatement

/-- A dump with comments in the bodies of its tables. -/
structure CommentedDump where
  statements : List (Filler × CommentedStatement)
  trailer : Filler

namespace CommentedDump

variable (d : CommentedDump)

def text : Text := d.statements.flatMap (fun s => s.1.text ++ s.2.text) ++ d.trailer.text

def withoutComments : CommentedDump :=
  { d with statements := d.statements.map fun s => (s.1, s.2.withoutComments) }

theorem found_tables :
    (tableBlock.found none d.text).map (fun r => tableOf r.parts) =
      d.statements.filterMap fun s => s.2.tableParts.map tableOf := by
  have hfound := found_statements Form.opens_tableBlock (consumes_of_not_nullable rfl)
    CommentedStatement.statementAhead CommentedStatement.foundIn_tableBlock d.statements none d.trailer
  have hparts : (tableBlock.found none d.text).map (fun r => tableOf r.parts) =
      ((tableBlock.found none d.text).map (·.parts)).map tableOf := by
    rw [List.map_map]
    rfl
  rw [hparts, text, hfound, List.map_filterMap]

theorem found_keys (kind : KeyKind) :
    (kind.statement.found none d.text).map (·.parts) = d.statements.filterMap (·.2.keyParts kind) :=
  found_statements kind.opens_statement (by cases kind <;> exact consumes_of_not_nullable rfl)
    CommentedStatement.statementAhead (CommentedStatement.foundIn_statement kind) d.statements none d.trailer

/-- Comments in the bodies of tables are ignored, unless one of them, as a text, holds the end of a body
or the opening of a statement. -/
theorem parse_withoutComments : parse d.withoutComments.text = parse d.text := by
  refine parse_congr ?_ fun kind => ?_
  · rw [found_tables, found_tables, withoutComments, List.filterMap_map]
    exact congrArg (List.filterMap · d.statements) (funext fun s => s.2.map_tableOf_tableParts)
  · rw [found_keys, found_keys, withoutComments, List.filterMap_map]
    refine congrArg (List.filterMap · d.statements) (funext fun s => ?_)
    cases hs : s.2 <;> simp only [Function.comp_apply, hs] <;> rfl

end CommentedDump

end SchemaDump.PostgreSQL
