import SchemaDump.Proofs.Definition.CommentedBody
import SchemaDump.Proofs.Definition.DefinedTable
import SchemaDump.Proofs.MySQL.Statement
/- Tables with comment lines in their bodies. Comments are found where a block is looked for, so the law
holds as long as none of them holds a semicolon or the end of a body. -/
namespace SchemaDump.MySQL
open SqlPattern Pattern

variable {before : Option Char} {p : SqlPattern} {u v w : Text}

/-- A text in which no statement and no body ends. -/
structure Inert (t : Text) : Prop where
  noSemicolon : ';' ∉ t
  noEnd : bodyEnd.occursIn t = false

instance (t : Text) : Decidable (Inert t) :=
  decidable_of_iff (';' ∉ t ∧ bodyEnd.occursIn t = false) ⟨fun ⟨hsemicolon, hend⟩ => ⟨hsemicolon, hend⟩,
    fun h => ⟨h.noSemicolon, h.noEnd⟩⟩

/-- A definition that may stand on a line of a body. -/
structure IsDefinition (t : Text) : Prop extends IsLine t, Inert t where
  endsSolid : EndsSolid t
  starts : Stops (· == '=') t
  noEngine : (keyword "ENGINE" ++ (gap ++ literal "=") : SqlPattern).opening? t = none

instance (t : Text) : Decidable (IsDefinition t) :=
  decidable_of_iff (IsLine t ∧ Inert t ∧ EndsSolid t ∧ Stops (· == '=') t ∧
      (keyword "ENGINE" ++ (gap ++ literal "=") : SqlPattern).opening? t = none)
    ⟨fun ⟨hline, hinert, hsolid, hstarts, hengine⟩ => ⟨hline, hinert, hsolid, hstarts, hengine⟩,
      fun h => ⟨h.toIsLine, h.toInert, h.endsSolid, h.starts, h.noEngine⟩⟩

/-- A text that goes on with nothing that a line in front of it may have begun. -/
structure Ahead (v : Text) : Prop where
  stops : Stops (fun c => isBlank c || c == '=') v
  noEngine : (keyword "ENGINE" ++ (gap ++ literal "=") : SqlPattern).Rejects v

theorem ahead_cons {c : Char} (hblank : isBlank c = false) (hmark : c ≠ '=') (hword : isWordChar c = false)
    (v : Text) : Ahead (c :: v) := by
  have hkeyword : (keyword "ENGINE" : SqlPattern).Rejects (c :: v) :=
    .of_starts rfl (stops_cons.mpr (starts_keyword_eq_false (by decide) hword))
  exact ⟨stops_cons.mpr (by simp [hblank, hmark]), hkeyword.seq _⟩

open Body

theorem confined_gap_sign (hw : Continues Ahead w) : (gap ++ literal "=" : SqlPattern).Confined u w :=
  hw.confined_gap_mark rfl (by decide) fun _ h => h.stops

theorem staysWithin_bodyEnd (hw : Continues Ahead w) : bodyEnd.StaysWithin u w :=
  staysWithin_parenthesis.seq (hw.confined_gap_word rfl (by decide)
    (fun _ h c hc => (Bool.or_eq_false_iff.mp (h.stops c hc)).1) (confined_gap_sign hw) fun _ h => h.noEngine)

theorem Inert.silent_bodyEnd (h : Inert u) (hw : Continues Ahead w) : bodyEnd.Silent before u w :=
  (staysWithin_bodyEnd hw).silent rfl h.noEnd

/-- A definition goes on with nothing that the line in front of it may have begun. -/
theorem IsDefinition.ahead (h : IsDefinition u) (hw : Continues Ahead w) : Ahead (u ++ w) := by
  obtain ⟨c, rest, rfl, hblank, -⟩ := h.opens
  have hengine : (keyword "ENGINE" ++ (gap ++ literal "=") : SqlPattern).Rejects (c :: rest) := by
    intro before
    rw [read?_before rfl _ none]
    exact at?_eq_none_iff.mp h.noEngine
  have hconfined : (keyword "ENGINE" ++ (gap ++ literal "=") : SqlPattern).Confined (c :: rest) w :=
    (hw.confined rfl rfl).seq (confined_gap_sign hw)
  have hsign : (c == '=') = false := h.starts c rfl
  exact ⟨stops_cons.mpr (by rw [hblank, hsign]; rfl), hconfined.rejects rfl (List.cons_ne_nil _ _) hengine⟩

structure CommentedTable where
  temporary : Bool
  ifNotExists : Bool
  name : Name
  body : Body
  definitions : ∀ d ∈ body.definitions, IsDefinition d
  comments : ∀ c ∈ body.allComments, Inert c.text
  options : Text
  optionsPlain : hasSpelling "CREATE" options = false

namespace CommentedTable

variable (t : CommentedTable)

def text : Text := statementText t.temporary t.ifNotExists t.name t.body.text t.options

/-- The table without the comments in its body. -/
def withoutComments : CommentedTable :=
  { t with
    body := t.body.withoutComments
    definitions := fun d hd => t.definitions d (by rwa [Body.definitions_withoutComments] at hd)
    comments := fun c hc => by rw [Body.allComments_withoutComments] at hc; cases hc }

def parts : List (Part × Text) := [(Part.body, t.body.text), (Part.name, t.name.quoted)]

theorem splitDefinitions_body : splitDefinitions t.body.text = t.body.definitions.map Text.trim :=
  t.body.splitDefinitions_text fun d hd => ⟨(t.definitions d hd).toIsLine, (t.definitions d hd).endsSolid⟩

theorem silent_bodyEnd : bodyEnd.Silent before t.body.text (')' :: v) := by
  refine t.body.silent_text (fun hu => silent_of_no_paren fun hparen => ?_)
    (fun w => ahead_cons (by decide) (by decide) (by decide) _) (fun d hd _ hw => (t.definitions d hd).ahead hw)
    (fun d hd _ _ hw => (t.definitions d hd).toInert.silent_bodyEnd hw)
    (fun c hc _ _ hw => (t.comments c hc).silent_bodyEnd hw)
    (ahead_cons (by decide) (by decide) (by decide) v)
  rcases hu ')' hparen with h | h | h <;> exact absurd h (by decide)

theorem no_semicolon_body : ';' ∉ t.body.text :=
  t.body.not_mem_text (by decide) (fun d hd => (t.definitions d hd).noSemicolon)
    fun c hc => (t.comments c hc).noSemicolon

theorem body_ne_nil : t.body.text ≠ [] := by
  obtain ⟨rest, hrest⟩ := t.body.exists_ending_eq
  rw [Body.text, hrest]
  exact List.append_ne_nil_of_right_ne_nil _ (List.cons_ne_nil _ _)

theorem foundAs_text : FoundAs t.text t.parts :=
  foundAs_statementText t.temporary t.ifNotExists t.name t.body_ne_nil
    (fun _ hc h => t.no_semicolon_body (h ▸ hc)) (fun _ _ => t.silent_bodyEnd) t.optionsPlain

theorem tableOf_parts : tableOf t.parts = definedTable .mysql parseColumn?
    (Dialect.mysql.normalizeName t.name.quoted) t.body.definitions := by
  have hcolumns : bodyColumns t.body.text = definedColumns .mysql parseColumn? t.body.definitions := by
    rw [bodyColumns, t.splitDefinitions_body]
    rfl
  have hconstraints : bodyConstraints t.body.text = definedConstraints .mysql t.body.definitions := by
    rw [bodyConstraints, t.splitDefinitions_body]
    rfl
  rw [definedTable, ← hcolumns, ← hconstraints]
  rfl

theorem tableOf_withoutComments : tableOf t.withoutComments.parts = tableOf t.parts := by
  have hdefinitions : t.withoutComments.body.definitions = t.body.definitions :=
    Body.definitions_withoutComments t.body
  rw [tableOf_parts, tableOf_parts, hdefinitions]
  rfl

end CommentedTable

/-- A dump with comments in the bodies of its tables. -/
structure CommentedDump where
  statements : List (Filler × CommentedTable)
  trailer : Filler

namespace CommentedDump

variable (d : CommentedDump)

def text : Text := d.statements.flatMap (fun s => s.1.text ++ s.2.text) ++ d.trailer.text

def withoutComments : CommentedDump :=
  { d with statements := d.statements.map fun s => (s.1, s.2.withoutComments) }

theorem tables_text : (parse d.text).tables = d.statements.map fun s => tableOf s.2.parts := by
  have hfound := congrArg (List.map tableOf)
    (found_statements CommentedTable.foundAs_text d.statements d.trailer none)
  rw [List.map_map, List.map_map] at hfound
  rw [parse_tables, text]
  exact hfound

/-- Comments in the bodies of tables are ignored, unless one of them, as a text, holds a semicolon or the
end of a body. -/
theorem parse_withoutComments : parse d.withoutComments.text = parse d.text := by
  have hparse : ∀ sql, parse sql = ⟨(parse sql).tables⟩ := fun _ => rfl
  rw [hparse, hparse d.text, tables_text, tables_text, withoutComments, List.map_map]
  exact congrArg Schema.mk (List.map_congr_left fun s _ => s.2.tableOf_withoutComments)

end CommentedDump

end SchemaDump.MySQL
