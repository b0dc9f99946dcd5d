import SchemaDump.Dump.Extract
import SchemaDump.Proofs.PostgreSQL.ClauseColumn
import SchemaDump.Proofs.PostgreSQL.CommentedTable
import SchemaDump.Proofs.PostgreSQL.RunOn
/- Tables with one column. Blocks and statements are looked for in the text of a column too, so its table is
whole as long as no part of the column, each by itself, ends a body or alters a table. -/
namespace SchemaDump.PostgreSQL
open SqlPattern Pattern

variable {before : Option Char} {p : SqlPattern} {w : Text}

theorem Clause.ahead (c : Clause) (w : Text) : Ahead (c.word.toList ++ w) := by
  have hwords : ∀ word ∈ ["NOT", "PRIMARY", "REFERENCES", "CHECK", "DEFAULT"], word.toList ≠ [] ∧
      Stops (fun c => isBlank c || (c == ';' || c == '(')) word.toList ∧
        clashes "INHERITS".toList word.toList ∧ clashes "TABLE".toList word.toList := by decide
  obtain ⟨hne, hstops, hlist, htable⟩ := hwords _ c.word_mem
  exact ⟨stops_append hne hstops w, .alt ((Rejects.of_clash hlist w).seq _) ((Rejects.of_clash htable w).seq _)⟩

theorem detached_clauses (clauses : List Clause) (hw : Detached w) : Detached (clauseText clauses ++ w) := by
  cases clauses with
  | nil => exact hw
  | cons c clauses =>
      obtain ⟨rest, hrest⟩ := c.exists_text_eq
      rw [clauseText_cons, hrest]
      have h := c.ahead (' ' :: rest ++ (clauseText clauses ++ w))
      have hdetached : Detached ([' '] ++ (c.word.toList ++ (' ' :: rest ++ (clauseText clauses ++ w)))) :=
        .of_blanks (by decide) (by decide) h
      simpa only [List.append_assoc, List.cons_append, List.nil_append] using hdetached

/-! Words that open a constraint. What stands behind the name and the type of a column does not tell whether
its line opens one. -/

section Opening

variable {u v : Text} {word : String} (hv : Stops isWordChar v)

include hv

theorem read?_edged_append (hletters : ∀ c ∈ word.toList, c.isAlpha) (hne : word.toList ≠ [])
    (h : (keyword word ++ wordEdge : SqlPattern).read? before u = none) :
    (keyword word ++ wordEdge : SqlPattern).read? before (u ++ v) = none := by
  by_contra hread
  obtain ⟨e, z, hsplit, hspells, hedge⟩ := exists_of_read?_keyword_seq hread
  have hchars := isWordChar_of_spells hletters hspells
  have hene : e ≠ [] := by
    rintro rfl
    exact hne (List.length_eq_zero_iff.mp (spells_length hspells).symm)
  obtain ⟨k, rfl, hk⟩ : ∃ k, u = e ++ k ∧ Stops isWordChar k := by
    rcases exists_append_of_length hsplit with ⟨x, rfl, rfl⟩ | ⟨c, k, rfl, rfl⟩
    · cases x with
      | nil => exact ⟨[], by simp, stops_nil _⟩
      | cons c x =>
          rw [List.cons_append, stops_cons, hchars c (by simp)] at hv
          cases hv
    · refine ⟨c :: k, rfl, ?_⟩
      obtain ⟨d, hd⟩ := Option.ne_none_iff_exists'.mp (mt List.getLast?_eq_none_iff.mp hene)
      rw [lastOf_eq, hd] at hedge
      have hstops := endsWord_wordEdge d (c :: (k ++ v)) (hchars d (List.mem_of_getLast? hd)) hedge
      exact stops_cons.mpr (stops_cons.mp hstops)
  rw [keyword, read?_single_seq (readings_spelled hspells), read?_wordEdge_of_end hene hchars hk] at h
  cases h

theorem read?_exclusionTail_append (hne : u ≠ []) (h : exclusionTail.read? before u = none) :
    exclusionTail.read? before (u ++ v) = none := by
  rw [exclusionTail, read?_alt, Option.or_eq_none_iff] at h ⊢
  obtain ⟨c, u, rfl⟩ := List.exists_cons_of_ne_nil hne
  refine ⟨read?_edged_append hv (by decide) (by decide) h.1, ?_⟩
  refine Rejects.of_starts (p := literal "(") rfl (stops_cons.mpr ?_) before
  cases hc : (literal "(" : SqlPattern).starts c with
  | false => rfl
  | true =>
      have hparen : c = '(' := by simpa [literal] using hc
      subst hparen
      have hread : (literal "(" : SqlPattern).read? before ("(".toList ++ u) = some ⟨"(".toList, [], u⟩ :=
        reads_literal "(" u before
      exact absurd (h.2.symm.trans hread) (by simp)

theorem read?_exclusion_append (hsolid : ∀ c ∈ u.getLast?, isBlank c = false)
    (hmark : ∃ c ∈ u, isWordChar c = false)
    (h : (keyword "EXCLUDE" ++ (gap ++ exclusionTail) : SqlPattern).read? before u = none) :
    (keyword "EXCLUDE" ++ (gap ++ exclusionTail) : SqlPattern).read? before (u ++ v) = none := by
  by_contra hread
  obtain ⟨e, z, hsplit, hspells, htail⟩ := exists_of_read?_keyword_seq hread
  have hchars := isWordChar_of_spells (by decide) hspells
  rcases exists_append_of_length hsplit with ⟨x, rfl, -⟩ | ⟨c, k, rfl, rfl⟩
  · obtain ⟨c, hc, hword⟩ := hmark
    rw [hchars c (List.mem_append_left x hc)] at hword
    cases hword
  · obtain ⟨r, hr⟩ := Option.ne_none_iff_exists'.mp htail
    obtain ⟨g, hg, m, hm, -⟩ := mem_readings_seq.mp (mem_of_read? hr)
    obtain ⟨-, htext, hall⟩ := mem_readings_run.mp hg
    -- the blanks behind the word end in front of the last character
    obtain ⟨d, hd, -, hdsolid⟩ := exists_of_getLast? (List.cons_ne_nil c k) hsolid
    have hnot : d ∉ g.read := fun hmem => by
      rw [hall d hmem] at hdsolid
      cases hdsolid
    obtain ⟨y, hy, hrest, hne⟩ : ∃ y, c :: k = g.read ++ y ∧ g.rest = y ++ v ∧ y ≠ [] := by
      rcases exists_append_of_length (show g.read ++ g.rest = (c :: k) ++ v from htext) with
        ⟨y, hy, hrest⟩ | ⟨b, y, hy, -⟩
      · refine ⟨y, hy, hrest, ?_⟩
        rintro rfl
        rw [List.append_nil] at hy
        exact hnot (hy ▸ hd)
      · exact absurd (hy ▸ List.mem_append_left _ hd) hnot
    have hgap : (⟨g.read, [], y⟩ : Match Part) ∈ (gap : SqlPattern).readings (lastOf before e) (c :: k) :=
      mem_readings_run.mpr ⟨rfl, hy.symm, hall⟩
    rw [keyword, read?_single_seq (readings_spelled hspells), Option.map_eq_none_iff] at h
    have hnone := read?_exclusionTail_append hv hne (read?_seq_eq_none.mp h _ hgap)
    rw [hrest, readings_eq_nil_iff.mpr hnone] at hm
    cases hm

end Opening

theorem opensConstraint_eq_false_iff {t : Text} (hopens : Stops isBlank t) :
    opensConstraint .postgresql t = false ↔
      (∀ word ∈ constraintWords, (keyword word ++ wordEdge : SqlPattern).read? none t = none) ∧
        (keyword "EXCLUDE" ++ (gap ++ exclusionTail) : SqlPattern).read? none t = none := by
  have hread : (constraintOpening .postgresql).opening? t = none ↔
      (constraintOpening .postgresql).read? none t = none := at?_eq_none_iff
  rw [opensConstraint, show Text.trimStart t = t from dropWhile_eq_self hopens, Option.isSome_eq_false_iff,
    Option.isNone_iff_eq_none, hread, constraintOpening, read?_alt, Option.or_eq_none_iff, read?_seq_assoc]
  refine and_congr ?_ Iff.rfl
  simp [constraintWords, anyOf, read?_alt_seq, Option.or_eq_none_iff]

/-- Whether a line opens a constraint is told by its name and its type. -/
theorem opensConstraint_append {u v : Text} (hv : Stops isWordChar v) (hopens : Stops isBlank u)
    (hsolid : ∀ c ∈ u.getLast?, isBlank c = false) (hmark : ∃ c ∈ u, isWordChar c = false)
    (h : opensConstraint .postgresql u = false) : opensConstraint .postgresql (u ++ v) = false := by
  have hne : u ≠ [] := fun hnil => by
    obtain ⟨c, hc, -⟩ := hmark
    rw [hnil] at hc
    cases hc
  obtain ⟨hwords, hexclusion⟩ := (opensConstraint_eq_false_iff hopens).mp h
  refine (opensConstraint_eq_false_iff (stops_append hne hopens v)).mpr
    ⟨fun word hword => ?_, read?_exclusion_append hv hsolid hmark hexclusion⟩
  obtain ⟨hnonempty, hletters, -⟩ := constraintWords_letters word (List.mem_append_left _ hword)
  exact read?_edged_append hv hletters hnonempty (hwords word hword)

namespace ClauseLine

def head (c : ClauseLine) : Text := c.name.text ++ ' ' :: c.type.text

/-- A line that a table holds as its column: no body ends in a part of it, no table is altered there, and its
name is no word that opens a constraint. -/
structure Fits (c : ClauseLine) : Prop where
  head : Inert c.head
  clauses : ∀ d ∈ c.clauses, Inert d.text
  opensNone : opensConstraint .postgresql c.head = false

variable {c : ClauseLine}

theorem actedText_eq (c : ClauseLine) (actions : List ReferentialAction) :
    c.actedText actions = c.head ++ PostgreSQL.actedText actions c.clauses := by
  rw [actedText, head, List.append_assoc, List.cons_append]

theorem text_eq (c : ClauseLine) : c.text = c.head ++ clauseText c.clauses := by
  rw [← actedText_nil, actedText_eq, PostgreSQL.actedText_nil]

theorem Fits.silent (h : c.Fits) (hinert : ∀ {u before w}, Inert u → Detached w → p.Silent before u w)
    (hw : Detached w) : p.Silent before c.text w := by
  have hclauses : ∀ clauses : List Clause, (∀ d ∈ clauses, Inert d.text) → ∀ before,
      p.Silent before (clauseText clauses) w := by
    intro clauses hall
    induction clauses with
    | nil => exact fun _ => silent_nil w
    | cons d clauses ih =>
        obtain ⟨hd, hrest⟩ := List.forall_mem_cons.mp hall
        exact fun _ => (hinert hd (detached_clauses clauses hw)).append (ih hrest _)
  rw [text_eq]
  exact (hinert h.head (detached_clauses c.clauses hw)).append (hclauses c.clauses h.clauses _)

theorem stops_head (c : ClauseLine) : Stops isBlank c.head := by
  rw [head]
  cases c.name with
  | bare word => exact word.stops (fun _ => isBlank_eq_false_of_isWordChar) _
  | quoted => exact stops_cons.mpr (by decide)

theorem blank_mem_head (c : ClauseLine) : ' ' ∈ c.head := List.mem_append_right _ List.mem_cons_self

theorem endsSolid_head (c : ClauseLine) : EndsSolid c.head := by
  have hhead : c.head = (c.name.text ++ [' ']) ++ c.type.text := List.append_cons _ _ _
  rw [hhead]
  exact c.type.endsSolid.behind c.type.nonempty _

theorem trim_actedText (c : ClauseLine) (actions : List ReferentialAction) :
    (c.actedText actions).trim = c.actedText actions := by
  have hopens : Stops isBlank (c.actedText actions) := by
    rw [actedText_eq]
    exact stops_append (List.ne_nil_of_mem c.blank_mem_head) c.stops_head _
  have hsolid : EndsSolid (c.actedText actions) := by
    rw [actedText_eq]
    exact c.endsSolid_head.append (endsSolid_actedText c.clauses)
  exact (hsolid.trimmed hopens).trim_eq

theorem trim_eq (c : ClauseLine) : c.text.trim = c.text := c.actedText_nil ▸ c.trim_actedText []

theorem opensConstraint_actedText (c : ClauseLine) (actions : List ReferentialAction)
    (h : opensConstraint .postgresql c.head = false) : opensConstraint .postgresql (c.actedText actions) = false := by
  rw [actedText_eq]
  exact opensConstraint_append (stops_actedText c.clauses) c.stops_head (fun d hd => (c.endsSolid_head d hd).1)
    ⟨' ', c.blank_mem_head, by decide⟩ h

theorem Fits.opensConstraint_text (h : c.Fits) : opensConstraint .postgresql c.text = false :=
  c.actedText_nil ▸ c.opensConstraint_actedText [] h.opensNone

theorem isLine (c : ClauseLine) : IsLine c.text := by
  refine ⟨fun hmem => ?_, ?_⟩
  · rw [text, List.mem_append, List.mem_cons, List.mem_append] at hmem
    rcases hmem with hmem | hmem | hmem | hmem
    · exact c.oneLine hmem
    · exact absurd hmem (by decide)
    · exact c.type.oneLine hmem
    · exact not_mem_break_clauses c.clauses hmem
  · cases hname : c.name with
    | quoted text _ _ =>
        exact ⟨'"', text ++ '"' :: (' ' :: (c.type.text ++ clauseText c.clauses)),
          by simp [ClauseLine.text, hname, ColumnName.text], by decide, by decide⟩
    | bare word =>
        obtain ⟨d, rest, hd⟩ := List.exists_cons_of_ne_nil word.nonempty
        have hword : isWordChar d := word.chars d (hd ▸ List.mem_cons_self)
        exact ⟨d, rest ++ (' ' :: (c.type.text ++ clauseText c.clauses)),
          by simp [ClauseLine.text, hname, ColumnName.text, hd], isBlank_eq_false_of_isWordChar hword,
          ne_of_isWordChar (by decide) hword⟩

theorem endsSolid (c : ClauseLine) : EndsSolid c.text := by
  rw [text_eq]
  exact c.endsSolid_head.append (endsSolid_clauses c.clauses)

end ClauseLine

/-- A table with one column. -/
structure ColumnTable where
  kind : TableKind
  ifNotExists : Bool
  target : Target
  margin : Indent

namespace ColumnTable

variable (t : ColumnTable)

def body (line : Text) : Text := t.margin.text ++ (line ++ ['\n'])

def text (line : Text) : Text := creationText t.kind t.ifNotExists t.target (t.body line)

def schema (column : Column) : Schema := ⟨[⟨t.target.name.string, [column]⟩]⟩

variable {c : ClauseLine}

theorem silent_body (h : c.Fits) (hmarks : ∀ {u before w}, (∀ c ∈ u, isBlank c) → p.Silent before u w)
    (hinert : ∀ {u before w}, Inert u → Detached w → p.Silent before u w) :
    p.Silent before (t.body c.text) (')' :: w) := by
  have hend : Detached (['\n'] ++ ')' :: w) :=
    .of_blanks (by decide) (by decide) (ahead_cons (by decide) (by decide) (by decide) w)
  have hbreak : ∀ before, p.Silent before ['\n'] (')' :: w) := fun _ => hmarks (by decide)
  exact (hmarks t.margin.blank).append ((h.silent hinert hend).append (hbreak _))

theorem defines_body (h : c.Fits) (hread : c.Readable) : Defines (splitDefinitions (t.body c.text)) [c.column] := by
  have hsplit : splitDefinitions (t.body c.text) = [c.text] := by
    rw [body, splitDefinitions_lastLine t.margin.blank c.isLine fun d hd => ?_, c.trim_eq]
    obtain ⟨hblank, hcomma⟩ := c.endsSolid d hd
    refine ⟨hcomma, ?_⟩
    rintro rfl
    exact absurd hblank (by decide)
  rw [hsplit]
  refine ⟨fun f hf => List.mem_singleton.mp hf ▸ h.opensConstraint_text, ?_⟩
  rw [List.filterMap_cons, c.parseColumn?_text hread, List.filterMap_nil]

theorem allAlterations_text (h : c.Fits) : allAlterations (t.text c.text) = [] := by
  have hnone : ∀ kind : KeyKind, alterations kind.statement (t.text c.text) = [] := by
    intro kind
    have hbody : ∀ before, kind.statement.Silent before (t.body c.text) (')' :: ';' :: []) := fun _ =>
      t.silent_body h (fun hu => kind.opens_statement.silent_marks fun c hc =>
        .inl (isWordChar_eq_false_of_isBlank (hu c hc))) fun hu hw => hu.silent_statement kind.opens_statement hw
    have hsilent : kind.statement.Silent none (t.text c.text) [] :=
      kind.opens_statement.silent_creation t.kind t.ifNotExists t.target hbody
    rw [alterations_parts, found_eq_nil_of_silent hsilent]
    rfl
  rw [allAlterations, ← KeyKind.statement_primaryKey, ← KeyKind.statement_foreignKey, hnone, hnone]
  rfl

/-- The schema of a table with one column is its column. -/
theorem extract_text (h : c.Fits) (hread : c.Readable) :
    Dialect.postgresql.extract (t.text c.text) = t.schema c.column := by
  have hbody : ∀ before, bodyEnd.Silent before (t.body c.text) ([')', ';'] ++ []) := fun _ =>
    t.silent_body h (fun hu => silent_bodyEnd_of_no_paren fun hparen => absurd (hu ')' hparen) (by decide))
      fun hu hw => hu.silent_bodyEnd hw
  have htext : t.text c.text = openingText t.kind t.ifNotExists t.target ++
      (t.body c.text ++ ([')', ';'] ++ [])) := creationText_eq _ _ _ _
  have hblock : tablesIn none (t.text c.text) = [⟨t.target.name.string, [c.column]⟩] :=
    htext ▸ tablesIn_block hbody (t.defines_body h hread)
  have htables : (parse (t.text c.text)).tables = [⟨t.target.name.string, [c.column]⟩] := by
    rw [parse_tables, mapFirst_id fun table _ => Table.under_none (fun name => ?_) table]
    · exact hblock
    · rw [t.allAlterations_text h]
      rfl
  exact congrArg Schema.mk htables

end ColumnTable

end SchemaDump.PostgreSQL
