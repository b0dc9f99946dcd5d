import SchemaDump.Proofs.Pattern.Parts
import SchemaDump.Proofs.PostgreSQL.BodyEnd
import SchemaDump.Proofs.PostgreSQL.SpelledWord
import SchemaDump.Proofs.PostgreSQL.Spelling
/- Reading a statement that creates a table: the block takes the name of the table and the body and stops
behind the semicolon. The table is read as it is written, with keywords in any letter case and any blanks
between the words, even if it is called like one of them. -/
namespace SchemaDump.PostgreSQL
open SqlPattern Pattern

variable {before : Option Char} {p q : SqlPattern} {u v : Text} {ps : List (Part × Text)}

/-- What may be said about a table that is created. -/
inductive KindText
  | permanent
  | unlogged (word : SpacedWord "UNLOGGED")
  | temporary (word : SpacedWord "TEMPORARY")
  | temp (word : SpacedWord "TEMP")

def KindText.text : KindText → Text
  | permanent => []
  | unlogged word => word.text
  | temporary word => word.text
  | temp word => word.text

/-- A block up to its body. -/
structure CreationHead where
  create : SpacedWord "CREATE"
  kind : KindText
  table : SpacedWord "TABLE"
  guard : Option (SpacedWord "IF" × SpacedWord "NOT" × SpacedWord "EXISTS")
  name : Spelling
  space : Indent

def creationOpening : SqlPattern :=
  keyword "CREATE" ++ blanks ++ maybe tableKind ++ keyword "TABLE" ++ blanks ++
    maybe (phrase ["IF", "NOT", "EXISTS"] ++ blanks) ++ part .name qualified ++ gap ++ literal "("

theorem read?_tableBlock_opening (before : Option Char) (t : Text) : tableBlock.read? before t =
    (creationOpening ++ (part Part.body (run (fun _ => true) .shortest) ++ bodyEnd)).read? before t := by
  rw [tableBlock, read?_seq_assoc, read?_seq_assoc, read?_seq_assoc, read?_seq_assoc]
  rfl

/-- A kind of tables is read in front of the word for a table. -/
theorem KindText.reads_seq (k : KindText) (table : SpacedWord "TABLE") (h : q.Reads (table.text ++ u) v ps) :
    (maybe tableKind ++ q).Reads (k.text ++ (table.text ++ u)) v ps := by
  have hstops : Stops isBlank ((table.text ++ u) ++ v) := by
    rw [List.append_assoc]
    exact table.stops_blank rfl (by decide) _
  cases k with
  | permanent =>
      refine Reads.skipped ?_ h
      rw [tableKind, rejects_assoc]
      refine Rejects.anyOf_seq fun p hp => ?_
      simp only [List.mem_cons, List.not_mem_nil, or_false] at hp
      rw [KindText.text, List.nil_append, List.append_assoc]
      rcases hp with rfl | rfl | rfl <;>
        exact table.rejects_other (by decide) (by decide) (by decide) (by decide) _ _
  | unlogged word =>
      apply Reads.maybe_seq
      rw [tableKind, reads_assoc]
      exact Reads.preferred_seq _ (word.reads_seq hstops h)
  | temporary word =>
      apply Reads.maybe_seq
      rw [tableKind, reads_assoc]
      refine Reads.other_seq ?_ (Reads.preferred_seq _ (word.reads_seq hstops h))
      rw [KindText.text, List.append_assoc]
      exact word.rejects_other (by decide) (by decide) (by decide) (by decide) _ _
  | temp word =>
      apply Reads.maybe_seq
      rw [tableKind, reads_assoc]
      refine Reads.other_seq ?_ (Reads.other_seq ?_ (word.reads_seq hstops h)) <;>
        rw [KindText.text, List.append_assoc]
      · exact word.rejects_other (by decide) (by decide) (by decide) (by decide) _ _
      · exact word.rejects_other (by decide) (by decide) (by decide) (by decide) _ _

theorem reads_bodyEnd (v : Text) : bodyEnd.Reads [')', ';'] v [] := by
  have hparents : (maybe parents).Reads [] ([';'] ++ v) [] :=
    reads_missing (.of_starts (by decide) (stops_cons.mpr (by decide)))
  have hgap : (gap : SqlPattern).Reads [] ([';'] ++ v) [] := reads_no_gap (stops_cons.mpr (by decide))
  exact (reads_literal ")" _).seq (hparents.seq (hgap.seq (reads_literal ";" v)))

namespace CreationHead

variable (c : CreationHead)

def guardText : Option (SpacedWord "IF" × SpacedWord "NOT" × SpacedWord "EXISTS") → Text
  | none => []
  | some (first, second, third) => first.text ++ (second.text ++ third.text)

def text : Text :=
  c.create.text ++ (c.kind.text ++ (c.table.text ++ (guardText c.guard ++ (c.name.text ++ (c.space.text ++ ['('])))))

theorem text_eq : c.text = (c.create.text ++ (c.kind.text ++ (c.table.text ++ (guardText c.guard ++ (c.name.text ++
    c.space.text))))) ++ ['('] := by
  simp only [text, List.append_assoc]

theorem stops_space {accepts : Char → Bool} (hblank : ∀ d, isBlank d → accepts d = false)
    (hopen : accepts '(' = false) (v : Text) : Stops accepts (c.space.text ++ '(' :: v) := by
  cases hspace : c.space.text with
  | nil => exact stops_cons.mpr hopen
  | cons d rest => exact stops_cons.mpr (hblank d (c.space.blank d (hspace ▸ List.mem_cons_self)))

/-- The name of the table, which may be one of the words in front of it. -/
theorem reads_name (v : Text) : (maybe (phrase ["IF", "NOT", "EXISTS"] ++ blanks) ++
    (part .name qualified ++ (gap ++ literal "(")) : SqlPattern).Reads
      (guardText c.guard ++ (c.name.text ++ (c.space.text ++ ['(']))) v [(.name, c.name.text)] := by
  have hopen := (c.space.reads (v := ['('] ++ v) (stops_cons.mpr (by decide))).seq (reads_literal "(" v)
  have hname : qualified.Reads c.name.text ((c.space.text ++ ['(']) ++ v) [] := by
    rw [List.append_assoc]
    refine c.name.isQualified _ (c.stops_space (fun _ => isBareChar_eq_false_of_isBlank) (by decide) _)
      (c.stops_space (fun d hd => beq_eq_false_iff_ne.mpr ?_) (by decide) _)
    rintro rfl
    exact absurd hd (by decide)
  have hall := (hname.part Part.name).seq hopen
  have hphrase : (phrase ["IF", "NOT", "EXISTS"] : SqlPattern) =
      keyword "IF" ++ blanks ++ (keyword "NOT" ++ blanks ++ keyword "EXISTS") := rfl
  cases c.guard with
  | none =>
      refine Reads.skipped ?_ hall
      simp only [hphrase, rejects_assoc]
      rw [guardText, List.nil_append, List.append_assoc, List.append_assoc]
      have hnot : (keyword "NOT" : SqlPattern).Rejects ('(' :: v) := .keyword rfl (stops_cons.mpr (by decide))
      refine c.name.rejects_keyword (by decide) (by decide)
        (c.stops_space (fun _ => isWordChar_eq_false_of_isBlank) (by decide) v) ?_
      exact rejects_blanks_run c.space.blank (stops_cons.mpr (by decide))
        (fun d hd t => ((rejects_keyword_blank (by decide) rfl d hd t).seq _).seq _)
        (((hnot.seq _).seq _).seq _)
  | some g =>
      obtain ⟨first, second, third⟩ := g
      have hnameStops : Stops isBlank ((c.name.text ++ (c.space.text ++ ['('])) ++ v) := by
        rw [List.append_assoc]
        exact c.name.isQualified.stops _
      have hsecond : ∀ w, Stops isBlank ((second.text ++ w) ++ v) := fun w => by
        rw [List.append_assoc]
        exact second.stops_blank rfl (by decide) _
      have hthird : ∀ w, Stops isBlank ((third.text ++ w) ++ v) := fun w => by
        rw [List.append_assoc]
        exact third.stops_blank rfl (by decide) _
      have hexists : (phrase ["EXISTS"] ++ (blanks ++ (part .name qualified ++ (gap ++ literal "("))) :
          SqlPattern).Reads (third.text ++ (c.name.text ++ (c.space.text ++ ['(']))) v [(.name, c.name.text)] :=
        third.reads_seq hnameStops hall
      have hguard := first.reads_phrase (hsecond _) (second.reads_phrase (hthird _) hexists)
      apply Reads.maybe_seq
      rw [reads_assoc, guardText, List.append_assoc, List.append_assoc]
      exact hguard

theorem reads (v : Text) : creationOpening.Reads c.text v [(.name, c.name.text)] := by
  have hname := c.reads_name v
  have hstops : Stops isBlank ((guardText c.guard ++ (c.name.text ++ (c.space.text ++ ['(']))) ++ v) := by
    rw [List.append_assoc, List.append_assoc]
    cases c.guard with
    | none => exact c.name.isQualified.stops _
    | some g =>
        rw [guardText, List.append_assoc]
        exact g.1.stops_blank rfl (by decide) _
  have hkind := c.kind.reads_seq c.table (c.table.reads_seq hstops hname)
  have hfirst : Stops isBlank ((c.kind.text ++ (c.table.text ++ (guardText c.guard ++
      (c.name.text ++ (c.space.text ++ ['(']))))) ++ v) := by
    rw [List.append_assoc]
    cases c.kind with
    | permanent =>
        rw [KindText.text, List.nil_append, List.append_assoc]
        exact c.table.stops_blank rfl (by decide) _
    | unlogged word => exact word.stops_blank rfl (by decide) _
    | temporary word => exact word.stops_blank rfl (by decide) _
    | temp word => exact word.stops_blank rfl (by decide) _
  have hall := c.create.reads_seq hfirst hkind
  simp only [creationOpening, reads_assoc]
  exact hall

/-- A block that is closed somewhere is read with the name of its table as it is written. -/
theorem part_name {r : Match Part} (hr : tableBlock.read? before (c.text ++ v) = some r) (hv : bodyEnd.occursIn v) :
    r.part .name = c.name.text := by
  have hclosed : (part Part.body (run (fun _ => true) .shortest) ++ bodyEnd : SqlPattern).read?
      (lastOf before c.text) v ≠ none := by
    obtain ⟨x, y, rfl, hy⟩ := occursIn_iff.mp hv
    have hbody : (⟨x, [(.body, x)], y⟩ : Match Part) ∈
        (part Part.body (run (fun _ => true) .shortest)).readings (lastOf before c.text) (x ++ y) :=
      List.mem_map.mpr ⟨⟨x, [], y⟩, mem_readings_run.mpr ⟨rfl, rfl, fun _ _ => rfl⟩, rfl⟩
    have hplain : bodyEnd.plain := rfl
    have hread := read?_before hplain (lastOf none x) (lastOf (lastOf before c.text) x) y
    intro hnone
    have hend := read?_seq_eq_none.mp hnone _ hbody
    exact hy (hread.trans hend)
  obtain ⟨s, hs⟩ := Option.ne_none_iff_exists'.mp hclosed
  have hwhole := read?_seq (c.reads v before) hs
  rw [← read?_tableBlock_opening] at hwhole
  obtain rfl := Option.some.inj (hr.symm.trans hwhole)
  rw [Match.part, part?_andThen_of_not_mem (by decide) (mem_of_read? hs)]
  rfl

theorem reads_block {body : Text} (hbody : ∀ before, bodyEnd.Silent before body ([')', ';'] ++ v)) :
    tableBlock.Reads (c.text ++ (body ++ [')', ';'])) v [(.body, body), (.name, c.name.text)] := by
  intro before
  have hread : (part Part.body (run (fun _ => true) .shortest) ++ bodyEnd).Reads (body ++ [')', ';']) v
      [(.body, body)] := reads_part_shortest_run (fun _ _ => rfl) hbody (reads_bodyEnd v)
  rw [read?_tableBlock_opening]
  exact (c.reads _).seq hread before

end CreationHead

def TableKind.spelled : TableKind → KindText
  | permanent => .permanent
  | unlogged => .unlogged (.plain _)
  | temporary => .temporary (.plain _)
  | temp => .temp (.plain _)

/-- A statement up to its body, as one of those that may be spelled in any way. -/
def creationHead (kind : TableKind) (ifNotExists : Bool) (target : Target) : CreationHead where
  create := .plain _
  kind := kind.spelled
  table := .plain _
  guard := if ifNotExists then some (.plain _, .plain _, .plain _) else none
  name := target.spelling
  space := .single

def openingText (kind : TableKind) (ifNotExists : Bool) (target : Target) : Text :=
  "CREATE".toList ++ ([' '] ++ (kind.text ++ ("TABLE".toList ++ ([' '] ++
    (TableStatement.existsText ifNotExists ++ (target.text ++ [' ', '(']))))))

def creationText (kind : TableKind) (ifNotExists : Bool) (target : Target) (body : Text) : Text :=
  "CREATE".toList ++ ([' '] ++ (kind.text ++ ("TABLE".toList ++ ([' '] ++
    (TableStatement.existsText ifNotExists ++ (target.text ++ ' ' :: '(' :: (body ++ [')', ';'])))))))

theorem openingText_append (kind : TableKind) (ifNotExists : Bool) (target : Target) (v : Text) :
    openingText kind ifNotExists target ++ v =
      "CREATE".toList ++ ([' '] ++ (kind.text ++ ("TABLE".toList ++ ([' '] ++
        (TableStatement.existsText ifNotExists ++ (target.text ++ ' ' :: '(' :: v)))))) := by
  have hopening : openingText kind ifNotExists target = "CREATE".toList ++ ([' '] ++ (kind.text ++
      ("TABLE".toList ++ ([' '] ++ (TableStatement.existsText ifNotExists ++ (target.text ++ [' ', '('])))))) := rfl
  simp only [hopening, List.append_assoc, List.cons_append, List.nil_append]

theorem creationText_eq (kind : TableKind) (ifNotExists : Bool) (target : Target) (body : Text) :
    creationText kind ifNotExists target body =
      openingText kind ifNotExists target ++ (body ++ [')', ';']) := by
  rw [openingText_append]
  rfl

theorem TableStatement.text_eq (t : TableStatement) :
    t.text = creationText t.kind t.ifNotExists t.target t.body := by
  have hopening : t.opening = "CREATE".toList ++ ' ' :: (t.kind.text ++
      ("TABLE".toList ++ ' ' :: existsText t.ifNotExists)) := rfl
  rw [creationText_eq, openingText_append]
  simp only [text, hopening, List.append_assoc, List.cons_append, List.nil_append]

theorem text_creationHead (kind : TableKind) (ifNotExists : Bool) (target : Target) :
    (creationHead kind ifNotExists target).text = openingText kind ifNotExists target := by
  have hkind : kind.spelled.text = kind.text := by cases kind <;> rfl
  have hguard : CreationHead.guardText (creationHead kind ifNotExists target).guard =
      TableStatement.existsText ifNotExists := by
    rw [creationHead]
    cases ifNotExists <;> rfl
  rw [CreationHead.text, hguard, openingText]
  simp only [creationHead, hkind, target.text_spelling, SpacedWord.text, SpacedWord.plain, KeywordText.plain,
    Spacing.single, Indent.single, List.append_assoc, List.cons_append, List.nil_append]

theorem reads_creation (kind : TableKind) (ifNotExists : Bool) (target : Target) {body : Text}
    (hbody : ∀ before, bodyEnd.Silent before body ([')', ';'] ++ v)) :
    tableBlock.Reads (creationText kind ifNotExists target body) v
      [(Part.body, body), (Part.name, target.text)] := by
  rw [creationText_eq, ← text_creationHead, ← target.text_spelling]
  exact (creationHead kind ifNotExists target).reads_block hbody

end SchemaDump.PostgreSQL
