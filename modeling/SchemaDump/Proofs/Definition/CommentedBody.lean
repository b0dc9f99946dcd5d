import SchemaDump.Proofs.Definition.CommentLine
import SchemaDump.Proofs.Pattern.Seam
/- Bodies with comments in front of the first definition, between two definitions and behind the last one.
Their definitions are those of the same body without comments, and whatever pattern finds nothing in a
definition or a comment finds nothing in the body. -/
namespace SchemaDump

/-- Blanks in front of what stands on a line. -/
structure Margin where
  text : Text
  blank : ∀ c ∈ text, isBlank c

/-- A definition on a line of its own, behind comments. -/
structure Entry where
  comments : List Comment
  margin : Margin
  definition : Text

/-- A body: definitions, and comments behind the last of them. -/
structure Body where
  entries : List Entry
  comments : List Comment
  margin : Margin

def Entry.text (e : Entry) : Text :=
  Comment.lines e.comments ++ '\n' :: (e.margin.text ++ e.definition)

namespace Body

def joinEntries : List Entry → Text
  | [] => []
  | [e] => e.text
  | e :: entries => e.text ++ ',' :: joinEntries entries

def ending (b : Body) : Text := Comment.lines b.comments ++ '\n' :: b.margin.text

def text (b : Body) : Text := joinEntries b.entries ++ b.ending

def definitions (b : Body) : List Text := b.entries.map (·.definition)

def allComments (b : Body) : List Comment := b.entries.flatMap (·.comments) ++ b.comments

def withoutComments (b : Body) : Body where
  entries := b.entries.map fun e => { e with comments := [] }
  comments := []
  margin := b.margin

@[simp] theorem definitions_withoutComments (b : Body) :
    b.withoutComments.definitions = b.definitions := List.map_map

@[simp] theorem allComments_withoutComments (b : Body) : b.withoutComments.allComments = [] := by
  simp [allComments, withoutComments, List.flatMap_map]

/-- What stands behind a definition or a comment starts with a comma, or with a line break in front of
something that may be ahead. -/
inductive Continues (Ahead : Text → Prop) : Text → Prop
  | comma (v : Text) : Continues Ahead (',' :: v)
  | lineBreak {margin v : Text} (hmargin : ∀ c ∈ margin, isBlank c) (hv : Ahead v) :
      Continues Ahead ('\n' :: (margin ++ v))

variable (b : Body)

theorem exists_ending_eq : ∃ t, b.ending = '\n' :: t := by
  rw [ending]
  cases b.comments with
  | nil => exact ⟨_, rfl⟩
  | cons c comments => exact ⟨_, rfl⟩

theorem exists_joinEntries_eq (e : Entry) (entries : List Entry) :
    ∃ t, joinEntries (e :: entries) = '\n' :: t := by
  obtain ⟨t, ht⟩ : ∃ t, e.text = '\n' :: t := by
    rw [Entry.text]
    cases e.comments with
    | nil => exact ⟨_, rfl⟩
    | cons c comments => exact ⟨_, rfl⟩
  cases entries with
  | nil => exact ⟨t, ht⟩
  | cons next entries =>
      have hjoin : joinEntries (e :: next :: entries) = e.text ++ ',' :: joinEntries (next :: entries) :=
        rfl
      exact ⟨_, by rw [hjoin, ht, List.cons_append]⟩

theorem splitDefinitions_ending : splitDefinitions b.ending = [] := by
  rw [ending, Comment.splitDefinitions_lines]
  exact splitDefinitions_blanks b.margin.blank

theorem splitDefinitions_entry (e : Entry) (t : Text) :
    splitDefinitions (e.text ++ t) = splitDefinitions (e.definition ++ t) := by
  have hsplit : e.text ++ t =
      Comment.lines e.comments ++ '\n' :: (e.margin.text ++ (e.definition ++ t)) := by
    simp [Entry.text]
  rw [hsplit, Comment.splitDefinitions_lines, splitDefinitions_append_blanks e.margin.blank]

theorem splitDefinitions_entries {entries : List Entry} {t : Text}
    (h : ∀ e ∈ entries, IsLine e.definition ∧ EndsSolid e.definition) (ht : splitDefinitions t = []) :
    splitDefinitions (joinEntries entries ++ '\n' :: t) = entries.map (·.definition.trim) := by
  induction entries with
  | nil =>
      rw [joinEntries, List.nil_append, splitDefinitions_cons_blank (by decide), ht]
      rfl
  | cons e entries ih =>
      obtain ⟨hline, hsolid⟩ := h e List.mem_cons_self
      have ih := ih fun e he => h e (List.mem_cons_of_mem _ he)
      cases entries with
      | nil =>
          rw [joinEntries, splitDefinitions_entry, splitDefinitions_line_of_nil hline hsolid ht]
          rfl
      | cons next entries =>
          obtain ⟨rest, hrest⟩ := exists_joinEntries_eq next entries
          have hline : splitDefinitions e.definition = [e.definition.trim] :=
            splitDefinitions_line (fun _ hc => nomatch hc : ∀ c ∈ ([] : Text), isBlank c) hline
          rw [hrest, List.cons_append, splitDefinitions_cons_blank (by decide)] at ih
          rw [joinEntries, hrest, List.append_assoc, List.cons_append, List.cons_append,
            splitDefinitions_entry, splitDefinitions_append, hline, ih]
          · rfl
          · exact List.cons_ne_nil _ _

theorem splitDefinitions_text (h : ∀ d ∈ b.definitions, IsLine d ∧ EndsSolid d) :
    splitDefinitions b.text = b.definitions.map Text.trim := by
  obtain ⟨t, ht⟩ := b.exists_ending_eq
  have hnil := b.splitDefinitions_ending
  rw [ht, splitDefinitions_cons_blank (by decide)] at hnil
  have hentries : ∀ e ∈ b.entries, IsLine e.definition ∧ EndsSolid e.definition :=
    fun e he => h _ (List.mem_map_of_mem he)
  rw [text, ht, splitDefinitions_entries hentries hnil, definitions, List.map_map]
  rfl

open Pattern

variable {p : SqlPattern} {Ahead : Text → Prop} {before : Option Char} {v : Text}

/-- Blanks do not make readable what can be read neither at a comma nor ahead. -/
theorem Continues.rejects_gap_seq {q : SqlPattern} (hw : Continues Ahead v)
    (hstops : ∀ v, Ahead v → Stops isBlank v) (hq : q.nullable = false)
    (hblank : ∀ c, isBlank c → q.starts c = false) (hcomma : q.starts ',' = false)
    (h : ∀ v, Ahead v → q.Rejects v) : (gap ++ q).Rejects v := by
  cases hw with
  | comma v =>
      have hrejects : q.Rejects (',' :: v) := .of_starts hq (stops_cons.mpr hcomma)
      exact Rejects.gap (u := []) (by simp) (stops_cons.mpr (by decide)) hq hblank hrejects
  | lineBreak hmargin hv =>
      refine Rejects.gap (u := '\n' :: _) (fun c hc => ?_) (hstops _ hv) hq hblank (h _ hv)
      rcases List.mem_cons.mp hc with rfl | hc
      · decide
      · exact hmargin c hc

theorem Continues.confined {q : SqlPattern} {u : Text} (hw : Continues Ahead v)
    (hcomma : q.mentions ',' = false) (hfeed : q.mentions '\n' = false) : q.Confined u v := by
  cases hw with
  | comma v => exact confined_of_not_mentioned hcomma
  | lineBreak => exact confined_of_not_mentioned hfeed

/-- A mark that the next line does not start with. -/
theorem Continues.rejects_gap_mark (hw : Continues Ahead v) {mark : String} {m : Char}
    (hmark : mark.toList = [m]) (hm : isBlank m = false ∧ m ≠ ',')
    (h : ∀ v, Ahead v → Stops (fun c => isBlank c || c == m) v) : (gap ++ literal mark : SqlPattern).Rejects v := by
  have hstarts : ∀ c, (literal mark : SqlPattern).starts c = (c == m) := by
    intro c
    simp [literal, hmark]
  have hnull : (literal mark : SqlPattern).nullable = false := by simp [literal, hmark]
  refine hw.rejects_gap_seq (fun v hv c hc => (Bool.or_eq_false_iff.mp (h v hv c hc)).1) hnull
    (fun c hc => ?_) ?_ fun v hv => .of_starts hnull fun c hc => ?_
  · rw [hstarts, beq_eq_false_iff_ne]
    rintro rfl
    rw [hm.1] at hc
    cases hc
  · rw [hstarts, beq_eq_false_iff_ne]
    exact hm.2.symm
  · rw [hstarts]
    exact (Bool.or_eq_false_iff.mp (h v hv c hc)).2

theorem Continues.confined_gap_mark (hw : Continues Ahead v) {u : Text} {mark : String} {m : Char}
    (hmark : mark.toList = [m]) (hm : isBlank m = false ∧ m ≠ ',')
    (h : ∀ v, Ahead v → Stops (fun c => isBlank c || c == m) v) :
    (gap ++ literal mark : SqlPattern).Confined u v := by
  have hmentions : ∀ c, c ≠ m → (literal mark : SqlPattern).mentions c = false := by
    intro c hc
    simp [literal, hmark, spelled, append_eq_seq, mentions, hc]
  refine confined_gap_seq (hw.confined (hmentions _ hm.2.symm) (hmentions _ ?_)) (hw.rejects_gap_mark hmark hm h)
  rintro rfl
  exact absurd hm.1 (by decide)

/-- A word that the next line does not start with, in front of such a mark. -/
theorem Continues.confined_gap_word {q : SqlPattern} (hw : Continues Ahead v) {u : Text} {word : String}
    (hnull : (keyword word : SqlPattern).nullable = false) (hletters : ∀ c ∈ word.toList, c.isAlpha)
    (hstops : ∀ v, Ahead v → Stops isBlank v) (hq : q.Confined u v)
    (h : ∀ v, Ahead v → (keyword word ++ q).Rejects v) : (gap ++ (keyword word ++ q)).Confined u v := by
  have hkeyword : (keyword word : SqlPattern).Confined u v := by
    refine confined_keyword_of_stops hletters ?_
    cases hw with
    | comma v => exact stops_cons.mpr (by decide)
    | lineBreak => exact stops_cons.mpr (by decide)
  refine confined_gap_seq (hkeyword.seq hq) (hw.rejects_gap_seq hstops ?_ ?_ ?_ h)
  · rw [append_eq_seq, nullable, hnull]
    rfl
  · exact starts_keyword_seq_of_blank hnull hletters
  · rw [append_eq_seq, starts, hnull, starts_keyword_eq_false hletters (by decide)]
    rfl

theorem staysWithin_parenthesis {u : Text} : (literal ")" : SqlPattern).StaysWithin u v := by
  intro x y _ hy before r hr
  obtain ⟨-, hread, -⟩ := mem_readings_literal.mp hr
  rw [hread]
  exact List.length_pos_iff.mpr hy

theorem continues_comments {comments : List Comment} (hdash : ∀ w, Ahead ('-' :: '-' :: w))
    {margin : Margin} (hv : Ahead v) :
    Continues Ahead (Comment.lines comments ++ '\n' :: (margin.text ++ v)) := by
  cases comments with
  | nil => exact .lineBreak margin.blank hv
  | cons c comments =>
      have hsplit : Comment.lines (c :: comments) ++ '\n' :: (margin.text ++ v) = '\n' :: (c.indent ++
          '-' :: '-' :: (c.text ++ (Comment.lines comments ++ '\n' :: (margin.text ++ v)))) := by
        simp [Comment.lines, Comment.lineText]
      rw [hsplit]
      exact .lineBreak (fun d hd => (c.blank d hd).1) (hdash _)

theorem silent_comments
    (hmarks : ∀ {u before w}, (∀ c ∈ u, isBlank c ∨ c = ',' ∨ c = '-') → p.Silent before u w)
    (hdash : ∀ w, Ahead ('-' :: '-' :: w)) {comments : List Comment}
    (hcomment : ∀ c ∈ comments, ∀ before w, Continues Ahead w → p.Silent before c.text w)
    {margin : Margin} (hv : Ahead v) :
    p.Silent before (Comment.lines comments ++ '\n' :: margin.text) v := by
  induction comments generalizing before with
  | nil =>
      refine hmarks fun c hc => .inl ?_
      rcases List.mem_cons.mp hc with rfl | hc
      · decide
      · exact margin.blank c hc
  | cons c comments ih =>
      have hrest := fun before => @ih before fun d hd => hcomment d (List.mem_cons_of_mem c hd)
      have hcontinues : Continues Ahead (Comment.lines comments ++ '\n' :: (margin.text ++ v)) :=
        continues_comments hdash hv
      have hfront : ∀ d ∈ '\n' :: (c.indent ++ ['-', '-']), isBlank d ∨ d = ',' ∨ d = '-' := by
        intro d hd
        rcases List.mem_cons.mp hd with rfl | hd
        · exact .inl (by decide)
        · rcases List.mem_append.mp hd with hd | hd
          · exact .inl (c.blank d hd).1
          · exact .inr (.inr (by simpa using hd))
      have htext := hcomment c List.mem_cons_self
      have hsplit : Comment.lines (c :: comments) ++ '\n' :: margin.text =
          ('\n' :: (c.indent ++ ['-', '-'])) ++ (c.text ++ (Comment.lines comments ++ '\n' :: margin.text)) := by
        simp [Comment.lines, Comment.lineText]
      rw [hsplit]
      refine (hmarks hfront).append ((htext _ _ ?_).append (hrest _))
      simpa using hcontinues

/-- What a pattern does not find in the definitions and the comments of a body it does not find in the
body. -/
theorem silent_text
    (hmarks : ∀ {u before w}, (∀ c ∈ u, isBlank c ∨ c = ',' ∨ c = '-') → p.Silent before u w)
    (hdash : ∀ w, Ahead ('-' :: '-' :: w))
    (hahead : ∀ d ∈ b.definitions, ∀ w, Continues Ahead w → Ahead (d ++ w))
    (hdefinition : ∀ d ∈ b.definitions, ∀ before w, Continues Ahead w → p.Silent before d w)
    (hcomment : ∀ c ∈ b.allComments, ∀ before w, Continues Ahead w → p.Silent before c.text w)
    (hv : Ahead v) : p.Silent before b.text v := by
  have hentry : ∀ e ∈ b.entries, ∀ before w, Continues Ahead w → p.Silent before e.text w := by
    intro e he before w hw
    have hmem : e.definition ∈ b.definitions := List.mem_map_of_mem he
    have hfront : p.Silent before (Comment.lines e.comments ++ '\n' :: e.margin.text) (e.definition ++ w) :=
      silent_comments hmarks hdash (fun c hc => hcomment c (List.mem_append_left _
        (List.mem_flatMap.mpr ⟨e, he, hc⟩))) (hahead _ hmem w hw)
    have hsplit : e.text = (Comment.lines e.comments ++ '\n' :: e.margin.text) ++ e.definition := by
      simp [Entry.text]
    rw [hsplit]
    exact hfront.append (hdefinition _ hmem _ w hw)
  have hentries : ∀ entries : List Entry, (∀ e ∈ entries, e ∈ b.entries) → ∀ before w,
      Continues Ahead w → p.Silent before (joinEntries entries) w := by
    intro entries hsub
    induction entries with
    | nil => exact fun _ w _ => silent_nil w
    | cons e entries ih =>
        intro before w hw
        have hfirst := hentry e (hsub e List.mem_cons_self)
        cases entries with
        | nil => exact hfirst before w hw
        | cons next entries =>
            have hrest := ih fun e he => hsub e (List.mem_cons_of_mem _ he)
            have hcomma : ∀ before w, p.Silent before [','] w := fun before w => hmarks (by decide)
            exact (hfirst _ _ (.comma _)).append ((hcomma _ _).append (hrest _ w hw))
  have hend : Continues Ahead (b.ending ++ v) := by
    have h : Continues Ahead (Comment.lines b.comments ++ '\n' :: (b.margin.text ++ v)) :=
      continues_comments hdash hv
    simpa [ending] using h
  exact (hentries b.entries (fun _ he => he) _ _ hend).append (silent_comments hmarks hdash
    (fun c hc => hcomment c (List.mem_append_right _ hc)) hv)

/-- A character that neither a definition nor a comment holds, and that stands between none of them. -/
theorem not_mem_text {c : Char} (hc : isBlank c = false ∧ c ≠ ',' ∧ c ≠ '-')
    (hdefinition : ∀ d ∈ b.definitions, c ∉ d) (hcomment : ∀ k ∈ b.allComments, c ∉ k.text) : c ∉ b.text := by
  have hsilent : ∀ {u : Text} {before v}, c ∉ u → (one (· == c) : SqlPattern).Silent before u v :=
    fun hu => silent_of_starts rfl fun d hd => beq_eq_false_iff_ne.mpr fun h => hu (h ▸ hd)
  have hbody : (one (· == c) : SqlPattern).Silent none b.text [] := by
    refine @silent_text b _ (fun _ => True) none [] (fun hu => hsilent fun hmem => ?_) (fun _ => trivial)
      (fun _ _ _ _ => trivial) (fun d hd _ _ _ => hsilent (hdefinition d hd))
      (fun k hk _ _ _ => hsilent (hcomment k hk)) trivial
    rcases hu c hmem with h | h | h
    · rw [hc.1] at h
      cases h
    · exact hc.2.1 h
    · exact hc.2.2 h
  intro hmem
  obtain ⟨x, y, hxy⟩ := List.append_of_mem hmem
  have hnone := silent_iff.mp hbody x (c :: y) hxy (List.cons_ne_nil _ _)
  rw [List.append_nil, read?_one (by simp)] at hnone
  cases hnone

end Body

end SchemaDump
