import SchemaDump.Proofs.PostgreSQL.Clause
/- Marks among clauses. A search for the marks of one kind passes over the type of a column, over its value and
over the clauses of other kinds, and reads a mark where it stands. -/
namespace SchemaDump.PostgreSQL
open SqlPattern Pattern

variable {before : Option Char} {p : SqlPattern} {words : List String} {Ends : Text → Prop} {t u v w : Text}
  {n : Nesting} {k : MarkKind}

theorem Content.enclosed (content : Content) : Enclosed content.quoted := .literal fun c hc => (content.chars c hc).1

theorem Expression.enclosed (e : Expression) : Enclosed e.text := by
  induction e with
  | done => exact .of_plain fun _ hc => nomatch hc
  | plain text chars rest ih =>
      have htext : Flat text := fun c hc => ⟨(chars c hc).1, (chars c hc).2.1, (chars c hc).2.2.1⟩
      exact (Enclosed.of_plain htext).append ih
  | literal content rest ih => exact content.enclosed.append ih
  | group inner rest hinner hrest =>
      have h := hinner.group.append hrest
      simpa [Expression.text] using h

namespace QuotedText

/-- Outside the quotes of a literal stands another quote. -/
theorem exists_cons_of_outermost (first : Content) (more : List Content) {x y : Text}
    (hxy : first.text ++ '\'' :: more.flatMap (·.quoted) = x ++ y) (hy : y ≠ [])
    (hn : x.foldl Nesting.next ⟨true, 0⟩ = .outermost) : ∃ z, y = '\'' :: z := by
  induction more generalizing first x with
  | nil =>
      rcases exists_append_of_length hxy with ⟨z, rfl, hz⟩ | ⟨c, z, htext, -⟩
      · cases z with
        | nil => exact ⟨_, hz.symm⟩
        | cons d z => exact absurd (List.append_eq_nil_iff.mp (List.cons.inj hz).2.symm).2 hy
      · rw [foldl_next_inLiteral fun d hd => (first.chars d (htext ▸ List.mem_append_left _ hd)).1] at hn
        cases hn
  | cons content more ih =>
      rcases exists_append_of_length hxy with ⟨z, rfl, hz⟩ | ⟨c, z, htext, -⟩
      · rw [List.foldl_append, foldl_next_inLiteral fun d hd => (first.chars d hd).1] at hn
        match z with
        | [] => exact ⟨_, hz.symm⟩
        | [d] => exact ⟨_, (List.cons.inj hz).2.symm⟩
        | d :: e :: z =>
            obtain ⟨rfl, hquoted⟩ := List.cons.inj hz
            obtain ⟨rfl, hrest⟩ := List.cons.inj (show '\'' :: ((content.text ++ ['\'']) ++ more.flatMap (·.quoted)) =
              e :: (z ++ y) from hquoted)
            rw [List.append_assoc] at hrest
            exact ih content hrest hn
      · rw [foldl_next_inLiteral fun d hd => (first.chars d (htext ▸ List.mem_append_left _ hd)).1] at hn
        cases hn

theorem foldl_next_rest (q : QuotedText) : q.rest.foldl Nesting.next ⟨true, 0⟩ = .outermost := by
  rw [rest, List.foldl_append, foldl_next_inLiteral fun c hc => (q.first.chars c hc).1]
  exact balanced_flatMap fun content _ => content.enclosed.level 0

theorem balanced (q : QuotedText) : Balanced q.text := q.foldl_next_rest

end QuotedText

theorem passes_literal (hp : p.Consumes) (hopens : OpensWith words Ends p) (hwords : Lettered words)
    (q : QuotedText) (h : p.ReadsWithin before q.rest v) : p.Passes v ⟨true, 0⟩ before q.rest := by
  refine passes_of_readsWithin hp h fun x y hxy hy hn => ?_
  obtain ⟨z, rfl⟩ := QuotedText.exists_cons_of_outermost q.first q.more hxy hy hn
  exact hopens.rejects_cons hwords (by decide) (.inl (by decide)) (z ++ v) _

namespace Clause

theorem text_notNull : notNull.text = Mark.notNull.text := List.append_nil _

theorem text_primaryKey : primaryKey.text = Mark.primaryKey.text := List.append_nil _

theorem text_references (r : DeclaredReference) : (references r).text = r.text := List.append_nil _

theorem text_check (e : Expression) :
    (check e).text = (' ' :: ("CHECK".toList ++ [' ', '('])) ++ (e.text ++ [')']) :=
  congrArg (_ ++ ·) (List.append_nil _)

/-- The word that a clause opens with. -/
def word : Clause → String
  | notNull => "NOT"
  | primaryKey => "PRIMARY"
  | references _ => "REFERENCES"
  | check _ => "CHECK"
  | default _ => "DEFAULT"

theorem word_mem (c : Clause) : c.word ∈ ["NOT", "PRIMARY", "REFERENCES", "CHECK", "DEFAULT"] := by
  cases c <;> simp [word]

theorem exists_text_eq (c : Clause) : ∃ w, c.text = ' ' :: (c.word.toList ++ ' ' :: w) := by
  cases c with
  | notNull => exact ⟨"NULL".toList, rfl⟩
  | primaryKey => exact ⟨"KEY".toList, rfl⟩
  | references r =>
      refine ⟨r.target.text ++ ('(' :: (r.list ++ ')' :: r.actions.flatMap KeyAction.text)), ?_⟩
      simp [text_references, DeclaredReference.text, DeclaredReference.front, word]
  | check e => exact ⟨'(' :: (e.text ++ [')']), by simp [text_check, word]⟩
  | default v => exact ⟨v.text, by simp [Clause.text, head, opaqueText, tail, Value.text, word]⟩

theorem balanced (c : Clause) (href : c.kind ≠ .mark .reference) (hdefault : c.kind ≠ .default) :
    Balanced c.text := by
  cases c with
  | notNull => rfl
  | primaryKey => rfl
  | references => exact absurd rfl href
  | default => exact absurd rfl hdefault
  | check e =>
      rw [text_check, Balanced, Nesting.after, List.foldl_append, List.foldl_append]
      exact congrArg (fun n => List.foldl Nesting.next n [')']) (e.enclosed.level 1)

end Clause

theorem clauseText_append (front back : List Clause) :
    clauseText (front ++ back) = clauseText front ++ clauseText back := List.flatMap_append

theorem clauseText_cons (c : Clause) (clauses : List Clause) :
    clauseText (c :: clauses) = c.text ++ clauseText clauses := List.flatMap_cons

theorem stops_clauseText (clauses : List Clause) : Stops isWordChar (clauseText clauses) := by
  cases clauses with
  | nil => exact stops_nil _
  | cons c clauses =>
      obtain ⟨w, hw⟩ := c.exists_text_eq
      rw [clauseText_cons, hw]
      exact stops_cons.mpr (by decide)

theorem stops_clauseText_append (clauses : List Clause) (hv : Stops isWordChar v) :
    Stops isWordChar (clauseText clauses ++ v) := by
  cases clauses with
  | nil => exact hv
  | cons c clauses =>
      obtain ⟨w, hw⟩ := c.exists_text_eq
      rw [clauseText_cons, hw]
      exact stops_cons.mpr (by decide)

theorem Settled.sublist {some all : List Clause} (h : Settled all) (hsub : some.Sublist all) : Settled some := by
  induction hsub with
  | slnil => trivial
  | cons _ _ ih => exact ih h.2
  | cons_cons c hsub ih =>
      exact ⟨fun rest hrest => h.1 rest (List.mem_sublists.mpr ((List.mem_sublists.mp hrest).trans hsub)), ih h.2⟩

theorem passes_check (hp : p.Consumes) (hopens : OpensWith words Ends p) (hwords : Lettered words)
    (hno : ∀ word ∈ words, spells sameLetter word.toList "CHECK".toList = false) (e : Expression)
    (h : p.ReadsWithin (some '(') (e.text ++ [')']) v) :
    p.Passes v .outermost before (Clause.check e).text := by
  have hword : ∀ w, p.Silent before (' ' :: "CHECK".toList) (' ' :: w) := fun w =>
    hopens.silent_blank_word (by decide) (by decide) (stops_cons.mpr (by decide)) (.inl hno)
  have hblank : p.read? (some 'K') (' ' :: '(' :: ((e.text ++ [')']) ++ v)) = none :=
    hopens.read?_eq_none fun hahead =>
      not_wordAhead_cons hwords (by decide) (.inl (by decide)) ((wordAhead_blank (by decide)).mp hahead)
  have hopen : p.Silent (some 'K') [' ', '('] ((e.text ++ [')']) ++ v) :=
    silent_cons.mpr ⟨hblank, silent_cons.mpr
      ⟨hopens.rejects_cons hwords (by decide) (.inl (by decide)) _ _, silent_nil _⟩⟩
  have hhead : p.Silent before ((' ' :: "CHECK".toList) ++ [' ', '(']) ((e.text ++ [')']) ++ v) :=
    (hword _).append hopen
  rw [Clause.text_check]
  exact (passes_of_silent hhead).append (passes_enclosed hp e.enclosed h)

/-- A search for the marks of one kind passes over a check and over a mark of another kind. -/
theorem passes_clause (c : Clause) (hk : c.kind ≠ .mark k) (href : c.kind ≠ .mark .reference)
    (hdefault : c.kind ≠ .default)
    (h : k.marker.ReadsWithin (lastOf none c.head) c.opaqueText (c.tail ++ v)) (hv : Stops isWordChar v) :
    k.marker.Passes v .outermost before c.text := by
  cases c with
  | notNull =>
      rw [Clause.text_notNull]
      exact passes_of_silent (silent_marker_mark (fun heq => hk (congrArg ClauseKind.mark heq)) hv)
  | primaryKey =>
      rw [Clause.text_primaryKey]
      exact passes_of_silent (silent_marker_mark (fun heq => hk (congrArg ClauseKind.mark heq)) hv)
  | references => exact absurd rfl href
  | default => exact absurd rfl hdefault
  | check e => exact passes_check k.consumes_marker (opensWith_marker k) (lettered_words k) (by cases k <;> decide) e h

theorem Settled.within {front back : List Clause} {c : Clause} (h : Settled (front ++ c :: back)) (k : MarkKind) :
    k.marker.ReadsWithin (lastOf none c.head) c.opaqueText (c.tail ++ clauseText back) := by
  induction front with
  | nil => exact h.1 back (List.mem_sublists.mpr (List.Sublist.refl _)) k
  | cons d front ih => exact ih h.2

/-- In front of any text a search passes over clauses as soon as it stays in what they may say. -/
theorem passes_front {front : List Clause} (hk : ∀ c ∈ front, c.kind ≠ .mark k)
    (href : ∀ c ∈ front, c.kind ≠ .mark .reference) (hdefault : ∀ c ∈ front, c.kind ≠ .default)
    (h : ∀ above c below, front = above ++ c :: below →
      k.marker.ReadsWithin (lastOf none c.head) c.opaqueText (c.tail ++ (clauseText below ++ v)))
    (hv : Stops isWordChar v) : k.marker.Passes v .outermost before (clauseText front) := by
  induction front generalizing before with
  | nil => exact .done
  | cons c front ih =>
      obtain ⟨hk, hks⟩ := List.forall_mem_cons.mp hk
      obtain ⟨href, hrefs⟩ := List.forall_mem_cons.mp href
      obtain ⟨hdefault, hdefaults⟩ := List.forall_mem_cons.mp hdefault
      have hstops : Stops isWordChar (clauseText front ++ v) := stops_clauseText_append front hv
      have hc : k.marker.Passes (clauseText front ++ v) .outermost before c.text :=
        passes_clause c hk href hdefault (h [] c front rfl) hstops
      refine hc.append ?_
      rw [show c.text.foldl Nesting.next .outermost = .outermost from c.balanced href hdefault]
      exact ih hks hrefs hdefaults fun above d below hsplit => h (c :: above) d below (congrArg (c :: ·) hsplit)

theorem passes_clauses {front back : List Clause} (hk : ∀ c ∈ front, c.kind ≠ .mark k)
    (href : ∀ c ∈ front, c.kind ≠ .mark .reference) (hdefault : ∀ c ∈ front, c.kind ≠ .default)
    (h : Settled (front ++ back)) : k.marker.Passes (clauseText back) .outermost before (clauseText front) := by
  refine passes_front hk href hdefault (fun above c below hsplit => ?_) (stops_clauseText back)
  rw [hsplit, List.append_assoc] at h
  have hwithin := Settled.within h k
  rwa [List.append_eq, clauseText_append] at hwithin

theorem passes_nullMarker {front back : List Clause} (hfront : ∀ c ∈ front, c.kind = .check) :
    nullMarker.Passes (clauseText back) .outermost before (clauseText front) := by
  induction front generalizing before with
  | nil => exact .done
  | cons c front ih =>
      obtain ⟨hc, hchecks⟩ := List.forall_mem_cons.mp hfront
      cases c with
      | check e =>
          have hbalanced : Balanced (Clause.check e).text := Clause.balanced _ (fun h => nomatch h) fun h => nomatch h
          have hcheck : nullMarker.Passes (clauseText front ++ clauseText back) .outermost before (Clause.check e).text :=
            passes_check (consumes_of_not_nullable rfl) opensWith_nullMarker (by decide) (by decide) e
              (readsWithin_of_not_mentioned rfl)
          refine hcheck.append ?_
          rw [show (Clause.check e).text.foldl Nesting.next .outermost = .outermost from hbalanced]
          exact ih hchecks
      | notNull => cases hc
      | primaryKey => cases hc
      | references => cases hc
      | default => cases hc

def Clause.parts : Clause → List (Part × Text)
  | references r => [(.columns, r.list), (.table, r.target.text)]
  | _ => []

/-- The action as both dialects know it. -/
def KeyAction.action (a : KeyAction) : ReferentialAction where
  event := match a.event with
    | .delete => .delete
    | .update => .update
  outcome := match a.outcome with
    | .cascade => .cascade
    | .restrict => .restrict
    | .noAction => .noAction
    | .setNull => .setNull

theorem KeyAction.text_action (a : KeyAction) : a.action.text = a.text := by
  obtain ⟨event, outcome⟩ := a
  cases event <;> cases outcome <;> rfl

theorem actionText_actions (actions : List KeyAction) :
    actionText (actions.map (·.action)) = actions.flatMap (·.text) := by
  rw [actionText, List.flatMap_map]
  simp only [KeyAction.text_action]

/-- What may be said behind a reference is not said by another clause. -/
theorem rejects_clauseText {word : String} (h : ∀ next ∈ ["NOT", "PRIMARY", "REFERENCES", "CHECK", "DEFAULT"],
    clashes word.toList next.toList) (q : SqlPattern) (clauses : List Clause) :
    (blanks ++ (keyword word ++ q)).Rejects (clauseText clauses) := by
  cases clauses with
  | nil => exact rejects_blanks (stops_nil _)
  | cons c clauses =>
      obtain ⟨w, hw⟩ := c.exists_text_eq
      have hsolid : ∀ next ∈ ["NOT", "PRIMARY", "REFERENCES", "CHECK", "DEFAULT"],
          next.toList ≠ [] ∧ Stops isBlank next.toList := by decide
      obtain ⟨hne, hstops⟩ := hsolid _ c.word_mem
      rw [clauseText_cons, hw, List.cons_append, List.append_assoc]
      exact .blanks (stops_append hne hstops _) ((Rejects.of_clash (h _ c.word_mem) _).seq q)

theorem endsReference_clauseText (clauses : List Clause) : EndsReference (clauseText clauses) := by
  intro word hword q
  have hclash : ∀ word ∈ ["MATCH", "ON"], ∀ next ∈ ["NOT", "PRIMARY", "REFERENCES", "CHECK", "DEFAULT"],
      clashes word.toList next.toList := by decide
  exact rejects_clauseText (hclash word hword) q clauses

theorem ListedName.itemName?_eq (n : ListedName) : itemName? n.name.text = some n.string := by
  rw [string]
  cases n.name with
  | bare word =>
      have hname := @itemName?_bare word.text [] word.chars word.nonempty (by simp)
      rwa [List.append_nil] at hname
  | quoted text nonempty closed => exact itemName?_quoted (.inl rfl) closed nonempty []

namespace DeclaredReference

variable (r : DeclaredReference)

theorem list_chars : ∀ c ∈ r.list, c ≠ ')' ∧ c ≠ '\n' := by
  intro c hc
  rcases mem_commaJoin hc with rfl | rfl | ⟨item, hitem, hc⟩
  · decide
  · decide
  · obtain ⟨n, -, rfl⟩ := List.mem_map.mp hitem
    exact (n.chars c hc).2

theorem splitIdentifiers_list : splitIdentifiers r.list = r.first.string :: r.more.map (·.string) :=
  splitIdentifiers_map r.spaced (fun n : ListedName => n.name.text) ListedName.string fun n _ =>
    ⟨fun hmem => (n.chars _ hmem).1 rfl, n.itemName?_eq⟩

/-- The reference without what is said behind it. -/
def clause : ReferenceClause where
  word := .plain "REFERENCES"
  behind := .single
  target := r.target
  space := ⟨[], blank_nil⟩
  columns := ⟨r.list, fun c hc => (r.list_chars c hc).1, by rw [splitIdentifiers_list]; exact List.cons_ne_nil _ _⟩

theorem text_eq : r.text = (Spacing.single.text ++ (ConstraintNaming.textOf none ++ r.clause.text)) ++
    r.actions.flatMap KeyAction.text := by
  simp [text, front, clause, ReferenceClause.text, KeywordText.plain, Spacing.single, Indent.single,
    ConstraintNaming.textOf]

/-- A reference is read with the name that it may have and with all actions behind it, those that it has and any
others. -/
theorem reads_named (name : Option ConstraintNaming) (actions : List ReferentialAction) (hv : EndsReference v) :
    referenceMarker.Reads (Spacing.single.text ++ (ConstraintNaming.textOf name ++ (r.clause.text ++
        actionText (r.actions.map (·.action) ++ actions)))) v [(.columns, r.list), (.table, r.target.text)] := by
  have hclause := fun v => r.clause.reads (p := part .table qualified) (fun _ h => h.part Part.table)
    ((r.clause.columns.reads v).part Part.columns)
  have hfront := fun v before => read?_marker before .single name r.clause.word rfl (by decide) (by decide) (hclause v)
  have hactions := reads_actionText (r.actions.map (·.action) ++ actions) hv
  have hassoc : Spacing.single.text ++ (ConstraintNaming.textOf name ++ (r.clause.text ++
      actionText (r.actions.map (·.action) ++ actions))) = (Spacing.single.text ++ (ConstraintNaming.textOf name ++
        r.clause.text)) ++ actionText (r.actions.map (·.action) ++ actions) := by
    simp only [List.append_assoc]
  rw [hassoc, referenceMarker, reads_assoc]
  refine Reads.seq ?_ hactions
  simp only [reads_assoc]
  exact hfront _

theorem reads_acted (actions : List ReferentialAction) (clauses : List Clause) :
    referenceMarker.Reads (r.text ++ actionText actions) (clauseText clauses)
      [(.columns, r.list), (.table, r.target.text)] := by
  have hread := r.reads_named none actions (endsReference_clauseText clauses)
  rw [actionText_append, actionText_actions] at hread
  rw [text_eq]
  simpa only [List.append_assoc] using hread

theorem reads_text (clauses : List Clause) :
    referenceMarker.Reads r.text (clauseText clauses) [(.columns, r.list), (.table, r.target.text)] := by
  have hread := r.reads_acted [] clauses
  rwa [actionText, List.flatMap_nil, List.append_nil] at hread

end DeclaredReference

theorem reads_clause (c : Clause) (hk : c.kind = .mark k) (clauses : List Clause) :
    k.marker.Reads c.text (clauseText clauses) c.parts := by
  cases c with
  | notNull =>
      cases hk
      rw [Clause.text_notNull]
      exact reads_notNullMark (stops_clauseText clauses)
  | primaryKey =>
      cases hk
      rw [Clause.text_primaryKey]
      exact reads_primaryKeyMark (stops_clauseText clauses)
  | references r =>
      cases hk
      rw [Clause.text_references]
      exact r.reads_text clauses
  | check => cases hk
  | default => cases hk

end SchemaDump.PostgreSQL
