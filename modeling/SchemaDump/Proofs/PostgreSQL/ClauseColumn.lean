import SchemaDump.Proofs.PostgreSQL.ActedClause
import SchemaDump.Proofs.PostgreSQL.ClauseValue
/- Columns with clauses in any order. The type is read up to the default, the default up to the `NOT NULL` at the
end of the line, and what is marked in either of them is marked on the column. More actions behind a reference change
nothing about that. -/
namespace SchemaDump.PostgreSQL
open SqlPattern Pattern

variable {before : Option Char} {t u v w : Text} {k : MarkKind} {clauses front back : List Clause}
  {actions : List ReferentialAction}

section Action

variable (a : ReferentialAction)

theorem silent_notNullTail_action (hv : Stops isWordChar v) : notNullTail.Silent before a.text v := by
  have hall : ∀ event outcome, hasWord "NOT" (ReferentialAction.mk event outcome).text = false ∧
      ∀ c ∈ (ReferentialAction.mk event outcome).text.getLast?, isBlank c = false := by
    intro event outcome
    cases event <;> cases outcome <;> decide
  obtain ⟨hno, hsolid⟩ := hall a.event a.outcome
  refine silent_notNullTail (opensWith_notNullOption.silent_of_no_word (by decide) ?_ hsolid hv) hsolid
  exact fun word hword => List.mem_singleton.mp hword ▸ hno

theorem endsSolid_action : EndsSolid a.text := by
  cases a with
  | mk event outcome => cases event <;> cases outcome <;> decide

theorem not_mem_break_action : '\n' ∉ a.text := by
  cases a with
  | mk event outcome => cases event <;> cases outcome <;> decide

end Action

theorem stops_actions (actions : List ReferentialAction) (hv : Stops isWordChar v) :
    Stops isWordChar (actionText actions ++ v) := by
  cases actions with
  | nil => exact hv
  | cons a actions => exact stops_cons.mpr (by decide)

theorem silent_notNullTail_actions (actions : List ReferentialAction) (hv : Stops isWordChar v) :
    notNullTail.Silent before (actionText actions) v := by
  induction actions generalizing before with
  | nil => exact silent_nil v
  | cons a actions ih => exact (silent_notNullTail_action a (stops_actions actions hv)).append ih

theorem endsSolid_actions (actions : List ReferentialAction) : EndsSolid (actionText actions) :=
  endsSolid_flatMap endsSolid_action actions

theorem not_mem_break_actions (actions : List ReferentialAction) : '\n' ∉ actionText actions := by
  intro hmem
  obtain ⟨a, -, hmem⟩ := List.mem_flatMap.mp hmem
  exact not_mem_break_action a hmem

namespace DeclaredReference

variable (r : DeclaredReference)

theorem text_actions : r.text = (r.front ++ [')']) ++ actionText (r.actions.map (·.action)) := by
  rw [actionText_actions, text]

theorem silent_notNullTail (hv : Stops isWordChar v) : notNullTail.Silent before r.text v := by
  rw [text_actions]
  exact (silent_notNullTail_closed (by decide)).append (silent_notNullTail_actions _ hv)

theorem endsSolid : EndsSolid r.text := by
  have hfront : EndsSolid (r.front ++ [')']) := EndsSolid.behind (by decide) (by decide) r.front
  rw [text_actions]
  exact hfront.append (endsSolid_actions _)

theorem not_mem_break : '\n' ∉ r.text := by
  have hactions : '\n' ∉ actionText (r.actions.map (·.action)) := not_mem_break_actions _
  have hlist : '\n' ∉ r.list := fun hmem => (r.list_chars _ hmem).2 rfl
  have hword : '\n' ∉ "REFERENCES".toList := by decide
  intro hmem
  rw [text_actions] at hmem
  simp only [front, List.mem_append, List.mem_cons, List.not_mem_nil, or_false] at hmem
  rcases hmem with ((hmem | hmem | hmem | hmem | hmem | hmem) | hmem) | hmem
  · exact absurd hmem (by decide)
  · exact hword hmem
  · exact absurd hmem (by decide)
  · exact r.oneLine hmem
  · exact absurd hmem (by decide)
  · exact hlist hmem
  · exact absurd hmem (by decide)
  · exact hactions hmem

end DeclaredReference

namespace Clause

variable (c : Clause)

theorem text_default (d : Value) : (default d).text = ' ' :: ("DEFAULT".toList ++ ' ' :: d.text) := by
  simp [text, head, opaqueText, tail, Value.text]

theorem endsSolid : EndsSolid c.text := by
  cases c with
  | notNull => decide
  | primaryKey => decide
  | references r =>
      rw [text_references]
      exact r.endsSolid
  | check e =>
      rw [text_check, ← List.append_assoc]
      exact EndsSolid.behind (by decide) (by decide) _
  | default d =>
      rw [text_default]
      exact d.endsSolid.behind d.nonempty (' ' :: ("DEFAULT".toList ++ [' ']))

theorem not_mem_break : '\n' ∉ c.text := by
  cases c with
  | notNull => decide
  | primaryKey => decide
  | references r =>
      rw [text_references]
      exact r.not_mem_break
  | check e =>
      have hhead : '\n' ∉ ' ' :: ("CHECK".toList ++ [' ', '(']) := by decide
      rw [text_check, List.mem_append, List.mem_append, not_or, not_or]
      exact ⟨hhead, e.not_mem_break, by decide⟩
  | default d =>
      have hhead : '\n' ∉ ' ' :: ("DEFAULT".toList ++ [' ']) := by decide
      have htext : (default d).text = (' ' :: ("DEFAULT".toList ++ [' '])) ++ d.text := text_default d
      rw [htext, List.mem_append, not_or]
      exact ⟨hhead, d.not_mem_break⟩

theorem endsSolid_acted (actions : List ReferentialAction) : EndsSolid (c.acted actions) := by
  obtain ⟨tail, htext⟩ := c.exists_acted_eq actions
  exact htext ▸ c.endsSolid.append (endsSolid_actions tail)

theorem not_mem_break_acted (actions : List ReferentialAction) : '\n' ∉ c.acted actions := by
  obtain ⟨tail, htext⟩ := c.exists_acted_eq actions
  exact htext ▸ fun hmem => (List.mem_append.mp hmem).elim c.not_mem_break (not_mem_break_actions tail)

theorem exists_solid : ∃ e ∈ c.text, isBlank e = false := by
  have hwords : ∀ word ∈ ["NOT", "PRIMARY", "REFERENCES", "CHECK", "DEFAULT"],
      word.toList ≠ [] ∧ ∀ e ∈ word.toList, isBlank e = false := by decide
  obtain ⟨hne, hsolid⟩ := hwords _ c.word_mem
  obtain ⟨e, rest, he⟩ := List.exists_cons_of_ne_nil hne
  obtain ⟨w, hw⟩ := c.exists_text_eq
  refine ⟨e, ?_, hsolid e (he ▸ List.mem_cons_self)⟩
  rw [hw, he]
  exact List.mem_cons_of_mem ' ' List.mem_cons_self

end Clause

theorem endsSolid_actedText (clauses : List Clause) : EndsSolid (actedText actions clauses) :=
  endsSolid_flatMap (fun c => c.endsSolid_acted actions) clauses

theorem not_mem_break_actedText (clauses : List Clause) : '\n' ∉ actedText actions clauses := by
  intro hmem
  obtain ⟨c, -, hmem⟩ := List.mem_flatMap.mp hmem
  exact c.not_mem_break_acted actions hmem

theorem endsSolid_clauses (clauses : List Clause) : EndsSolid (clauseText clauses) :=
  actedText_nil clauses ▸ endsSolid_actedText clauses

theorem not_mem_break_clauses (clauses : List Clause) : '\n' ∉ clauseText clauses :=
  actedText_nil clauses ▸ not_mem_break_actedText clauses

theorem actedText_starts (clauses : List Clause) :
    actedText actions clauses = [] ∨ ∃ w, actedText actions clauses = ' ' :: w := by
  cases clauses with
  | nil => exact .inl rfl
  | cons c clauses =>
      obtain ⟨tail, htext⟩ := c.exists_acted_eq actions
      obtain ⟨w, hw⟩ := c.exists_text_eq
      exact .inr ⟨_, by rw [actedText_cons, htext, hw, List.cons_append, List.cons_append]⟩

theorem stops_actedText_append (clauses : List Clause) (hv : Stops isWordChar v) :
    Stops isWordChar (actedText actions clauses ++ v) := by
  rcases actedText_starts clauses with hnil | ⟨w, hw⟩
  · rwa [hnil]
  · rw [hw]
    exact stops_cons.mpr (by decide)

theorem stops_actedText (clauses : List Clause) : Stops isWordChar (actedText actions clauses) := by
  simpa using stops_actedText_append clauses (stops_nil isWordChar)

theorem silent_of_optionTail (h : optionTail.Silent before u v) : notNullTail.Silent before u v := by
  rw [silent_iff] at h ⊢
  intro x y hxy hy
  have hnone := h x y hxy hy
  rw [optionTail, read?_maybe_seq] at hnone
  exact (Option.or_eq_none_iff.mp hnone).2

/-- The end of a line is not read in a clause, be it `NOT NULL`, as long as something stands behind that. -/
theorem silent_notNullTail_clause (c : Clause) (hv : Stops isWordChar v) (hdefault : c.kind ≠ .default)
    (hlast : c.kind = .mark .notNull → ∃ e ∈ v, isBlank e = false) : notNullTail.Silent before (c.acted actions) v := by
  cases c with
  | notNull =>
      rw [Clause.acted_of_kind_ne (by decide), Clause.text_notNull]
      exact silent_of_optionTail (silent_notNull (hlast rfl))
  | primaryKey =>
      rw [Clause.acted_of_kind_ne (by decide), Clause.text_primaryKey]
      exact silent_of_optionTail silent_primaryKey
  | references r => exact (r.silent_notNullTail (stops_actions actions hv)).append (silent_notNullTail_actions actions hv)
  | check e =>
      rw [Clause.acted_of_kind_ne (by simp [Clause.kind]), Clause.text_check, ← List.append_assoc]
      exact silent_notNullTail_closed (by decide)
  | default d => exact absurd rfl hdefault

theorem silent_notNullTail_clauses (hdefault : ∀ c ∈ clauses, c.kind ≠ .default) (hv : Stops isWordChar v)
    (hlast : (∀ c ∈ clauses.getLast?, c.kind ≠ .mark .notNull) ∨ ∃ e ∈ v, isBlank e = false) :
    notNullTail.Silent before (actedText actions clauses) v := by
  induction clauses generalizing before with
  | nil => exact silent_nil v
  | cons c clauses ih =>
      obtain ⟨hc, hrest⟩ := List.forall_mem_cons.mp hdefault
      have hlast' : (∀ c ∈ clauses.getLast?, c.kind ≠ .mark .notNull) ∨ ∃ e ∈ v, isBlank e = false := by
        refine hlast.imp_left fun h d hd => h d ?_
        rw [List.getLast?_cons, Option.mem_def.mp hd]
        rfl
      rw [actedText_cons]
      refine Silent.append (silent_notNullTail_clause c (stops_actedText_append clauses hv) hc fun hkind => ?_)
        (ih hrest hlast')
      cases clauses with
      | nil => exact hlast.elim (fun h => absurd hkind (h c rfl)) id
      | cons d clauses =>
          obtain ⟨e, he, hsolid⟩ := d.exists_solid
          obtain ⟨tail, htext⟩ := d.exists_acted_eq actions
          refine ⟨e, List.mem_append_left v ?_, hsolid⟩
          rw [actedText_cons, htext]
          exact List.mem_append_left _ (List.mem_append_left _ he)

theorem silent_defaultOpening_clauses (hno : defaultOpening.occursIn (actedText actions clauses ++ v.take 1) = false)
    (hv : v = [] ∨ ∃ w, v = ' ' :: w) : defaultOpening.Silent before (actedText actions clauses) v := by
  rcases hv with rfl | ⟨w, rfl⟩
  · exact confined_nil.staysWithin.silent rfl (by simpa using hno)
  · exact silent_defaultOpening (fun c hc => (endsSolid_actedText clauses c hc).1) (by decide) hno

theorem silent_optionTail_of (hdefault : defaultOpening.Silent before u v) (htail : notNullTail.Silent before u v) :
    optionTail.Silent before u v := by
  rw [silent_iff] at hdefault htail ⊢
  exact fun x y hxy hy => read?_optionTail_eq_none (hdefault x y hxy hy) (htail x y hxy hy)

/-- What follows a type is not read in the type and in the clauses behind it. -/
theorem silent_typed_clauses (type : TypeText) (hdefault : ∀ c ∈ clauses, c.kind ≠ .default)
    (hno : defaultOpening.occursIn (actedText actions clauses ++ v.take 1) = false) (hv : v = [] ∨ ∃ w, v = ' ' :: w)
    (hlast : (∀ c ∈ clauses.getLast?, c.kind ≠ .mark .notNull) ∨ ∃ e ∈ v, isBlank e = false) :
    optionTail.Silent before (type.text ++ actedText actions clauses) v := by
  have hstops : Stops isWordChar v := by
    rcases hv with rfl | ⟨w, rfl⟩
    · exact stops_nil _
    · exact stops_cons.mpr (by decide)
  have htype : Stops isWordChar (actedText actions clauses ++ v) := stops_actedText_append clauses hstops
  exact silent_optionTail_of
    ((type.silent opensWith_defaultOpening (by decide) htype).append (silent_defaultOpening_clauses hno hv))
    ((type.silent_notNullTail htype).append (silent_notNullTail_clauses hdefault hstops hlast))

theorem endsSolid_checkText (clauses : List Clause) : EndsSolid (ClauseLine.checkText clauses) :=
  endsSolid_clauses _

/-- Without its marks a type is left with the checks behind it. -/
theorem take_typed (type : TypeText) (h : Settled clauses) (hacted : ActedSettled actions clauses)
    (hdistinct : (clauses.map (·.kind)).Nodup) (hdefault : .default ∉ clauses.map (·.kind)) :
    Markers.take true (type.text ++ actedText actions clauses) =
      (type.text ++ ClauseLine.checkText clauses, markersOf clauses) := by
  have hprecedes : Precedes type.text clauses :=
    { balanced := type.balanced
      passes := fun rest _ k => passes_of_silent
        (type.silent (opensWith_marker k) (reserved_words k) (stops_clauseText rest))
      settled := h
      distinct := hdistinct
      noDefault := hdefault }
  have hbase : referenceMarker.Passes (actedText actions clauses) .outermost none type.text :=
    passes_of_silent (type.silent opensWith_referenceMarker (reserved_words .reference) (stops_actedText clauses))
  rw [take_acted hprecedes hbase hacted]
  refine take_clauses hprecedes (fun _ => passes_of_silent
    (type.silent opensWith_nullMarker (by decide) (stops_clauseText _))) ?_
  exact type.trimmed_append (endsSolid_checkText clauses)

theorem take_value (d : Value) (h : Settled (.default d :: clauses))
    (hacted : ActedSettled actions (.default d :: clauses))
    (hdistinct : (clauses.map (·.kind)).Nodup) (hdefault : .default ∉ clauses.map (·.kind)) :
    Markers.take false (d.text ++ actedText actions clauses) =
      (d.text ++ ClauseLine.checkText clauses, markersOf clauses) := by
  have hlast : lastOf none (Clause.default d).head = lastOf none d.body.head := by
    have hne : d.body.head ≠ [] := by
      cases d.body with
      | literal q => exact List.cons_ne_nil _ _
      | word w _ => exact w.nonempty
      | unspaced e nonempty _ _ => exact nonempty
    obtain ⟨c, rest, hhead⟩ := List.exists_cons_of_ne_nil hne
    have hsplit : (Clause.default d).head = (' ' :: ("DEFAULT".toList ++ [' '])) ++ c :: rest := by
      rw [Clause.head, hhead]
      rfl
    rw [hsplit, hhead, lastOf_append]
    rfl
  have hprecedes : Precedes d.text clauses :=
    { balanced := d.balanced
      passes := fun rest hrest k => d.passes (stops_clauseText rest)
        (hlast ▸ h.1 rest (List.mem_sublists.mpr hrest) k)
      settled := h.2
      distinct := hdistinct
      noDefault := hdefault }
  have hbase : referenceMarker.Passes (actedText actions clauses) .outermost none d.text :=
    d.passes (k := .reference) (stops_actedText clauses)
      (hlast ▸ hacted.1 clauses (List.mem_sublists.mpr (List.Sublist.refl _)))
  rw [take_acted hprecedes hbase hacted.2]
  refine take_clauses hprecedes (fun hbare => absurd hbare Bool.false_ne_true) ?_
  exact (d.endsSolid.append (endsSolid_checkText clauses)).trimmed (stops_append d.nonempty d.opens _)

def trailing (notNull : Bool) : List Clause := if notNull then [.notNull] else []

theorem exists_trailing (clauses : List Clause) : ∃ inner notNull, clauses = inner ++ trailing notNull ∧
    ((∀ c ∈ inner.getLast?, c.kind ≠ .mark .notNull) ∨
      ∃ e ∈ ColumnLine.notNullText notNull, isBlank e = false) := by
  rcases List.eq_nil_or_concat clauses with rfl | ⟨inner, c, rfl⟩
  · exact ⟨[], false, rfl, .inl fun _ hc => nomatch hc⟩
  · cases c with
    | notNull => exact ⟨inner, true, List.concat_eq_append, .inr ⟨'N', by decide, by decide⟩⟩
    | primaryKey => exact ⟨inner ++ [.primaryKey], false, by simp [trailing], .inl (by simp [Clause.kind])⟩
    | references r => exact ⟨inner ++ [.references r], false, by simp [trailing], .inl (by simp [Clause.kind])⟩
    | check e => exact ⟨inner ++ [.check e], false, by simp [trailing], .inl (by simp [Clause.kind])⟩
    | default d => exact ⟨inner ++ [.default d], false, by simp [trailing], .inl (by simp [Clause.kind])⟩

def lineParts (name : ColumnName) (type : Text) (default : Option Text) (notNull : Bool) : List (Part × Text) :=
  (optionParts none notNull ++ (default.map (Part.default, ·)).toList) ++ (.type, type) :: name.parts

theorem reads_line {ps : List (Part × Text)} (name : ColumnName) (hne : t ≠ []) (hopens : Stops isBlank t)
    (hline : '\n' ∉ t) (hsilent : ∀ before, optionTail.Silent before t w) (htail : optionTail.Reads w [] ps) :
    columnDefinition.Reads (name.text ++ ' ' :: (t ++ w)) [] (ps ++ (.type, t) :: name.parts) := by
  have htype : (part Part.type (run1 (· != '\n') .shortest) ++ optionTail).Reads (t ++ w) [] (ps ++ [(.type, t)]) :=
    reads_shortest hne (fun c hc => bne_iff_ne.mpr fun heq => hline (heq ▸ hc))
      (fun before => by rw [List.append_nil]; exact hsilent before) htail
  have hblanks : (blanks : SqlPattern).Reads [' '] ((t ++ w) ++ []) [] := by
    rw [List.append_nil]
    exact reads_blanks (stops_append hne hopens w)
  have hname := name.reads (v := ' ' :: ((t ++ w) ++ [])) (stops_cons.mpr (by decide))
  have hall := Reads.seq hname (hblanks.seq htype)
  rw [reads_columnDefinition_iff]
  simpa only [List.append_assoc, List.singleton_append, List.append_nil] using hall

/-- The column of a line whose type and default still have the marks in them. -/
def readColumn (name : ColumnName) (type : Text) (default : Option Text) (notNull : Bool) : Column :=
  let (type, raw, markers) := Markers.ofColumn type default
  { name := .ofList name.content
    declaredType := .ofList type
    isPrimaryKey := markers.primaryKey
    isNullable := !notNull && !markers.notNull
    defaultValue := (raw.filter (!·.isEmpty)).map fun raw => .ofList (DefaultValue.clean true raw)
    foreignKey := markers.foreignKey? .postgresql (.ofList name.content) }

theorem parseColumn?_of_reads {text : Text} {name : ColumnName} {default : Option Text} {notNull : Bool}
    (h : columnDefinition.Reads text [] (lineParts name t default notNull)) :
    parseColumn? text = some (readColumn name t.trim default notNull) := by
  have hread := h none
  rw [List.append_nil] at hread
  obtain ⟨o, ho, hreading⟩ := exists_at?_of_read? (.atStart text) hread
  have hopening : columnDefinition.opening? text = some o := ho
  have hname : (o.part? .quotedName <|> o.part? .name) = some name.content := by
    rw [Occurrence.part?_eq, Occurrence.part?_eq, hreading]
    cases name <;> cases default <;> cases notNull <;> rfl
  have htype : o.part .type = t := by
    rw [Occurrence.part_eq, hreading]
    cases default <;> cases notNull <;> rfl
  have hdefault : o.part? .default = default := by
    rw [Occurrence.part?_eq, hreading]
    cases name <;> cases default <;> cases notNull <;> rfl
  have hnull : (o.part? .notNull).isNone = !notNull := by
    rw [Occurrence.part?_eq, hreading]
    cases name <;> cases default <;> cases notNull <;> rfl
  simp only [parseColumn?, hopening, hname, htype, hdefault, hnull, Option.bind_eq_bind, Option.bind_some]
  rfl

theorem parseColumn?_typed (name : ColumnName) {notNull : Bool} (hne : t ≠ []) (htrim : Trimmed t) (hline : '\n' ∉ t)
    (hsilent : ∀ before, optionTail.Silent before t (ColumnLine.notNullText notNull)) :
    parseColumn? (name.text ++ ' ' :: (t ++ ColumnLine.notNullText notNull)) =
      some (readColumn name t none notNull) := by
  have hread := reads_line name hne htrim.1 hline hsilent (reads_optionTail none notNull)
  have hparts : optionParts none notNull ++ (.type, t) :: name.parts = lineParts name t none notNull := by
    rw [lineParts, Option.map_none, Option.toList_none, List.append_nil]
  have hcolumn := parseColumn?_of_reads (hparts ▸ hread)
  rwa [htrim.trim_eq] at hcolumn

/-- A line that gives a default is read up to it, and from there up to the `NOT NULL` at its end. -/
theorem parseColumn?_defaulted (name : ColumnName) {notNull : Bool} (hne : t ≠ []) (htrim : Trimmed t)
    (hline : '\n' ∉ t) (hdefaultNe : u ≠ []) (hdefaultOpens : Stops isBlank u) (hdefaultLine : '\n' ∉ u)
    (hsilent : ∀ before, optionTail.Silent before t
      ((' ' :: ("DEFAULT".toList ++ ' ' :: u)) ++ ColumnLine.notNullText notNull))
    (hvalue : ∀ before, notNullTail.Silent before u (ColumnLine.notNullText notNull)) :
    parseColumn? (name.text ++ ' ' ::
        (t ++ ((' ' :: ("DEFAULT".toList ++ ' ' :: u)) ++ ColumnLine.notNullText notNull))) =
      some (readColumn name t (some u) notNull) := by
  have hread := reads_line name hne htrim.1 hline hsilent
    (reads_defaultTail notNull hdefaultNe hdefaultLine hdefaultOpens hvalue)
  have hcolumn : parseColumn? _ = some (readColumn name t.trim (some u) notNull) := parseColumn?_of_reads hread
  rwa [htrim.trim_eq] at hcolumn

theorem foreignKey?_inline {m : Markers} {r : Option DeclaredReference} (h : m.reference = r.map (·.inline))
    (name : String) : m.foreignKey? .postgresql name =
      r.map fun r => ⟨name, .ofList (Spelling.shortName r.target.address), r.first.string⟩ := by
  cases r with
  | none =>
      have h : m.reference = none := h
      rw [Markers.foreignKey?, h]
      rfl
  | some r =>
      have h : m.reference = some r.inline := h
      rw [Markers.foreignKey?, h]
      simp [DeclaredReference.inline, Spelling.normalizeName_text]

theorem notNullText_cases (notNull : Bool) :
    ColumnLine.notNullText notNull = [] ∨ ∃ w, ColumnLine.notNullText notNull = ' ' :: w := by
  cases notNull with
  | false => exact .inl rfl
  | true => exact .inr ⟨_, rfl⟩

theorem actedText_trailing (notNull : Bool) :
    actedText actions (trailing notNull) = ColumnLine.notNullText notNull := by
  cases notNull <;> rfl

theorem plain_stripped {inner : List Clause} {notNull : Bool}
    (h : defaultOpening.occursIn (actedText actions (inner ++ trailing notNull)) = false) :
    defaultOpening.occursIn (actedText actions inner ++ (ColumnLine.notNullText notNull).take 1) = false := by
  rw [actedText_append, actedText_trailing] at h
  cases notNull with
  | false => exact h
  | true => exact occursIn_eq_false_of_isInfix (x := []) (z := "NOT NULL".toList) rfl (by
      simpa [ColumnLine.notNullText, spacedWords] using h)

theorem checkText_append (front back : List Clause) :
    ClauseLine.checkText (front ++ back) = ClauseLine.checkText front ++ ClauseLine.checkText back := by
  rw [ClauseLine.checkText, List.filter_append, clauseText_append]
  rfl

theorem checkText_trailing (notNull : Bool) : ClauseLine.checkText (trailing notNull) = [] := by
  cases notNull <;> rfl

theorem checkText_stripped (inner : List Clause) (notNull : Bool) :
    ClauseLine.checkText (inner ++ trailing notNull) = ClauseLine.checkText inner := by
  rw [checkText_append, checkText_trailing, List.append_nil]

theorem markersOf_append (front back : List Clause) :
    markersOf (front ++ back) = (markersOf front).merge (markersOf back) := by
  simp only [merge_eq, markersOf, List.map_append, List.contains_append, List.findSome?_append, Option.map_or]

theorem markersOf_trailing (notNull : Bool) : markersOf (trailing notNull) = { notNull } := by
  cases notNull <;> rfl

theorem markersOf_default (d : Value) (clauses : List Clause) :
    markersOf (.default d :: clauses) = markersOf clauses := rfl

namespace ClauseLine

variable (c : ClauseLine)

theorem clauses_eq : c.front ++ c.defaulted = c.clauses := List.takeWhile_append_dropWhile

theorem front_noDefault : .default ∉ c.front.map (·.kind) := by
  intro hmem
  obtain ⟨d, hd, hkind⟩ := List.mem_map.mp hmem
  have hne := List.mem_takeWhile_imp hd
  exact absurd hkind (of_decide_eq_true hne)

theorem defaulted_cases : c.defaulted = [] ∨ ∃ d back, c.defaulted = .default d :: back := by
  cases hdefaulted : c.defaulted with
  | nil => exact .inl rfl
  | cons first back =>
      refine .inr ?_
      have hfirst := List.head?_dropWhile_not (fun d : Clause => decide (d.kind ≠ .default)) c.clauses
      have hhead : c.clauses.dropWhile (fun d => decide (d.kind ≠ .default)) = first :: back := hdefaulted
      rw [hhead] at hfirst
      have hkind : first.kind = .default := by simpa using hfirst
      cases first with
      | default d => exact ⟨d, back, rfl⟩
      | notNull => cases hkind
      | primaryKey => cases hkind
      | references => cases hkind
      | check => cases hkind

theorem column_eq {m : Markers} {notNull : Bool} (h : markersOf c.clauses = m.merge { notNull }) :
    c.column =
      { name := c.string
        declaredType := .ofList (c.type.text ++ checkText c.front)
        isPrimaryKey := m.primaryKey
        isNullable := !notNull && !m.notNull
        defaultValue := c.defaultText?.map fun raw => .ofList (DefaultValue.clean true raw)
        foreignKey := m.foreignKey? .postgresql c.string } := by
  rw [merge_eq] at h
  have hprimary : (c.clauses.map (·.kind)).contains (.mark .primaryKey) = m.primaryKey :=
    (congrArg Markers.primaryKey h).trans (Bool.or_false _)
  have hnull : (c.clauses.map (·.kind)).contains (.mark .notNull) = (notNull || m.notNull) :=
    (congrArg Markers.notNull h).trans (Bool.or_comm _ _)
  have hreference : m.reference = (c.clauses.findSome? (·.reference?)).map (·.inline) :=
    ((congrArg Markers.reference h).trans Option.or_none).symm
  rw [foreignKey?_inline hreference, column, hprimary, hnull, Bool.not_or]

theorem parseColumn?_actedText_of_no_default (h : c.Readable) (hacted : c.ReadableWith actions)
    (hdefaulted : c.defaulted = []) :
    parseColumn? (c.actedText actions) = some c.column := by
  have hclauses : c.front = c.clauses := by
    have heq := c.clauses_eq
    rwa [hdefaulted, List.append_nil] at heq
  obtain ⟨inner, notNull, hinner, hlast⟩ := exists_trailing c.clauses
  have hfront : c.front = inner ++ trailing notNull := hclauses.trans hinner
  have hsub : inner.Sublist c.front := hfront ▸ List.sublist_append_left inner _
  have hnone : ClauseKind.default ∉ inner.map (·.kind) := fun hmem =>
    c.front_noDefault ((hsub.map _).subset hmem)
  have htrim : Trimmed (c.type.text ++ PostgreSQL.actedText actions inner) :=
    c.type.trimmed_append (endsSolid_actedText inner)
  have hplain : defaultOpening.occursIn (PostgreSQL.actedText actions (inner ++ trailing notNull)) = false := by
    have hplain := hacted.plain
    rw [hdefaulted, hfront] at hplain
    simpa [PostgreSQL.actedText] using hplain
  have hsilent : ∀ before, optionTail.Silent before (c.type.text ++ PostgreSQL.actedText actions inner)
      (ColumnLine.notNullText notNull) := fun before =>
    silent_typed_clauses c.type (kind_ne_default hnone) (plain_stripped hplain) (notNullText_cases notNull) hlast
  have hread := parseColumn?_typed c.name (List.append_ne_nil_of_left_ne_nil c.type.nonempty _) htrim
    (fun hmem => (List.mem_append.mp hmem).elim c.type.oneLine (not_mem_break_actedText inner)) hsilent
  have htext : c.actedText actions = c.name.text ++ ' ' :: ((c.type.text ++ PostgreSQL.actedText actions inner) ++
      ColumnLine.notNullText notNull) := by
    rw [actedText, hinner, actedText_append, actedText_trailing, List.append_assoc]
  have htake := take_typed c.type (h.front.sublist hsub) (hacted.front.sublist hsub)
    (c.distinct.sublist ((hclauses ▸ hsub).map _)) hnone
  have hmarkers : markersOf c.clauses = (markersOf inner).merge { notNull } := by
    rw [hinner, markersOf_append, markersOf_trailing]
  rw [htext, hread, readColumn, Markers.ofColumn, htake, c.column_eq hmarkers, hfront,
    checkText_stripped, defaultText?, hdefaulted]
  rfl

/-- The parts of a line with a default, as they are read, with the actions still in them. -/
theorem parseColumn?_parts_of_default (hacted : c.ReadableWith actions) {d : Value} {inner : List Clause} {notNull : Bool}
    (hdefaulted : c.defaulted = .default d :: (inner ++ trailing notNull)) (hnone : .default ∉ inner.map (·.kind))
    (hlast : (∀ c ∈ inner.getLast?, c.kind ≠ .mark .notNull) ∨
      ∃ e ∈ ColumnLine.notNullText notNull, isBlank e = false) :
    parseColumn? (c.actedText actions) = some (readColumn c.name (c.type.text ++ PostgreSQL.actedText actions c.front)
      (some (d.text ++ PostgreSQL.actedText actions inner)) notNull) := by
  have htrim : Trimmed (c.type.text ++ PostgreSQL.actedText actions c.front) :=
    c.type.trimmed_append (endsSolid_actedText c.front)
  have hstops : Stops isWordChar (ColumnLine.notNullText notNull) := by
    cases notNull
    · exact stops_nil _
    · exact stops_cons.mpr (by decide)
  have hvalue : ∀ before, notNullTail.Silent before (d.text ++ PostgreSQL.actedText actions inner)
      (ColumnLine.notNullText notNull) :=
    fun before => (d.silent_notNullTail (stops_actedText_append inner hstops)).append
      (silent_notNullTail_clauses (kind_ne_default hnone) hstops hlast)
  have hdefaultText : (Clause.default d).acted actions = ' ' :: ("DEFAULT".toList ++ ' ' :: d.text) := by
    rw [Clause.acted_of_kind_ne (by simp [Clause.kind]), Clause.text_default]
  have hplain : defaultOpening.occursIn (PostgreSQL.actedText actions c.front ++
      ((' ' :: ("DEFAULT".toList ++ ' ' :: (d.text ++ PostgreSQL.actedText actions inner))) ++
        ColumnLine.notNullText notNull).take 1) = false := by
    have hplain := hacted.plain
    rw [hdefaulted, actedText_cons, hdefaultText] at hplain
    exact hplain
  have hsilent : ∀ before, optionTail.Silent before (c.type.text ++ PostgreSQL.actedText actions c.front)
      ((' ' :: ("DEFAULT".toList ++ ' ' :: (d.text ++ PostgreSQL.actedText actions inner))) ++
        ColumnLine.notNullText notNull) :=
    fun before => silent_typed_clauses c.type (kind_ne_default c.front_noDefault) hplain (.inr ⟨_, rfl⟩)
      (.inr ⟨'D', by simp, by decide⟩)
  have htext : c.actedText actions = c.name.text ++ ' ' :: ((c.type.text ++ PostgreSQL.actedText actions c.front) ++
      ((' ' :: ("DEFAULT".toList ++ ' ' :: (d.text ++ PostgreSQL.actedText actions inner))) ++
        ColumnLine.notNullText notNull)) := by
    rw [actedText, ← c.clauses_eq, hdefaulted, actedText_append, actedText_cons, actedText_append, actedText_trailing,
      hdefaultText]
    simp only [List.append_assoc, List.cons_append]
  rw [htext]
  exact parseColumn?_defaulted c.name (List.append_ne_nil_of_left_ne_nil c.type.nonempty _) htrim
    (fun hmem => (List.mem_append.mp hmem).elim c.type.oneLine (not_mem_break_actedText c.front))
    (List.append_ne_nil_of_left_ne_nil d.nonempty _) (stops_append d.nonempty d.opens _)
    (fun hmem => (List.mem_append.mp hmem).elim d.not_mem_break (not_mem_break_actedText inner)) hsilent hvalue

theorem parseColumn?_actedText_of_default (h : c.Readable) (hacted : c.ReadableWith actions) {d : Value}
    {back : List Clause} (hdefaulted : c.defaulted = .default d :: back) :
    parseColumn? (c.actedText actions) = some c.column := by
  have hclauses : c.clauses = c.front ++ .default d :: back := by rw [← hdefaulted, c.clauses_eq]
  obtain ⟨inner, notNull, rfl, hlast⟩ := exists_trailing back
  have hsub : inner.Sublist (inner ++ trailing notNull) := List.sublist_append_left inner _
  have hdistinct := c.distinct
  rw [hclauses, List.map_append, List.map_cons, List.nodup_append, List.nodup_cons] at hdistinct
  obtain ⟨hfront, ⟨hback, hrest⟩, -⟩ := hdistinct
  have hnone : ClauseKind.default ∉ inner.map (·.kind) := fun hmem => hback ((hsub.map _).subset hmem)
  have hread := c.parseColumn?_parts_of_default hacted hdefaulted hnone hlast
  have htype := take_typed c.type h.front hacted.front hfront c.front_noDefault
  have hsettled : Settled (.default d :: inner) := by
    have hall := h.defaulted
    rw [hdefaulted] at hall
    exact hall.sublist (hsub.cons_cons _)
  have hsettledActed : ActedSettled actions (.default d :: inner) := by
    have hall := hacted.defaulted
    rw [hdefaulted] at hall
    exact hall.sublist (hsub.cons_cons _)
  have hraw := take_value d hsettled hsettledActed (hrest.sublist (hsub.map _)) hnone
  have hmarkers : markersOf c.clauses = ((markersOf c.front).merge (markersOf inner)).merge { notNull } := by
    rw [hclauses, markersOf_append, markersOf_default, markersOf_append, markersOf_trailing, merge_assoc]
  have hne : (d.text ++ checkText inner).isEmpty = false := by
    rw [List.isEmpty_eq_false_iff]
    exact List.append_ne_nil_of_left_ne_nil d.nonempty _
  have hdefault : c.defaultText? = some (d.text ++ checkText inner) := by
    rw [defaultText?, hdefaulted]
    simp only [checkText_stripped]
  rw [hread, readColumn, Markers.ofColumn, htype, c.column_eq hmarkers, hdefault]
  simp only [hraw, Option.filter_some, hne, Bool.not_false, if_true]
  rfl

/-- Whatever actions stand behind its reference, a column is read back from its line. -/
theorem parseColumn?_actedText (h : c.Readable) (hacted : c.ReadableWith actions) :
    parseColumn? (c.actedText actions) = some c.column := by
  rcases c.defaulted_cases with hdefaulted | ⟨d, back, hdefaulted⟩
  · exact c.parseColumn?_actedText_of_no_default h hacted hdefaulted
  · exact c.parseColumn?_actedText_of_default h hacted hdefaulted

variable {c} in
theorem Readable.readableWith_nil (h : c.Readable) : c.ReadableWith [] where
  plain := by
    have hstarts : clauseText c.defaulted = [] ∨ ∃ w, clauseText c.defaulted = ' ' :: w :=
      PostgreSQL.actedText_nil c.defaulted ▸ actedText_starts c.defaulted
    rw [PostgreSQL.actedText_nil, PostgreSQL.actedText_nil]
    rcases hstarts with hnil | ⟨w, hw⟩
    · rw [hnil, List.take_nil, List.append_nil]
      exact occursIn_eq_false_of_isInfix (x := []) rfl h.plain
    · rw [hw]
      exact h.plain
  front := h.front.acted_nil
  defaulted := h.defaulted.acted_nil

theorem parseColumn?_text (h : c.Readable) : parseColumn? c.text = some c.column :=
  c.actedText_nil ▸ c.parseColumn?_actedText h h.readableWith_nil

end ClauseLine

end SchemaDump.PostgreSQL
