import SchemaDump.Proofs.PostgreSQL.ClauseTable
/- Texts that may say anything. What stands in the literal of a default or in the parentheses of a check is no
part of the rest of the column: another text in its place is shown where it stands and changes nothing else, as
long as no `DEFAULT` is found in it in front of the default and no mark that is found in it goes on behind it. -/
namespace SchemaDump.PostgreSQL
open SqlPattern Pattern

variable {before : Option Char} {t u : Text}

theorem foldl_next_trailingCast {r : Match Part} (hr : r ∈ trailingCast.readings before t) (depth : Nat) :
    t.foldl Nesting.next ⟨false, depth⟩ = ⟨false, depth⟩ := by
  obtain ⟨w, n, d, rfl, hw, hn, hd⟩ := exists_of_mem_trailingCast hr
  have hcolons : Flat [':', ':'] := by decide
  have hwords : Flat w := fun c hc =>
    ⟨by rintro rfl; exact absurd (hw _ hc) (by decide), by rintro rfl; exact absurd (hw _ hc) (by decide),
      by rintro rfl; exact absurd (hw _ hc) (by decide)⟩
  have hdimensions : Flat d := fun c hc =>
    ⟨by rintro rfl; exact absurd (hd _ hc) (by decide), by rintro rfl; exact absurd (hd _ hc) (by decide),
      by rintro rfl; exact absurd (hd _ hc) (by decide)⟩
  have hnumbers : n.foldl Nesting.next ⟨false, depth⟩ = ⟨false, depth⟩ := by
    rcases hn with rfl | ⟨m, rfl, hm⟩
    · rfl
    · exact (Enclosed.of_plain hm).group.level depth
  change ([':', ':'] ++ (w ++ (n ++ d))).foldl Nesting.next _ = _
  simp only [List.foldl_append, hcolons.foldl_next, hwords.foldl_next, hnumbers, hdimensions.foldl_next]

/-- No cast is read at the end of a check: it would have to start within the parentheses and close them. -/
theorem silent_trailingCast_check (q : QuotedText) (e : Expression) :
    trailingCast.Silent before (q.text ++ (Clause.check e).text) [] := by
  rw [silent_iff]
  intro x y hxy hy
  cases hr : trailingCast.read? (lastOf before x) (y ++ []) with
  | none => rfl
  | some r =>
      exfalso
      obtain ⟨z, hz, -, hquote⟩ := exists_of_read?_trailingCast (by rw [hr]; exact Option.some_ne_none r)
      rw [List.append_nil] at hz
      have hmem : r ∈ trailingCast.readings (lastOf before x) y := by
        rw [List.append_nil] at hr
        exact mem_of_read? hr
      have hplain : ∀ c ∈ y, c ≠ '\'' := by
        rintro c hc rfl
        rw [hz] at hc
        exact hquote (by simpa using hc)
      obtain ⟨k, hk⟩ : ∃ k, (Clause.check e).text = k ++ y := by
        obtain ⟨u, hu⟩ := q.exists_text_eq
        rcases exists_append_of_length hxy with ⟨k, -, hk⟩ | ⟨c, k, hq, hyk⟩
        · exact ⟨k, hk⟩
        · have hlast : (x ++ c :: k).getLast? = some '\'' := by rw [← hq, hu, List.getLast?_concat]
          obtain ⟨d, hd, -, hdquote⟩ := exists_of_getLast? (P := (· = '\'')) (List.cons_ne_nil c k)
            fun d hd => Option.some.inj (hd.symm.trans hlast)
          exact absurd hdquote (hplain d (hyk ▸ List.mem_append_left _ hd))
      obtain ⟨m, hm⟩ : ∃ m, e.text ++ [')'] = m ++ y := by
        rw [Clause.text_check] at hk
        rcases exists_append_of_length hk with ⟨m, -, hm⟩ | ⟨c, m, hhead, hyc⟩
        · exact ⟨m, hm⟩
        · have hcolon : ':' ∉ ' ' :: ("CHECK".toList ++ [' ', '(']) := by decide
          rw [hz] at hyc
          obtain ⟨rfl, -⟩ := List.cons.inj hyc
          exact absurd (hhead ▸ List.mem_append_right k List.mem_cons_self) hcolon
      obtain ⟨w, hw⟩ := exists_append_of_concat hm hy
      have hdeep := e.enclosed.deep 1 m w hw
      have hend : y.foldl Nesting.next (m.foldl Nesting.next ⟨false, 1⟩) = .outermost := by
        rw [← List.foldl_append, ← hm, List.foldl_append, e.enclosed.level]
        rfl
      rcases hstate : m.foldl Nesting.next ⟨false, 1⟩ with ⟨inLiteral, depth⟩
      rw [hstate] at hdeep hend
      cases inLiteral with
      | true =>
          rw [foldl_next_inLiteral hplain] at hend
          cases hend
      | false =>
          rw [foldl_next_trailingCast hmem] at hend
          cases hend
          exact absurd hdeep (by decide)

theorem clean_of_silent (htrimmed : Trimmed t) (h : trailingCast.Silent none t []) :
    DefaultValue.clean true t = DefaultValue.unquoteLiteral t := by
  have hcasts : DefaultValue.dropCasts t = t := by
    cases t with
    | nil => rfl
    | cons c t =>
        rw [DefaultValue.dropCasts, DefaultValue.dropCastsWithin, find?_eq_none_of_silent consumes_trailingCast h]
  simp only [DefaultValue.clean, htrimmed.trim_eq, if_true, hcasts]

namespace QuotedText

variable (q : QuotedText)

theorem rest_eq : q.rest = q.content ++ ['\''] := by
  have hmore : ∀ more : List Content, '\'' :: more.flatMap (·.quoted) =
      (more.flatMap fun c => '\'' :: '\'' :: c.text) ++ ['\''] := by
    intro more
    induction more with
    | nil => rfl
    | cons content more ih => simp [Content.quoted, ← ih]
  rw [rest, content, hmore, List.append_assoc]

theorem clean_text : DefaultValue.clean true q.text = q.content := by
  have htext : q.text = '\'' :: (q.content ++ ['\'']) := by rw [text, rest_eq]
  have htrimmed : Trimmed q.text := (ValueBody.literal q).endsSolid.trimmed (ValueBody.literal q).opens
  have hsilent : trailingCast.Silent none ('\'' :: q.content ++ ['\'']) [] := silent_trailingCast_closed
  rw [clean_of_silent htrimmed (htext ▸ hsilent), htext]
  simp [DefaultValue.unquoteLiteral, DefaultValue.between?]

theorem clean_text_check (e : Expression) :
    DefaultValue.clean true (q.text ++ (Clause.check e).text) = q.text ++ (Clause.check e).text := by
  have hends : EndsSolid (q.text ++ (Clause.check e).text) :=
    (ValueBody.literal q).endsSolid.append (Clause.check e).endsSolid
  have hlast : (q.rest ++ (Clause.check e).text).getLast? = some ')' := by
    rw [Clause.text_check, ← List.append_assoc, ← List.append_assoc, List.getLast?_concat]
  have hopen : q.text ++ (Clause.check e).text = '\'' :: (q.rest ++ (Clause.check e).text) := rfl
  rw [clean_of_silent (hends.trimmed (stops_cons.mpr (by decide))) (silent_trailingCast_check q e), hopen]
  simp only [DefaultValue.unquoteLiteral, DefaultValue.between?, hlast]
  simp

end QuotedText

/-- A text for a check and one for the literal of a default. -/
structure OpaqueTexts where
  expression : Expression
  literal : QuotedText

namespace Clause

def withTexts (x : OpaqueTexts) : Clause → Clause
  | check _ => check x.expression
  | default _ => default ⟨.literal x.literal, []⟩
  | c => c

variable (x : OpaqueTexts) (c : Clause)

@[simp] theorem kind_withTexts : (c.withTexts x).kind = c.kind := by
  cases c <;> rfl

@[simp] theorem reference?_withTexts : (c.withTexts x).reference? = c.reference? := by
  cases c <;> rfl

end Clause

namespace ClauseLine

variable (c : ClauseLine) (x : OpaqueTexts)

def withTexts : ClauseLine :=
  { c with
    clauses := c.clauses.map (·.withTexts x)
    distinct := by simpa [Function.comp_def] using c.distinct }

/-- What a column shows of the check, if it stands among some clauses. -/
def checkShown (clauses : List Clause) : Text :=
  if .check ∈ clauses.map (·.kind) then (Clause.check x.expression).text else []

def typeShown : Text := c.type.text ++ checkShown x c.front

/-- The default that a column shows: what stands in the literal, or the literal and the check behind it. -/
def valueShown : Option Text :=
  match c.defaulted with
  | [] => none
  | _ :: back => some (if .check ∈ back.map (·.kind) then x.literal.text ++ checkShown x back else x.literal.content)

/-- The column with the texts shown in their places. -/
def columnShowing : Column :=
  { c.column with
    declaredType := .ofList (c.typeShown x)
    defaultValue := (c.valueShown x).map .ofList }

theorem checkText_withTexts {clauses : List Clause} (hdistinct : (clauses.map (·.kind)).Nodup) :
    checkText (clauses.map (·.withTexts x)) = checkShown x clauses := by
  induction clauses with
  | nil => rfl
  | cons d clauses ih =>
      obtain ⟨hd, hclauses⟩ := List.nodup_cons.mp hdistinct
      have hcons : checkText ((d :: clauses).map (·.withTexts x)) =
          checkText [d.withTexts x] ++ checkText (clauses.map (·.withTexts x)) := checkText_append [_] _
      rw [hcons, ih hclauses, checkShown, checkShown, List.map_cons]
      by_cases hcheck : .check = d.kind
      · have hnone : .check ∉ clauses.map (·.kind) := hcheck ▸ hd
        obtain ⟨e, rfl⟩ : ∃ e, d = .check e := by
          cases d with
          | check e => exact ⟨e, rfl⟩
          | _ => cases hcheck
        rw [if_neg hnone, if_pos (hcheck ▸ List.mem_cons_self), List.append_nil]
        exact List.append_nil _
      · have hnothing : checkText [d.withTexts x] = [] := by
          cases d with
          | check e => exact absurd rfl hcheck
          | _ => rfl
        rw [hnothing, List.nil_append]
        exact if_congr (by simp only [List.mem_cons, hcheck, false_or]) rfl rfl

theorem front_withTexts : (c.withTexts x).front = c.front.map (·.withTexts x) := by
  simp [front, withTexts, List.takeWhile_map, Function.comp_def]

theorem defaulted_withTexts : (c.withTexts x).defaulted = c.defaulted.map (·.withTexts x) := by
  simp [defaulted, withTexts, List.dropWhile_map, Function.comp_def]

theorem defaultValue_withTexts :
    (c.withTexts x).defaultText?.map (DefaultValue.clean true) = c.valueShown x := by
  have hdistinct : (c.defaulted.map (·.kind)).Nodup := c.distinct.sublist ((List.dropWhile_sublist _).map _)
  rw [defaultText?, defaulted_withTexts, valueShown]
  rcases c.defaulted_cases with hdefaulted | ⟨d, back, hdefaulted⟩
  · rw [hdefaulted]
    rfl
  · rw [hdefaulted, List.map_cons, List.nodup_cons] at hdistinct
    have hclause : (Clause.default d).withTexts x = .default ⟨.literal x.literal, []⟩ := rfl
    have htext : (Value.mk (.literal x.literal) []).text = x.literal.text := by
      rw [Value.text_eq, ValueBody.text_literal]
      exact List.append_nil _
    simp only [hdefaulted, List.map_cons, hclause, htext, checkText_withTexts x hdistinct.2, checkShown,
      Option.map_some]
    split
    · rw [x.literal.clean_text_check]
    · rw [List.append_nil, x.literal.clean_text]

theorem column_withTexts : (c.withTexts x).column = c.columnShowing x := by
  have hfront : (c.front.map (·.kind)).Nodup := c.distinct.sublist ((List.takeWhile_sublist _).map _)
  have hvalue : (c.withTexts x).defaultText?.map (fun raw => String.ofList (DefaultValue.clean true raw)) =
      (c.valueShown x).map .ofList := by
    rw [← defaultValue_withTexts, Option.map_map]
    rfl
  rw [column, hvalue, front_withTexts, checkText_withTexts x hfront]
  simp [columnShowing, column, withTexts, typeShown, string, Function.comp_def, List.findSome?_map]

end ClauseLine

/-- Another text in a literal or in the parentheses of a check is shown in its place and changes nothing else. -/
theorem ColumnTable.extract_withTexts (t : ColumnTable) (c : ClauseLine) (x y : OpaqueTexts)
    (hx : (c.withTexts x).Fits ∧ (c.withTexts x).Readable) (hy : (c.withTexts y).Fits ∧ (c.withTexts y).Readable) :
    Dialect.postgresql.extract (t.text (c.withTexts x).text) = t.schema (c.columnShowing x) ∧
      Dialect.postgresql.extract (t.text (c.withTexts y).text) = t.schema
        { c.columnShowing x with
          declaredType := .ofList (c.typeShown y)
          defaultValue := (c.valueShown y).map .ofList } := by
  rw [t.extract_text hx.1 hx.2, t.extract_text hy.1 hy.2, c.column_withTexts, c.column_withTexts]
  exact ⟨rfl, rfl⟩

/-- A table of notes, and a column of it. -/
def noteTable : ColumnTable where
  kind := .temporary
  ifNotExists := true
  target := ⟨false, .bare ⟨"notes".toList, by decide, by decide⟩⟩
  margin := .newLine 2

@[inherit_doc noteTable]
def noteLine : ClauseLine where
  name := .bare ⟨"line".toList, by decide, by decide⟩
  oneLine := by decide
  type := ⟨"text".toList, by decide, by decide, by decide, by decide, rfl, by decide⟩
  clauses := [.check .done, .primaryKey, .default ⟨.literal ⟨⟨[], by decide⟩, []⟩, []⟩, .notNull]
  distinct := by decide

@[inherit_doc noteTable]
def plainTexts : OpaqueTexts where
  expression := .plain "line > 0".toList (by decide) .done
  literal := ⟨⟨"none".toList, by decide⟩, []⟩

def wordyTexts : OpaqueTexts where
  expression := .plain "line <> ".toList (by decide) (.literal ⟨"REFERENCES a(b)".toList, by decide⟩
    (.group (.plain "NOT NULL".toList (by decide) .done) .done))
  literal := ⟨⟨"it".toList, by decide⟩, [⟨"s NOT NULL or PRIMARY KEY)".toList, by decide⟩]⟩

/-- The column of the notes with either texts. -/
theorem extract_noteTable :
    (((noteLine.withTexts plainTexts).Fits ∧ (noteLine.withTexts plainTexts).Readable) ∧
      (noteLine.withTexts wordyTexts).Fits ∧ (noteLine.withTexts wordyTexts).Readable) ∧
    (noteLine.withTexts wordyTexts).text = ("line text CHECK (line <> 'REFERENCES a(b)'(NOT NULL)) PRIMARY KEY" ++
        " DEFAULT 'it''s NOT NULL or PRIMARY KEY)' NOT NULL").toList ∧
    Dialect.postgresql.extract (noteTable.text (noteLine.withTexts plainTexts).text) =
      ⟨[⟨"notes", [
        { name := "line"
          declaredType := "text CHECK (line > 0)"
          isPrimaryKey := true
          isNullable := false
          defaultValue := some "none"
          foreignKey := none }]⟩]⟩ ∧
    Dialect.postgresql.extract (noteTable.text (noteLine.withTexts wordyTexts).text) =
      ⟨[⟨"notes", [
        { name := "line"
          declaredType := "text CHECK (line <> 'REFERENCES a(b)'(NOT NULL))"
          isPrimaryKey := true
          isNullable := false
          defaultValue := some "it''s NOT NULL or PRIMARY KEY)"
          foreignKey := none }]⟩]⟩ := by
  have hplain : (noteLine.withTexts plainTexts).Fits ∧ (noteLine.withTexts plainTexts).Readable :=
    ⟨⟨by decide, by decide, by decide⟩, by decide, by decide, by decide⟩
  have hwordy : (noteLine.withTexts wordyTexts).Fits ∧ (noteLine.withTexts wordyTexts).Readable :=
    ⟨⟨by decide, by decide, by decide⟩, by decide, by decide, by decide⟩
  have h := noteTable.extract_withTexts noteLine plainTexts wordyTexts hplain hwordy
  refine ⟨⟨hplain, hwordy⟩, by cbv, h.1.trans ?_, h.2.trans ?_⟩ <;> decide

end SchemaDump.PostgreSQL
