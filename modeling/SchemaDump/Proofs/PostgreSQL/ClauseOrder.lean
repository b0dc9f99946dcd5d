import SchemaDump.Proofs.PostgreSQL.ClauseTable
/- Clauses in any order. Whatever order they stand in, clauses define the same column if none of them holds a
text that could be taken for a clause: a literal with the words of a mark in it, or the name of a table with
`DEFAULT` between blanks. -/
namespace SchemaDump.PostgreSQL
open SqlPattern Pattern

variable {before : Option Char} {v : Text} {clauses : List Clause}

def Value.isPlain (d : Value) : Bool :=
  match d.body with
  | .literal q => markWords.all fun word => !hasWord word q.text
  | _ => true

namespace Clause

def isPlain : Clause → Bool
  | notNull | primaryKey => true
  | references r => !defaultOpening.occursIn (r.text ++ [' '])
  | check _ => false
  | default d => d.isPlain

def value? : Clause → Option Value
  | default d => some d
  | _ => none

theorem kind_of_reference? {c : Clause} {r : DeclaredReference} (h : c.reference? = some r) :
    c.kind = .mark .reference := by
  cases c <;> first | rfl | cases h

theorem kind_of_value? {c : Clause} {d : Value} (h : c.value? = some d) : c.kind = .default := by
  cases c <;> first | rfl | cases h

theorem kind_ne_check {c : Clause} (h : c.isPlain = true) : c.kind ≠ .check := by
  cases c with
  | check => cases h
  | _ => exact fun hkind => nomatch hkind

/-- No default is read in a clause of another kind. -/
theorem silent_defaultOpening {c : Clause} (h : c.isPlain = true) (hdefault : c.kind ≠ .default) :
    defaultOpening.Silent before c.text (' ' :: v) := by
  have hmark : ∀ {u : Text}, hasWord "DEFAULT" u = false → (∀ d ∈ u.getLast?, isBlank d = false) →
      defaultOpening.Silent before u (' ' :: v) := fun hno hsolid =>
    opensWith_defaultOpening.silent_of_no_word (by decide) (fun word hword => List.mem_singleton.mp hword ▸ hno)
      hsolid (stops_cons.mpr (by decide))
  cases c with
  | notNull =>
      rw [text_notNull]
      exact hmark (by decide) (by decide)
  | primaryKey =>
      rw [text_primaryKey]
      exact hmark (by decide) (by decide)
  | references r =>
      rw [text_references]
      exact PostgreSQL.silent_defaultOpening (fun d hd => (r.endsSolid d hd).1) (by decide) (by simpa [isPlain] using h)
  | check => cases h
  | default => exact absurd rfl hdefault

theorem silent_opaqueText {c : Clause} (h : c.isPlain = true) (k : MarkKind) (hv : Stops isWordChar v) :
    k.marker.Silent (lastOf none c.head) c.opaqueText v := by
  cases c with
  | notNull => exact silent_nil v
  | primaryKey => exact silent_nil v
  | references => exact silent_nil v
  | check => cases h
  | default d =>
      have hall : d.isPlain = true := h
      rw [Value.isPlain] at hall
      cases hbody : d.body with
      | word => simp [opaqueText, hbody, ValueBody.opaqueText]
      | unspaced => simp [opaqueText, hbody, ValueBody.opaqueText]
      | literal q =>
          rw [hbody] at hall
          have hmarks : ∀ word ∈ k.words, word ∈ markWords := by cases k <;> decide
          have hsolid : ∀ e ∈ q.text.getLast?, isBlank e = false := fun e he =>
            ((ValueBody.literal q).endsSolid e he).1
          have hsilent : k.marker.Silent none q.text v := (opensWith_marker k).silent_of_no_word (lettered_words k)
            (fun word hword => by simpa using List.all_eq_true.mp hall word (hmarks word hword)) hsolid hv
          have hhead : lastOf none (default d).head = some '\'' := by
            rw [head, hbody]
            rfl
          rw [hhead, opaqueText, hbody]
          exact (silent_cons.mp hsilent).2

end Clause

theorem settled_of_plain (h : ∀ c ∈ clauses, c.isPlain = true) : Settled clauses := by
  induction clauses with
  | nil => trivial
  | cons c clauses ih =>
      obtain ⟨hc, hclauses⟩ := List.forall_mem_cons.mp h
      refine ⟨fun rest _ kind => readsWithin_of_silent (Clause.silent_opaqueText hc kind ?_), ih hclauses⟩
      cases c with
      | default d => exact Value.stops_casts d.casts (stops_clauseText rest)
      | notNull => exact stops_clauseText rest
      | primaryKey => exact stops_clauseText rest
      | references => exact stops_clauseText rest
      | check => exact stops_clauseText rest

theorem no_default_of_plain (h : ∀ c ∈ clauses, c.isPlain = true) (hdefault : ∀ c ∈ clauses, c.kind ≠ .default) :
    defaultOpening.occursIn (clauseText clauses ++ [' ']) = false := by
  have hblank : ∀ before, defaultOpening.Silent before [' '] [] := fun _ =>
    opensWith_defaultOpening.silent_blanks (by decide) (by decide) (stops_nil _)
  have hclauses : ∀ before, defaultOpening.Silent before (clauseText clauses) ([' '] ++ []) := by
    induction clauses with
    | nil => exact fun _ => silent_nil _
    | cons c clauses ih =>
        obtain ⟨hc, hrest⟩ := List.forall_mem_cons.mp h
        obtain ⟨hcdefault, hrestdefault⟩ := List.forall_mem_cons.mp hdefault
        obtain ⟨w, hw⟩ : ∃ w, clauseText clauses ++ ([' '] ++ []) = ' ' :: w := by
          cases clauses with
          | nil => exact ⟨[], rfl⟩
          | cons next clauses =>
              obtain ⟨w, hw⟩ := next.exists_text_eq
              exact ⟨next.word.toList ++ (' ' :: w ++ (clauseText clauses ++ [' '])), by simp [clauseText_cons, hw]⟩
        intro before
        have hfirst : defaultOpening.Silent before c.text (clauseText clauses ++ ([' '] ++ [])) := by
          rw [hw]
          exact Clause.silent_defaultOpening hc hcdefault
        exact hfirst.append (ih hrest hrestdefault _)
  exact occursIn_eq_false_of_silent (consumes_of_not_nullable rfl) ((hclauses none).append (hblank _))

theorem checkText_of_plain (h : ∀ c ∈ clauses, c.isPlain = true) : ClauseLine.checkText clauses = [] := by
  have hnone : clauses.filter (·.kind = .check) = [] :=
    List.filter_eq_nil_iff.mpr fun c hc => by simpa using Clause.kind_ne_check (h c hc)
  rw [ClauseLine.checkText, hnone]
  rfl

namespace ClauseLine

variable (c : ClauseLine)

def reordered (clauses : List Clause) (horder : clauses.Perm c.clauses) : ClauseLine :=
  { c with clauses, distinct := (horder.map _).nodup_iff.mpr c.distinct }

/-- The column of plain clauses in whatever order they stand. -/
def plainColumn : Column where
  name := c.string
  declaredType := .ofList c.type.text
  isPrimaryKey := (c.clauses.map (·.kind)).contains (.mark .primaryKey)
  isNullable := !(c.clauses.map (·.kind)).contains (.mark .notNull)
  defaultValue := (c.clauses.findSome? (·.value?)).map fun d => .ofList (DefaultValue.clean true d.text)
  foreignKey := (c.clauses.findSome? (·.reference?)).map fun r =>
    ⟨c.string, .ofList (Spelling.shortName r.target.address), r.first.string⟩

variable {c}

theorem readable_of_plain (h : ∀ d ∈ c.clauses, d.isPlain = true) : c.Readable := by
  have hfront : ∀ d ∈ c.front, d.isPlain = true := fun d hd => h d ((List.takeWhile_prefix _).subset hd)
  exact
    { plain := no_default_of_plain hfront (kind_ne_default c.front_noDefault)
      front := settled_of_plain hfront
      defaulted := settled_of_plain fun d hd => h d ((List.dropWhile_suffix _).subset hd) }

theorem column_of_plain (h : ∀ d ∈ c.clauses, d.isPlain = true) : c.column = c.plainColumn := by
  have hfront : ∀ d ∈ c.front, d.isPlain = true := fun d hd => h d ((List.takeWhile_prefix _).subset hd)
  have hvalue : c.defaultText? = (c.clauses.findSome? (·.value?)).map (·.text) := by
    have hnone : c.front.findSome? (·.value?) = none :=
      List.findSome?_eq_none_iff.mpr fun d hd => Option.eq_none_iff_forall_ne_some.mpr fun value hvalue =>
        kind_ne_default c.front_noDefault d hd (Clause.kind_of_value? hvalue)
    rw [← c.clauses_eq, List.findSome?_append, hnone, Option.none_or]
    rcases c.defaulted_cases with hdefaulted | ⟨d, back, hdefaulted⟩
    · rw [defaultText?, hdefaulted]
      rfl
    · have hback : checkText back = [] := checkText_of_plain fun e he => h e <| by
        rw [← c.clauses_eq, hdefaulted]
        exact List.mem_append_right _ (List.mem_cons_of_mem _ he)
      simp [defaultText?, hdefaulted, hback, Clause.value?]
  rw [column, checkText_of_plain hfront, hvalue, plainColumn, List.append_nil, Option.map_map]
  rfl

theorem plainColumn_reordered {clauses : List Clause} (horder : clauses.Perm c.clauses) :
    (c.reordered clauses horder).plainColumn = c.plainColumn := by
  have hcontains : ∀ kind, (clauses.map (·.kind)).contains kind = (c.clauses.map (·.kind)).contains kind :=
    fun kind => (horder.map _).contains_eq
  have hsingle := fun kind => List.nodup_iff_count_le_one.mp c.distinct kind
  simp only [plainColumn, reordered, hcontains, findSome?_perm Clause.kind_of_value? (hsingle _) horder,
    findSome?_perm Clause.kind_of_reference? (hsingle _) horder]
  rfl

theorem Fits.reordered (h : c.Fits) {clauses : List Clause} (horder : clauses.Perm c.clauses) :
    (c.reordered clauses horder).Fits where
  head := h.head
  clauses d hd := h.clauses d (horder.mem_iff.mp hd)
  opensNone := h.opensNone

end ClauseLine

/-- Plain clauses may stand in any order: the table has the same column. -/
theorem ColumnTable.extract_reordered (t : ColumnTable) (c : ClauseLine) (hfits : c.Fits)
    (hplain : ∀ d ∈ c.clauses, d.isPlain = true) {clauses : List Clause} (horder : clauses.Perm c.clauses) :
    Dialect.postgresql.extract (t.text (c.reordered clauses horder).text) = t.schema c.plainColumn := by
  have hall : ∀ d ∈ (c.reordered clauses horder).clauses, d.isPlain = true := fun d hd =>
    hplain d (horder.mem_iff.mp hd)
  rw [t.extract_text (hfits.reordered horder) (ClauseLine.readable_of_plain hall), ClauseLine.column_of_plain hall,
    ClauseLine.plainColumn_reordered]

/-- A table of orders, and a column of it. -/
def orderTable : ColumnTable where
  kind := .permanent
  ifNotExists := false
  target := ⟨true, .bare ⟨['o', 'r', 'd', 'e', 'r', 's'], by decide, by decide⟩⟩
  margin := .newLine 4

@[inherit_doc orderTable]
def orderLine : ClauseLine where
  name := .bare ⟨"price".toList, by decide, by decide⟩
  oneLine := by decide
  type := ⟨"numeric(10,2)".toList, by decide, by decide, by decide, by decide, rfl, by decide⟩
  clauses :=
    [.default ⟨.literal ⟨⟨"5".toList, by decide⟩, []⟩,
        [⟨"numeric".toList, by decide, by decide, by decide, by decide, rfl, by decide⟩]⟩,
      .references
        { target := ⟨none, .quoted "Price List".toList (by decide) (by decide)⟩
          oneLine := by decide
          spaced := false
          first := .rowId
          more := []
          actions := [⟨.delete, .setNull⟩] },
      .notNull, .primaryKey]
  distinct := by decide

/-- The clauses from the last one to the first one. -/
theorem extract_orderTable :
    (orderLine.Fits ∧ ∀ d ∈ orderLine.clauses, d.isPlain = true) ∧
      clauseText orderLine.clauses.reverse = (" PRIMARY KEY NOT NULL REFERENCES \"Price List\"(id)" ++
        " ON DELETE SET NULL DEFAULT '5'::numeric").toList ∧
      Dialect.postgresql.extract
          (orderTable.text (orderLine.reordered orderLine.clauses.reverse (List.reverse_perm _)).text) =
        ⟨[⟨"orders", [
          { name := "price"
            declaredType := "numeric(10,2)"
            isPrimaryKey := true
            isNullable := false
            defaultValue := some "5"
            foreignKey := some ⟨"price", "Price List", "id"⟩ }]⟩]⟩ := by
  have hfits : orderLine.Fits := ⟨by decide, by decide, by decide⟩
  have hplain : ∀ d ∈ orderLine.clauses, d.isPlain = true := by decide
  refine ⟨⟨hfits, hplain⟩, by decide, ?_⟩
  rw [orderTable.extract_reordered orderLine hfits hplain (List.reverse_perm _)]
  decide

end SchemaDump.PostgreSQL
