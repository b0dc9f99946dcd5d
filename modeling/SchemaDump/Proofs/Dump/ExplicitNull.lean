import SchemaDump.Proofs.Dump.ReferentialActions
import SchemaDump.Proofs.PostgreSQL.NoteColumn
/- Columns that are said to allow nulls. All columns do that are not marked otherwise, so a bare `NULL` on a line says
nothing about its column. Where the dialect keeps all that stands behind `DEFAULT`, it is a part of the default. -/
namespace SchemaDump

namespace PostgreSQL

variable {notes : List Note}

def nonNulls (notes : List Note) : List Note := notes.filter (!·.isNull)

theorem nonNulls_cons (note : Note) (notes : List Note) :
    nonNulls (note :: notes) = (if note.isNull then [] else [note]) ++ nonNulls notes := by
  rw [nonNulls, List.filter_cons]
  cases note.isNull <;> rfl

theorem nonNulls_eq_self (h : notes.any (·.isNull) = false) : nonNulls notes = notes :=
  List.filter_eq_self.mpr fun note hnote => by simpa using List.any_eq_false.mp h note hnote

theorem any_isOf_nonNulls (k : MarkKind) (notes : List Note) :
    (nonNulls notes).any (·.isOf k) = notes.any (·.isOf k) := by
  rw [nonNulls, List.any_filter]
  exact congrArg notes.any (funext fun note => by cases note <;> rfl)

theorem references_nonNulls (notes : List Note) :
    (nonNulls notes).filterMap (·.reference?) = notes.filterMap (·.reference?) := by
  induction notes with
  | nil => rfl
  | cons note notes ih =>
      rw [nonNulls_cons, List.filterMap_append, ih, ← List.filterMap_append]
      cases note with
      | null => rfl
      | mark name m => rfl
      | leftover n => rfl

theorem restText_nonNulls (notes : List Note) : restText true (nonNulls notes) = restText true notes := by
  induction notes with
  | nil => rfl
  | cons note notes ih =>
      rw [nonNulls_cons, restText_append, ih, ← restText_append]
      cases note with
      | null => rfl
      | mark name m => rfl
      | leftover n => rfl

/-- The notes without the nulls among them. -/
def dropNulls : NoteChange where
  apply := nonNulls
  nil := rfl
  written h note hnote := h note (List.mem_of_mem_filter hnote)
  references := references_nonNulls

/-- Marks leave nothing, `NOT NULL` excepted, so all that can be left of notes is their nulls. -/
theorem restText_of_no_notNull (bare : Bool) (h : ∀ note ∈ notes, note.isWritten)
    (hnot : notes.any (·.isOf .notNull) = false) :
    restText bare notes = if bare then [] else noteText (notes.filter (·.isNull)) := by
  induction notes with
  | nil => cases bare <;> rfl
  | cons note notes ih =>
      obtain ⟨hwritten, hrest⟩ := List.forall_mem_cons.mp h
      obtain ⟨hkind, hkinds⟩ := Bool.or_eq_false_iff.mp hnot
      rw [restText_cons, ih hrest hkinds, List.filter_cons]
      cases note with
      | null => cases bare <;> rfl
      | leftover n => cases hwritten
      | mark name m =>
          cases m with
          | notNull => cases hkind
          | primaryKey => cases name <;> rfl
          | references r => cases name <;> rfl

namespace NotedLine

variable (c : NotedLine)

def withoutNulls : NotedLine := c.changed dropNulls

theorem notes_withoutNulls : c.withoutNulls.notes = nonNulls c.notes := by
  rw [notes, notes, withoutNulls, back_changed, nonNulls, List.filter_append]
  rfl

theorem column_withoutNulls : c.column = { c.withoutNulls.column with defaultValue := c.column.defaultValue } := by
  have hreference : (nonNulls c.notes).findSome? (·.reference?) = c.notes.findSome? (·.reference?) := by
    rw [← List.head?_filterMap, ← List.head?_filterMap, references_nonNulls]
  have hfront : restText true c.withoutNulls.front = restText true c.front := restText_nonNulls c.front
  simp only [column, notes_withoutNulls, any_isOf_nonNulls, hreference, hfront]
  rfl

theorem column_withoutNulls_eq (h : c.back.any (·.isNull) = false) : c.column = c.withoutNulls.column := by
  have hdefault : c.withoutNulls.default = c.default := by
    have hnotes : ∀ d ∈ c.default, nonNulls d.notes = d.notes := by
      intro d hd
      rw [back, Option.mem_def.mp hd] at h
      exact nonNulls_eq_self h
    have hmap : (c.default.map fun d => { d with notes := nonNulls d.notes }) = c.default := by
      cases hd : c.default with
      | none => rfl
      | some d => rw [Option.map_some, hnotes d hd]
    exact hmap
  rw [c.column_withoutNulls]
  simp only [column, hdefault]

end NotedLine

end PostgreSQL

namespace MySQL

variable {attributes : List Attribute}

theorem NoEarlyDefault.withoutNull (h : NoEarlyDefault attributes) :
    NoEarlyDefault (attributes.filter fun a => a.kind ≠ .null) := by
  induction attributes with
  | nil => trivial
  | cons a attributes ih =>
      rw [List.filter_cons]
      split
      · rcases h with h | ⟨hno, h⟩
        · exact .inl h
        · refine .inr ⟨?_, ih h⟩
          cases attributes with
          | nil => exact hno
          | cons next attributes =>
              obtain ⟨d, u, htext, -⟩ := next.exists_text_eq
              rw [attributesText_cons, htext] at hno
              exact defaultOpening_take hno _
      · next hnull =>
        rcases h with h | ⟨-, h⟩
        · simp [h] at hnull
        · exact ih h

namespace AttributeLine

variable (c : AttributeLine)

/-- The line without its nulls. -/
def withoutNull : AttributeLine where
  name := c.name
  type := c.type
  attributes := c.attributes.filter fun a => a.kind ≠ .null
  distinct := c.distinct.sublist ((List.filter_sublist.map _).filter _)

theorem column_withoutNull : c.withoutNull.column = c.column := by
  simp only [column, withoutNull, contains_kind_filter (show AttributeKind.option .primaryKey ≠ .null by decide),
    contains_kind_filter (show AttributeKind.option .notNull ≠ .null by decide),
    findSome?_kind_filter Attribute.kind_of_value? (show AttributeKind.option .default ≠ .null by decide),
    findSome?_kind_filter Attribute.kind_of_reference? (show AttributeKind.references ≠ .null by decide)]

variable {c}

theorem Fits.withoutNull (h : c.Fits) : c.withoutNull.Fits := by
  intro t ht
  refine h t (List.mem_cons.mpr ((List.mem_cons.mp ht).imp_right fun ht => ?_))
  refine List.mem_append.mpr ((List.mem_append.mp ht).imp_right fun ht => ?_)
  obtain ⟨a, ha, ht⟩ := List.mem_flatMap.mp ht
  exact List.mem_flatMap.mpr ⟨a, List.mem_of_mem_filter ha, ht⟩

theorem Readable.withoutNull (h : c.Readable) : c.withoutNull.Readable where
  closed := h.closed
  quiet a ha := h.quiet a (List.filter_sublist.subset ha)
  settled := h.settled.sublist List.filter_sublist
  plain := by
    have hothers : c.withoutNull.others = c.others.filter fun a => a.kind ≠ .null := by
      rw [others, others, AttributeLine.withoutNull, List.filter_filter, List.filter_filter]
      exact List.filter_congr fun a _ => Bool.and_comm _ _
    exact hothers ▸ h.plain.withoutNull

end AttributeLine

end MySQL

/-- A column line in its place in a dump of a dialect. -/
inductive NullLine : Dialect → Type
  | postgresql (dump : PostgreSQL.DumpContext) (line : PostgreSQL.NotedLine)
      (noted : PostgreSQL.IsDefinition line.text) (bare : PostgreSQL.IsDefinition line.withoutNulls.text) :
      NullLine .postgresql
  | mysql (dump : MySQL.DumpContext) (line : MySQL.AttributeLine) (fits : line.Fits) : NullLine .mysql

namespace NullLine

def line : {d : Dialect} → NullLine d → Text
  | _, postgresql _ line _ _ => line.text
  | _, mysql _ line _ => line.text

def bareLine : {d : Dialect} → NullLine d → Text
  | _, postgresql _ line _ _ => line.withoutNulls.text
  | _, mysql _ line _ => line.withoutNull.text

def text : {d : Dialect} → NullLine d → Text
  | _, postgresql dump _ noted _ => (dump.fill noted).text
  | _, mysql dump _ fits => (dump.fill fits.isDefinition).text

def bareText : {d : Dialect} → NullLine d → Text
  | _, postgresql dump _ _ bare => (dump.fill bare).text
  | _, mysql dump _ fits => (dump.fill fits.withoutNull.isDefinition).text

def column : {d : Dialect} → NullLine d → Column
  | _, postgresql _ line _ _ => line.column
  | _, mysql _ line _ => line.column

/-- The column that the line defines without its nulls. -/
def bareColumn : {d : Dialect} → NullLine d → Column
  | _, postgresql _ line _ _ => line.withoutNulls.column
  | _, mysql _ line _ => line.withoutNull.column

/-- Whether a null stands behind a default that reaches up to the end of the line. -/
def nullBehindDefault : {d : Dialect} → NullLine d → Bool
  | _, postgresql _ line _ _ => line.back.any (·.isNull)
  | _, mysql _ _ _ => false

/-- Whether the line says that its column allows no nulls. -/
def isNotNull : {d : Dialect} → NullLine d → Bool
  | _, postgresql _ line _ _ => line.notes.any (·.isOf .notNull)
  | _, mysql _ line _ => (line.attributes.map (·.kind)).contains (.option .notNull)

def typeText : {d : Dialect} → NullLine d → Text
  | _, postgresql _ line _ _ => line.type.text
  | _, mysql _ line _ => line.type.text

/-- What the default says. In PostgreSQL the nulls behind it belong to it. -/
def default? : {d : Dialect} → NullLine d → Option Text
  | _, postgresql _ line _ _ => line.default.map fun d =>
      DefaultValue.clean true (d.value.text ++ PostgreSQL.noteText (d.notes.filter (·.isNull)))
  | _, mysql _ line _ => line.attributes.findSome? (·.value?)

/-- A line of which every clause is read as what it is. -/
def Readable : {d : Dialect} → NullLine d → Prop
  | _, postgresql _ line _ _ =>
      opensConstraint .postgresql line.head = false ∧ line.Readable ∧ line.withoutNulls.Readable
  | _, mysql _ line _ => line.Readable

/-- Whether the default is `NULL`, with no other null behind it. -/
def defaultsToNull : {d : Dialect} → NullLine d → Prop
  | _, postgresql _ line _ _ =>
      ∃ d ∈ line.default, d.value.text = "NULL".toList ∧ d.notes.any (·.isNull) = false
  | _, mysql _ line _ => ∃ a ∈ line.attributes, a.kind = .option .default ∧ a.text = " DEFAULT NULL".toList

variable {d : Dialect} (p : NullLine d)

/-- With its nulls and without them a line defines columns that differ at most in the default. -/
theorem definesColumn (h : p.Readable) : DefinesColumn d d.parseColumn? p.line p.column ∧
    DefinesColumn d d.parseColumn? p.bareLine p.bareColumn ∧
      p.column = { p.bareColumn with defaultValue := p.column.defaultValue } := by
  cases p with
  | postgresql _ line =>
      obtain ⟨hopens, hnoted, hbare⟩ := h
      exact ⟨hnoted.definesColumn hopens, hbare.definesColumn hopens, line.column_withoutNulls⟩
  | mysql _ line =>
      have hbare := (MySQL.AttributeLine.Readable.withoutNull h).definesColumn
      have hcolumn : line.column = { line.withoutNull.column with defaultValue := line.column.defaultValue } := by
        rw [line.column_withoutNull]
      exact ⟨MySQL.AttributeLine.Readable.definesColumn h, hbare, hcolumn⟩

/-- Where nothing forbids nulls, the type and the default are what they say. -/
theorem column_of_nullable (h : p.isNotNull = false) : p.column.isNullable = true ∧
    p.column.declaredType = .ofList p.typeText ∧ p.column.defaultValue = p.default?.map .ofList := by
  cases p with
  | mysql _ line => exact ⟨congrArg not h, rfl, rfl⟩
  | postgresql _ line =>
      have hall : line.notes.any (·.isOf .notNull) = false := h
      rw [PostgreSQL.NotedLine.notes, List.any_append, Bool.or_eq_false_iff] at hall
      refine ⟨congrArg not h, ?_, ?_⟩
      · have hfront := PostgreSQL.restText_of_no_notNull true line.written_front hall.1
        rw [if_pos rfl] at hfront
        simp only [column, PostgreSQL.NotedLine.column, hfront, List.append_nil, typeText]
      · have hback := PostgreSQL.restText_of_no_notNull false line.written_back hall.2
        rw [PostgreSQL.NotedLine.back] at hback
        simp only [column, PostgreSQL.NotedLine.column, default?]
        cases hdefault : line.default with
        | none => rfl
        | some d =>
            rw [hdefault] at hback
            have hkept : PostgreSQL.restText false d.notes = PostgreSQL.noteText (d.notes.filter (·.isNull)) := hback
            simp only [Option.map_some, PostgreSQL.NotedDefault.kept, hkept]

theorem default?_of_defaultsToNull (h : p.defaultsToNull) : p.default? = some "NULL".toList := by
  cases p with
  | mysql _ line =>
      obtain ⟨a, ha, hkind, hnull⟩ := h
      obtain ⟨t, value, htext, hdefault, hvalue⟩ := a.exists_default hkind
      have hwhole : " DEFAULT ".toList ++ "NULL".toList = " DEFAULT ".toList ++ t := hnull.symm.trans htext
      obtain rfl := List.append_cancel_left hwhole
      obtain rfl : "NULL".toList = value := hdefault.clean
      exact (findSome?_eq_some_iff_of_kind MySQL.Attribute.kind_of_value? (line.count_kind_le_one (by decide))).mpr
        ⟨a, ha, hvalue⟩
  | postgresql _ line =>
      obtain ⟨d, hd, hvalue, hnulls⟩ := h
      have hnone : d.notes.filter (·.isNull) = [] :=
        List.filter_eq_nil_iff.mpr fun note hnote => by simpa using List.any_eq_false.mp hnulls note hnote
      simp only [default?]
      rw [Option.mem_def.mp hd, Option.map_some, hvalue, hnone]
      decide

/-- A bare `NULL` says nothing about a column: the line defines the same column without it, and the dump has the same
schema, unless the `NULL` stands behind a default that reaches up to the end of the line. There it belongs to the
default, and only there; a default that is `NULL` is kept. -/
theorem extract_ignores_nulls (h : p.Readable) :
    DefinesColumn d d.parseColumn? p.line p.column ∧ DefinesColumn d d.parseColumn? p.bareLine p.bareColumn ∧
      p.column = { p.bareColumn with defaultValue := p.column.defaultValue } ∧
      (p.isNotNull = false → p.column.isNullable = true ∧ p.column.declaredType = .ofList p.typeText ∧
        p.column.defaultValue = p.default?.map .ofList ∧ (p.defaultsToNull → p.column.defaultValue = some "NULL")) ∧
      (p.nullBehindDefault = false → p.column = p.bareColumn ∧ d.extract p.text = d.extract p.bareText) := by
  obtain ⟨hline, hbare, hsame⟩ := p.definesColumn h
  refine ⟨hline, hbare, hsame, fun hnullable => ?_, fun hbehind => ?_⟩
  · obtain ⟨hnull, htype, hdefault⟩ := p.column_of_nullable hnullable
    refine ⟨hnull, htype, hdefault, fun hnull => ?_⟩
    rw [hdefault, p.default?_of_defaultsToNull hnull]
    rfl
  · have hcolumn : p.column = p.bareColumn := by
      cases p with
      | postgresql _ line => exact line.column_withoutNulls_eq hbehind
      | mysql _ line => exact line.column_withoutNull.symm
    refine ⟨hcolumn, ?_⟩
    rw [← hcolumn] at hbare
    cases p with
    | postgresql dump _ noted bare => exact dump.parse_congr noted bare hline hbare
    | mysql dump _ fits => exact dump.parse_congr fits.isDefinition fits.withoutNull.isDefinition hline hbare

end NullLine

open PostgreSQL in
/-- The client that an invoice goes to, if there is one. -/
def payerLine : NullLine .postgresql :=
  .postgresql invoiceDump
    { name := .bare ⟨"payer".toList, by decide, by decide⟩
      oneLine := by decide
      type := ⟨"bigint".toList, by decide, by decide, by decide, by decide, rfl, by decide⟩
      front := [.null]
      default := some
        { value := ⟨"NULL".toList, by decide, by decide, by decide, by decide, rfl⟩
          notes :=
            [.mark none (.references
              { target := ⟨none, .bare "clients".toList (by decide) (by decide)⟩
                oneLine := by decide
                spaced := false
                first := .rowId
                more := []
                actions := [] })] }
      written := by decide
      single := by decide }
    (by decide +kernel) (by decide +kernel)

open MySQL in
@[inherit_doc payerLine]
def optionalPayerLine : NullLine .mysql :=
  .mysql orderDump
    { name := .bare ⟨"payer".toList, by decide, by decide⟩ (by decide)
      type := ⟨"mediumint".toList, by decide, by decide, none, []⟩
      attributes :=
        [.null,
          .default (.token "NULL".toList (by decide) (by decide) (by decide)),
          .references { placedReference with table := .quoted ⟨"clients".toList, by decide, by decide⟩, actions := [] },
          .null]
      distinct := by decide }
    (by decide +kernel)

open MySQL in
/-- What an invoice says to its client, with a quote in the default. -/
def greetingLine : NullLine .mysql :=
  .mysql orderDump
    { name := .quoted ⟨"greeting".toList, by decide, by decide⟩
      type := ⟨"tinytext".toList, by decide, by decide, none, []⟩
      attributes :=
        [.null,
          .default (.literal .single "it''s due".toList
            (.char (by decide) (.char (by decide) (.doubled (.of_forall (by decide))))) (by decide)),
          .null,
          .null]
      distinct := by decide }
    (by decide +kernel)

theorem extract_payerLine :
    (payerLine.line = "payer bigint NULL DEFAULT NULL REFERENCES clients(id)".toList ∧
      payerLine.bareLine = "payer bigint DEFAULT NULL REFERENCES clients(id)".toList ∧
      payerLine.column =
        { name := "payer"
          declaredType := "bigint"
          defaultValue := some "NULL"
          foreignKey := some ⟨"payer", "clients", "id"⟩ } ∧
      payerLine.isNotNull = false ∧ payerLine.defaultsToNull ∧ payerLine.nullBehindDefault = false ∧
      Dialect.postgresql.extract payerLine.text = Dialect.postgresql.extract payerLine.bareText) ∧
    (optionalPayerLine.line = "payer mediumint NULL DEFAULT NULL REFERENCES \x60clients\x60 (\x60id\x60) NULL".toList ∧
      optionalPayerLine.bareLine = "payer mediumint DEFAULT NULL REFERENCES \x60clients\x60 (\x60id\x60)".toList ∧
      optionalPayerLine.column =
        { name := "payer"
          declaredType := "mediumint"
          defaultValue := some "NULL"
          foreignKey := some ⟨"payer", "clients", "id"⟩ } ∧
      optionalPayerLine.isNotNull = false ∧ optionalPayerLine.defaultsToNull ∧
      Dialect.mysql.extract optionalPayerLine.text = Dialect.mysql.extract optionalPayerLine.bareText) ∧
    (greetingLine.line = "\x60greeting\x60 tinytext NULL DEFAULT 'it''s due' NULL NULL".toList ∧
      greetingLine.bareLine = "\x60greeting\x60 tinytext DEFAULT 'it''s due'".toList ∧
      greetingLine.column =
        { name := "greeting"
          declaredType := "tinytext"
          defaultValue := some "it''s due" } ∧
      Dialect.mysql.extract greetingLine.text = Dialect.mysql.extract greetingLine.bareText) := by
  have hread : payerLine.Readable := ⟨by decide +kernel, by decide +kernel, by decide +kernel⟩
  have hoptional : optionalPayerLine.Readable := ⟨by decide, by decide +kernel, by decide +kernel, by decide +kernel⟩
  have hgreeting : greetingLine.Readable := ⟨by decide, by decide +kernel, by decide +kernel, by decide +kernel⟩
  have hnull : payerLine.defaultsToNull := ⟨_, rfl, rfl, by decide⟩
  have hnone : optionalPayerLine.defaultsToNull := ⟨_, List.mem_cons_of_mem _ List.mem_cons_self, rfl, by decide⟩
  exact ⟨⟨by decide +kernel, by decide +kernel, by decide +kernel, by decide, hnull, by decide,
      ((payerLine.extract_ignores_nulls hread).2.2.2.2 (by decide)).2⟩,
    ⟨by decide +kernel, by decide +kernel, by decide +kernel, by decide, hnone,
      ((optionalPayerLine.extract_ignores_nulls hoptional).2.2.2.2 (by decide)).2⟩,
    by decide +kernel, by decide +kernel, by decide +kernel,
      ((greetingLine.extract_ignores_nulls hgreeting).2.2.2.2 (by decide)).2⟩

/-- Behind a default a bare `NULL` is kept with it. -/
theorem extract_null_behind_default :
    Dialect.postgresql.extract "CREATE TABLE t (\n    a integer DEFAULT 0\n);".toList =
        ⟨[⟨"t", [{ name := "a", declaredType := "integer", defaultValue := some "0" }]⟩]⟩ ∧
      Dialect.postgresql.extract "CREATE TABLE t (\n    a integer DEFAULT 0 NULL\n);".toList =
        ⟨[⟨"t", [{ name := "a", declaredType := "integer", defaultValue := some "0 NULL" }]⟩]⟩ := by
  decide +kernel

end SchemaDump
