import SchemaDump.Proofs.PostgreSQL.NoteColumn
/- Marks with names. The name of a key or of a reference goes with it, so the column is the same without the name. That
of a `NOT NULL` stays: in front of a default it is taken for a part of the type, behind it for a part of the default. -/
namespace SchemaDump.PostgreSQL

variable {notes : List Note} {bare : Bool}

theorem reference?_unnamed (note : Note) : note.unnamed.reference? = note.reference? := by cases note <;> rfl

theorem isOf_unnamed (k : MarkKind) (note : Note) : note.unnamed.isOf k = note.isOf k := by cases note <;> rfl

/-- Of a note on a line a name is left, or nothing more than without it. -/
theorem rest_unnamed (bare : Bool) {note : Note} (h : note.isWritten) (hname : note.leavesName = false) :
    note.rest bare = note.unnamed.rest bare := by
  cases note with
  | null => rfl
  | leftover n => cases h
  | mark name m =>
      cases m with
      | primaryKey => cases name <;> rfl
      | references r => cases name <;> rfl
      | notNull =>
          cases name with
          | none => rfl
          | some n => cases hname

theorem restText_unnamed (bare : Bool) (h : ∀ note ∈ notes, note.isWritten)
    (hname : notes.any (·.leavesName) = false) :
    restText bare notes = restText bare (notes.map (·.unnamed)) := by
  rw [restText, restText, List.flatMap_map]
  refine List.flatMap_congr fun note hnote => ?_
  exact rest_unnamed bare (h note hnote) (by simpa using List.any_eq_false.mp hname note hnote)

theorem restText_true_unnamed (h : ∀ note ∈ notes, note.isWritten) :
    restText true (notes.map (·.unnamed)) = [] := by
  rw [restText, List.flatMap_map, List.flatMap_eq_nil_iff]
  intro note hnote
  have hwritten := h note hnote
  cases note with
  | null => rfl
  | leftover n => cases hwritten
  | mark name m => cases m <;> rfl

theorem restText_true_eq_nil_iff (h : ∀ note ∈ notes, note.isWritten) :
    restText true notes = [] ↔ notes.any (·.leavesName) = false := by
  constructor
  · intro hnil
    rw [List.any_eq_false]
    intro note hnote hname
    have hrest := List.flatMap_eq_nil_iff.mp hnil note hnote
    cases note with
    | null => cases hname
    | leftover n => cases hname
    | mark name m =>
        cases m with
        | primaryKey => cases name <;> cases hname
        | references r => cases name <;> cases hname
        | notNull =>
            cases name with
            | none => cases hname
            | some n =>
                cases n with
                | bare word plain => cases hrest
                | quoted word =>
                    rw [Note.rest, MarkName.rest] at hrest
                    split at hrest <;> cases hrest
  · intro hname
    rw [restText_unnamed true h hname, restText_true_unnamed h]

/-- The notes without their names. -/
def dropNames : NoteChange where
  apply notes := notes.map (·.unnamed)
  nil := rfl
  written h note hnote := by
    obtain ⟨note, hmem, rfl⟩ := List.mem_map.mp hnote
    have hwritten := h note hmem
    cases note with
    | null => rfl
    | mark => rfl
    | leftover => cases hwritten
  references notes := by
    rw [List.filterMap_map]
    exact congrArg (List.filterMap · notes) (funext reference?_unnamed)

namespace NotedLine

variable (c : NotedLine)

def unnamed : NotedLine := c.changed dropNames

theorem notes_unnamed : c.unnamed.notes = c.notes.map (·.unnamed) := by
  rw [notes, notes, unnamed, back_changed, List.map_append]
  rfl

theorem column_unnamed : c.column =
    { c.unnamed.column with declaredType := c.column.declaredType, defaultValue := c.column.defaultValue } := by
  have hmarks : ∀ k, (c.notes.map (·.unnamed)).any (·.isOf k) = c.notes.any (·.isOf k) := fun k => by
    rw [List.any_map]
    exact congrArg c.notes.any (funext (isOf_unnamed k))
  have hreference : (c.notes.map (·.unnamed)).findSome? (·.reference?) = c.notes.findSome? (·.reference?) := by
    rw [List.findSome?_map]
    exact congrArg (List.findSome? · c.notes) (funext reference?_unnamed)
  simp only [column, notes_unnamed, hmarks, hreference]
  rfl

theorem declaredType_unnamed : c.unnamed.column.declaredType = .ofList c.type.text := by
  have hfront : restText true c.unnamed.front = [] := restText_true_unnamed c.written_front
  simp only [column, hfront, List.append_nil]
  rfl

theorem declaredType_eq_iff :
    c.column.declaredType = c.unnamed.column.declaredType ↔ c.front.any (·.leavesName) = false := by
  rw [declaredType_unnamed, column, String.ofList_inj, List.append_right_eq_self]
  exact restText_true_eq_nil_iff c.written_front

theorem column_unnamed_eq (h : c.notes.any (·.leavesName) = false) : c.column = c.unnamed.column := by
  rw [notes, List.any_append, Bool.or_eq_false_iff] at h
  have htype := c.declaredType_eq_iff.mpr h.1
  have hdefault : c.column.defaultValue = c.unnamed.column.defaultValue := by
    have hback := restText_unnamed false c.written_back h.2
    simp only [column, unnamed, changed, dropNames]
    rw [back] at hback
    cases hd : c.default with
    | none => rfl
    | some d =>
        rw [hd] at hback
        have hkept : restText false d.notes = restText false (d.notes.map (·.unnamed)) := hback
        simp only [Option.map_some, NotedDefault.kept, hkept]
  rw [c.column_unnamed, htype, hdefault]

end NotedLine

/-- A line defines the same column without the names of its marks, and the dump has the same schema, unless a
`NOT NULL` has a name. -/
theorem DumpContext.extract_ignores_names (d : DumpContext) (c : NotedLine)
    (hopens : opensConstraint .postgresql c.head = false) (h : c.Readable) (hunnamed : c.unnamed.Readable)
    (named : IsDefinition c.text) (unnamed : IsDefinition c.unnamed.text) :
    DefinesColumn .postgresql parseColumn? c.text c.column ∧
      DefinesColumn .postgresql parseColumn? c.unnamed.text c.unnamed.column ∧
      c.column = { c.unnamed.column with
        declaredType := c.column.declaredType
        defaultValue := c.column.defaultValue } ∧
      (c.column.declaredType = c.unnamed.column.declaredType ↔ c.front.any (·.leavesName) = false) ∧
      (c.notes.any (·.leavesName) = false → c.column = c.unnamed.column ∧
        Dialect.postgresql.extract (d.fill named).text = Dialect.postgresql.extract (d.fill unnamed).text) := by
  have hdefines := h.definesColumn hopens
  have hbare := hunnamed.definesColumn hopens
  refine ⟨hdefines, hbare, c.column_unnamed, c.declaredType_eq_iff, fun hname => ?_⟩
  have hcolumn := c.column_unnamed_eq hname
  rw [← hcolumn] at hbare
  exact ⟨hcolumn, d.parse_congr named unnamed hdefines hbare⟩

/-- The debtor of an invoice, with names for the key and for the reference. -/
def namedDebtorLine : NotedLine where
  name := .bare ⟨"debtor".toList, by decide, by decide⟩
  oneLine := by decide
  type := ⟨"smallint".toList, by decide, by decide, by decide, by decide, rfl, by decide⟩
  front :=
    [.mark (some (.bare ⟨"debtor_known".toList, by decide, by decide⟩ (by decide)))
      (.references
        { target := ⟨none, .bare "debtors".toList (by decide) (by decide)⟩
          oneLine := by decide
          spaced := false
          first := .rowId
          more := []
          actions := [] }),
      .mark none .notNull]
  default := some
    { value := ⟨"1".toList, by decide, by decide, by decide, by decide, rfl⟩
      notes := [.mark (some (.quoted ⟨"NOT".toList, by decide, by decide⟩)) .primaryKey] }
  written := by decide
  single := by decide

theorem extract_namedDebtorLine :
    ∃ (named : IsDefinition namedDebtorLine.text) (unnamed : IsDefinition namedDebtorLine.unnamed.text),
      namedDebtorLine.text =
        ("debtor smallint CONSTRAINT debtor_known REFERENCES debtors(id) NOT NULL" ++
          " DEFAULT 1 CONSTRAINT \"NOT\" PRIMARY KEY").toList ∧
      namedDebtorLine.unnamed.text =
        "debtor smallint REFERENCES debtors(id) NOT NULL DEFAULT 1 PRIMARY KEY".toList ∧
      namedDebtorLine.column =
        { name := "debtor"
          declaredType := "smallint"
          isPrimaryKey := true
          isNullable := false
          defaultValue := some "1"
          foreignKey := some ⟨"debtor", "debtors", "id"⟩ } ∧
      namedDebtorLine.column = namedDebtorLine.unnamed.column ∧
      Dialect.postgresql.extract (invoiceDump.fill named).text =
        Dialect.postgresql.extract (invoiceDump.fill unnamed).text := by
  have hnamed : IsDefinition namedDebtorLine.text := by decide +kernel
  have hunnamed : IsDefinition namedDebtorLine.unnamed.text := by decide +kernel
  have hsame := invoiceDump.extract_ignores_names namedDebtorLine (by decide +kernel) (by decide +kernel)
    (by decide +kernel) hnamed hunnamed
  exact ⟨hnamed, hunnamed, by decide +kernel, by decide +kernel, by decide +kernel, hsame.2.2.2.2 (by decide)⟩

/-- The name of a `NOT NULL` stays. -/
example :
    (parseColumn? "a integer CONSTRAINT nn NOT NULL".toList).map (·.declaredType) = some "integer CONSTRAINT nn" := by
  decide +kernel

end SchemaDump.PostgreSQL
