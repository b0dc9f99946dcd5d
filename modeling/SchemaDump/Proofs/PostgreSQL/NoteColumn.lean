import SchemaDump.Proofs.PostgreSQL.ActedTable
import SchemaDump.Proofs.PostgreSQL.NoteRemoval
/- Columns with notes. The type is read up to the default, the default up to the `NOT NULL` at the end of the line;
what is marked in either of them is marked on the column, and what is left of the notes is kept. -/
namespace SchemaDump.PostgreSQL
open SqlPattern Pattern

variable {before : Option Char} {t u v w : Text} {k : MarkKind} {notes : List Note} {note : Note} {bare : Bool}

theorem InlineMark.endsSolid (m : InlineMark) : EndsSolid m.text := m.clause.endsSolid

theorem InlineMark.not_mem_break (m : InlineMark) : '\n' ∉ m.text := m.clause.not_mem_break

namespace MarkName

variable (n : MarkName)

theorem endsSolid : EndsSolid n.text := by
  have hquote : EndsSolid ['"'] := by decide
  cases n with
  | bare word plain => exact (endsSolid_word word).behind word.nonempty opening
  | quoted word =>
      have hend := hquote.behind (by decide) (opening ++ '"' :: word.text)
      simpa [text, identifier] using hend

theorem not_mem_break : '\n' ∉ n.text := by
  have hword : ∀ word : Word, '\n' ∉ word.text := fun word hmem => ne_of_isWordChar (by decide) (word.chars _ hmem) rfl
  have hopening : '\n' ∉ opening := by decide
  cases n with
  | bare word plain => exact fun hmem => (List.mem_append.mp hmem).elim hopening (hword word)
  | quoted word => simp [text, identifier, hopening, hword word]

theorem silent_notNullTail (hv : Stops isWordChar v) : notNullTail.Silent before n.text v :=
  PostgreSQL.silent_notNullTail
    (silent_text opensWith_notNullOption (by decide) (by decide) (avoids_of_blankAhead (by decide) fun _ h => h) hv)
    fun c hc => (n.endsSolid c hc).1

end MarkName

namespace Note

variable (note : Note)

theorem endsSolid : EndsSolid note.text := by
  cases note with
  | null => decide
  | leftover n => exact n.endsSolid
  | mark name m =>
      have hname : EndsSolid (nameText name) := by
        cases name with
        | none => exact fun c hc => nomatch hc
        | some n => exact n.endsSolid
      exact hname.append m.endsSolid

theorem not_mem_break : '\n' ∉ note.text := by
  cases note with
  | null => decide
  | leftover n => exact n.not_mem_break
  | mark name m =>
      have hname : '\n' ∉ nameText name := by
        cases name with
        | none => exact List.not_mem_nil
        | some n => exact n.not_mem_break
      exact fun hmem => (List.mem_append.mp hmem).elim hname m.not_mem_break

theorem exists_solid : ∃ e ∈ note.text, isBlank e = false := by
  obtain ⟨word, hword, w, hw⟩ := note.exists_text_eq
  have hwords : ∀ word ∈ openings, word.toList ≠ [] ∧ ∀ e ∈ word.toList, isBlank e = false := by decide
  obtain ⟨hne, hsolid⟩ := hwords word hword
  obtain ⟨e, rest, he⟩ := List.exists_cons_of_ne_nil hne
  refine ⟨e, ?_, hsolid e (he ▸ List.mem_cons_self)⟩
  rw [hw, he]
  exact List.mem_cons_of_mem ' ' List.mem_cons_self

/-- The end of a line is not read in a note, be it `NOT NULL`, as long as something stands behind that. -/
theorem silent_notNullTail (hv : Stops isWordChar v) (hlast : note.isOf .notNull → ∃ e ∈ v, isBlank e = false) :
    notNullTail.Silent before note.text v := by
  cases note with
  | null =>
      refine PostgreSQL.silent_notNullTail ?_ (by decide)
      exact opensWith_notNullOption.silent_of_no_word (by decide) (by decide) (by decide) hv
  | leftover n => exact n.silent_notNullTail hv
  | mark name m =>
      have hmark : ∀ before, notNullTail.Silent before m.text v := by
        intro before
        have hclause : notNullTail.Silent before (m.clause.acted []) v := by
          refine silent_notNullTail_clause m.clause hv ?_ fun hkind => hlast ?_
          · rw [m.clause_kind]
            exact fun h => nomatch h
          · rw [m.clause_kind] at hkind
            exact decide_eq_true (ClauseKind.mark.inj hkind)
        rwa [Clause.acted_nil] at hclause
      have hstops : Stops isWordChar (m.text ++ v) := by
        obtain ⟨rest, hrest⟩ := m.exists_text_eq
        rw [hrest]
        exact stops_cons.mpr (by decide)
      cases name with
      | none => exact hmark before
      | some n => exact (n.silent_notNullTail hstops).append (hmark _)

end Note

theorem endsSolid_noteText (notes : List Note) : EndsSolid (noteText notes) :=
  endsSolid_flatMap (fun note => note.endsSolid) notes

theorem not_mem_break_noteText (notes : List Note) : '\n' ∉ noteText notes := by
  intro hmem
  obtain ⟨note, -, hmem⟩ := List.mem_flatMap.mp hmem
  exact note.not_mem_break hmem

theorem endsSolid_restText (bare : Bool) (notes : List Note) : EndsSolid (restText bare notes) := by
  have hname : ∀ n : MarkName, EndsSolid (n.rest bare) := by
    intro n
    cases n with
    | bare word plain => exact (MarkName.bare word plain).endsSolid
    | quoted word =>
        rw [MarkName.rest]
        split
        · exact EndsSolid.behind (v := ['"']) (by decide) (by decide) (MarkName.opening ++ ['"'])
        · exact (MarkName.quoted word).endsSolid
  have hnil : EndsSolid [] := by decide
  refine endsSolid_flatMap (fun note => ?_) notes
  cases note with
  | null => cases bare <;> decide
  | leftover n => exact hname n
  | mark name m =>
      cases m with
      | primaryKey => cases name <;> exact hnil
      | references => cases name <;> exact hnil
      | notNull =>
          cases name with
          | none => exact hnil
          | some n => exact hname n

theorem silent_notNullTail_notes (hv : Stops isWordChar v)
    (hlast : (∀ note ∈ notes.getLast?, note.isOf .notNull = false) ∨ ∃ e ∈ v, isBlank e = false) :
    notNullTail.Silent before (noteText notes) v := by
  induction notes generalizing before with
  | nil => exact silent_nil v
  | cons note notes ih =>
      have hlast' : (∀ note ∈ notes.getLast?, note.isOf .notNull = false) ∨ ∃ e ∈ v, isBlank e = false := by
        refine hlast.imp_left fun h next hnext => h next ?_
        rw [List.getLast?_cons, Option.mem_def.mp hnext]
        rfl
      rw [noteText_cons]
      refine Silent.append (note.silent_notNullTail (stops_noteText_append notes hv) fun hkind => ?_) (ih hlast')
      cases notes with
      | nil => exact hlast.elim (fun h => absurd hkind (by simp [h note rfl])) id
      | cons next notes =>
          obtain ⟨e, he, hsolid⟩ := next.exists_solid
          exact ⟨e, List.mem_append_left v (List.mem_append_left _ he), hsolid⟩

/-- How notes are parted from the `NOT NULL` that a line may end with. -/
structure Captures (notes inner : List Note) (notNull : Bool) : Prop where
  text : noteText notes = noteText inner ++ ColumnLine.notNullText notNull
  arranged : Arranged inner
  last : (∀ note ∈ inner.getLast?, note.isOf .notNull = false) ∨
    ∃ e ∈ ColumnLine.notNullText notNull, isBlank e = false
  rest : ∀ bare, restText bare inner = restText bare notes
  references : inner.filterMap (·.reference?) = notes.filterMap (·.reference?)
  markers : notedMarkers notes = (notedMarkers inner).merge { notNull }

theorem restText_append (bare : Bool) (front back : List Note) :
    restText bare (front ++ back) = restText bare front ++ restText bare back := List.flatMap_append

theorem notedMarkers_append (front back : List Note) :
    notedMarkers (front ++ back) = (notedMarkers front).merge (notedMarkers back) := by
  simp only [merge_eq, notedMarkers, List.any_append, List.findSome?_append, Option.map_or]

theorem markers_leftovers (name : Option MarkName) : notedMarkers (Note.leftovers .notNull name) = {} := by
  cases name <;> rfl

theorem captures_notNull {front : List Note} (name : Option MarkName) (h : ∀ note ∈ front, note.isWritten) :
    Captures (front ++ [.mark name .notNull]) (front ++ Note.leftovers .notNull name) true where
  text := by
    rw [noteText_append, noteText_append, List.append_assoc]
    cases name with
    | none => rfl
    | some n =>
        have htext : noteText (Note.leftovers .notNull (some n)) = n.text := List.append_nil _
        rw [htext]
        exact congrArg (noteText front ++ ·) (List.append_nil _)
  arranged := by
    refine List.pairwise_append.mpr ⟨arranged_of_written h, ?_, fun note hnote _ _ => h note hnote⟩
    cases name with
    | none => exact .nil
    | some n => exact List.pairwise_singleton _ _
  last := .inr ⟨'N', by decide, by decide⟩
  rest bare := by
    rw [restText_append, restText_append]
    cases name <;> rfl
  references := by
    rw [List.filterMap_append, List.filterMap_append]
    cases name <;> rfl
  markers := by
    rw [notedMarkers_append, notedMarkers_append, markers_leftovers, merge_assoc]
    rfl

theorem captures (h : ∀ note ∈ notes, note.isWritten) :
    Captures notes (capturedNotes notes).1 (capturedNotes notes).2 := by
  have hwhole : (∀ note ∈ notes.getLast?, note.isOf .notNull = false) → Captures notes notes false := fun hlast =>
    { text := (List.append_nil _).symm
      arranged := arranged_of_written h
      last := .inl hlast
      rest := fun _ => rfl
      references := rfl
      markers := by simp [merge_eq] }
  rcases List.eq_nil_or_concat notes with rfl | ⟨front, note, rfl⟩
  · exact hwhole fun _ hnote => nomatch hnote
  · rw [List.concat_eq_append] at h hwhole ⊢
    rw [List.getLast?_concat] at hwhole
    have hlast : note.isOf .notNull = false → Captures (front ++ [note]) (front ++ [note]) false := fun hkind =>
      hwhole fun _ hmem => Option.some.inj hmem ▸ hkind
    have hfront : ∀ note ∈ front, note.isWritten := fun note hnote => h note (List.mem_append_left _ hnote)
    rw [capturedNotes, List.getLast?_concat, List.dropLast_concat]
    cases note with
    | null => exact hlast rfl
    | leftover n => exact hlast rfl
    | mark name m =>
        cases m with
        | notNull => exact captures_notNull name hfront
        | primaryKey => exact hlast rfl
        | references r => exact hlast rfl

theorem annotated_type (type : TypeText) (h : Arranged notes) (hsingle : (notes.filterMap (·.reference?)).length ≤ 1) :
    Annotated type.text notes where
  balanced := type.balanced
  passes k := passes_of_silent (type.silent (opensWith_marker k) (reserved_words k) (stops_noteText _))
  arranged := h
  single := hsingle

theorem take_noted (type : TypeText) (h : Arranged notes) (hsingle : (notes.filterMap (·.reference?)).length ≤ 1) :
    Markers.take true (type.text ++ noteText notes) = (type.text ++ restText true notes, notedMarkers notes) := by
  refine take_notes (annotated_type type h hsingle) (fun _ => ?_) ?_
  · exact passes_of_silent (type.silent opensWith_nullMarker (by decide) (stops_restText false notes))
  · exact type.trimmed_append (endsSolid_restText true notes)

/-- What follows a type is not read in the type and in the notes behind it. -/
theorem silent_noted (type : TypeText) (hno : defaultOpening.occursIn (noteText notes ++ v.take 1) = false)
    (hv : v = [] ∨ ∃ w, v = ' ' :: w)
    (hlast : (∀ note ∈ notes.getLast?, note.isOf .notNull = false) ∨ ∃ e ∈ v, isBlank e = false) :
    optionTail.Silent before (type.text ++ noteText notes) v := by
  have hstops : Stops isWordChar v := by
    rcases hv with rfl | ⟨w, rfl⟩
    · exact stops_nil _
    · exact stops_cons.mpr (by decide)
  have htype : Stops isWordChar (noteText notes ++ v) := stops_noteText_append notes hstops
  have hdefault : ∀ before, defaultOpening.Silent before (noteText notes) v := by
    intro before
    rcases hv with rfl | ⟨w, rfl⟩
    · exact confined_nil.staysWithin.silent rfl (by simpa using hno)
    · exact silent_defaultOpening (fun c hc => (endsSolid_noteText notes c hc).1) (by decide) hno
  exact silent_optionTail_of
    ((type.silent opensWith_defaultOpening (by decide) htype).append (hdefault _))
    ((type.silent_notNullTail htype).append (silent_notNullTail_notes hstops hlast))

namespace NotedDefault

variable {d : NotedDefault}

theorem Readable.take (h : d.Readable) (hwritten : ∀ note ∈ d.notes, note.isWritten)
    (hsingle : (d.notes.filterMap (·.reference?)).length ≤ 1) :
    Markers.take false (d.value.text ++ noteText (capturedNotes d.notes).1) =
      (d.kept, notedMarkers (capturedNotes d.notes).1) := by
  have hcaptures := captures hwritten
  have hannotated : Annotated d.value.text (capturedNotes d.notes).1 :=
    { balanced := d.value.balanced
      passes := fun k => (h.spared k).passes k.consumes_marker
      arranged := hcaptures.arranged
      single := hcaptures.references ▸ hsingle }
  rw [kept, ← hcaptures.rest]
  refine take_notes hannotated (fun hbare => nomatch hbare) ?_
  exact (d.value.endsSolid.append (endsSolid_restText false _)).trimmed (stops_append d.value.nonempty d.value.opens _)

theorem Readable.silent_notNullTail (h : d.Readable) : notNullTail.Silent before d.value.text (noteText d.notes) := by
  have hfirst : notNullTail.Silent none d.value.text (noteText d.notes) := by
    rw [silent_iff]
    intro x y hxy hy
    have hpositive := List.length_pos_iff.mpr hy
    have hnone := h.ends x.length (by rw [hxy, List.length_append]; omega)
    rwa [hxy, List.take_left, List.drop_left] at hnone
  obtain ⟨c, rest, htext⟩ := List.exists_cons_of_ne_nil d.value.nonempty
  have hopens := d.value.opens
  rw [htext] at hfirst hopens ⊢
  exact silent_cons.mpr ⟨rejects_notNullTail (List.cons_ne_nil _ _) (stops_cons.mpr (stops_cons.mp hopens)) _,
    (silent_cons.mp hfirst).2⟩

theorem Readable.silent (h : d.Readable) (hwritten : ∀ note ∈ d.notes, note.isWritten) :
    notNullTail.Silent before (d.value.text ++ noteText (capturedNotes d.notes).1)
      (ColumnLine.notNullText (capturedNotes d.notes).2) := by
  have hcaptures := captures hwritten
  have hvalue : notNullTail.Silent before d.value.text (noteText d.notes) := h.silent_notNullTail
  have hstops : Stops isWordChar (ColumnLine.notNullText (capturedNotes d.notes).2) := by
    cases (capturedNotes d.notes).2
    · exact stops_nil _
    · exact stops_cons.mpr (by decide)
  rw [hcaptures.text] at hvalue
  exact hvalue.append (silent_notNullTail_notes hstops hcaptures.last)

end NotedDefault

namespace NotedLine

variable (c : NotedLine)

theorem written_front : ∀ note ∈ c.front, note.isWritten := fun note hnote =>
  c.written note (List.mem_append_left _ hnote)

theorem written_back : ∀ note ∈ c.back, note.isWritten := fun note hnote =>
  c.written note (List.mem_append_right _ hnote)

theorem single_front : (c.front.filterMap (·.reference?)).length ≤ 1 :=
  Nat.le_trans ((List.sublist_append_left _ _).filterMap _).length_le c.single

theorem single_back : (c.back.filterMap (·.reference?)).length ≤ 1 :=
  Nat.le_trans ((List.sublist_append_right _ _).filterMap _).length_le c.single

theorem column_eq {m : Markers} {notNull : Bool} (h : notedMarkers c.notes = m.merge { notNull }) :
    c.column =
      { name := c.string
        declaredType := .ofList (c.type.text ++ restText true c.front)
        isPrimaryKey := m.primaryKey
        isNullable := !notNull && !m.notNull
        defaultValue := c.default.map fun d => .ofList (DefaultValue.clean true d.kept)
        foreignKey := m.foreignKey? .postgresql c.string } := by
  rw [merge_eq] at h
  have hprimary : c.notes.any (·.isOf .primaryKey) = m.primaryKey :=
    (congrArg Markers.primaryKey h).trans (Bool.or_false _)
  have hnull : c.notes.any (·.isOf .notNull) = (notNull || m.notNull) :=
    (congrArg Markers.notNull h).trans (Bool.or_comm _ _)
  have hreference : m.reference = (c.notes.findSome? (·.reference?)).map (·.inline) :=
    ((congrArg Markers.reference h).trans Option.or_none).symm
  rw [foreignKey?_inline hreference, column, hprimary, hnull, Bool.not_or]

theorem text_of_default {d : NotedDefault} (hdefault : c.default = some d) :
    c.text = c.head ++ (noteText c.front ++ d.text) := by
  rw [text, defaultText, hdefault]
  rfl

theorem parseColumn?_of_no_default (h : c.Readable) (hdefault : c.default = none) :
    parseColumn? c.text = some c.column := by
  have hcaptures := captures c.written_front
  have hnotes : c.notes = c.front := by rw [notes, back, hdefault]; exact List.append_nil _
  generalize capturedNotes c.front = captured at hcaptures
  obtain ⟨inner, notNull⟩ := captured
  have htrim : Trimmed (c.type.text ++ noteText inner) := c.type.trimmed_append (endsSolid_noteText inner)
  have hplain : defaultOpening.occursIn (noteText inner ++ (ColumnLine.notNullText notNull).take 1) = false := by
    have hall := h.plain
    rw [defaultText, hdefault, hcaptures.text] at hall
    cases notNull with
    | false => simpa [ColumnLine.notNullText] using hall
    | true => exact occursIn_eq_false_of_isInfix (x := []) (z := "NOT NULL".toList) rfl (by
        simpa [ColumnLine.notNullText, spacedWords] using hall)
  have hread := parseColumn?_typed c.name (List.append_ne_nil_of_left_ne_nil c.type.nonempty _) htrim
    (fun hmem => (List.mem_append.mp hmem).elim c.type.oneLine (not_mem_break_noteText inner))
    (fun _ => silent_noted c.type hplain (notNullText_cases notNull) hcaptures.last)
  have htext : c.text = c.name.text ++ ' ' ::
      ((c.type.text ++ noteText inner) ++ ColumnLine.notNullText notNull) := by
    rw [text, head, defaultText, hdefault, hcaptures.text]
    simp
  have htake := take_noted c.type hcaptures.arranged (hcaptures.references ▸ c.single_front)
  rw [htext, hread, readColumn, Markers.ofColumn, htake,
    c.column_eq (hnotes ▸ hcaptures.markers), hcaptures.rest, hdefault]
  rfl

theorem parseColumn?_of_default (h : c.Readable) {d : NotedDefault} (hdefault : c.default = some d) :
    parseColumn? c.text = some c.column := by
  have hd := h.default d hdefault
  have hback : c.back = d.notes := by rw [back, hdefault]; rfl
  have hwritten : ∀ note ∈ d.notes, note.isWritten := hback ▸ c.written_back
  have hsingle : (d.notes.filterMap (·.reference?)).length ≤ 1 := hback ▸ c.single_back
  have hcaptures := captures hwritten
  have htake := hd.take hwritten hsingle
  have hsilent : ∀ before, notNullTail.Silent before (d.value.text ++ noteText (capturedNotes d.notes).1)
      (ColumnLine.notNullText (capturedNotes d.notes).2) := fun _ => hd.silent hwritten
  generalize capturedNotes d.notes = captured at hcaptures htake hsilent
  obtain ⟨inner, notNull⟩ := captured
  have htrim : Trimmed (c.type.text ++ noteText c.front) := c.type.trimmed_append (endsSolid_noteText c.front)
  have hplain : defaultOpening.occursIn (noteText c.front ++
      ((' ' :: ("DEFAULT".toList ++ ' ' :: (d.value.text ++ noteText inner))) ++
        ColumnLine.notNullText notNull).take 1) = false := by
    have hall := h.plain
    rw [defaultText, hdefault] at hall
    exact hall
  have hread := parseColumn?_defaulted c.name (List.append_ne_nil_of_left_ne_nil c.type.nonempty _) htrim
    (fun hmem => (List.mem_append.mp hmem).elim c.type.oneLine (not_mem_break_noteText c.front))
    (List.append_ne_nil_of_left_ne_nil d.value.nonempty _) (stops_append d.value.nonempty d.value.opens _)
    (fun hmem => (List.mem_append.mp hmem).elim d.value.oneLine (not_mem_break_noteText inner))
    (fun _ => silent_noted c.type hplain (.inr ⟨_, rfl⟩) (.inr ⟨'D', by simp, by decide⟩)) hsilent
  have htext : c.text = c.name.text ++ ' ' :: ((c.type.text ++ noteText c.front) ++
      ((' ' :: ("DEFAULT".toList ++ ' ' :: (d.value.text ++ noteText inner))) ++ ColumnLine.notNullText notNull)) := by
    rw [c.text_of_default hdefault, head, NotedDefault.text, hcaptures.text]
    simp only [List.append_assoc, List.cons_append]
  have htype := take_noted c.type (arranged_of_written c.written_front) c.single_front
  have hmarkers : notedMarkers c.notes = ((notedMarkers c.front).merge (notedMarkers inner)).merge { notNull } := by
    rw [notes, hback, notedMarkers_append, hcaptures.markers, merge_assoc]
  have hne : d.kept.isEmpty = false :=
    List.isEmpty_eq_false_iff.mpr (List.append_ne_nil_of_left_ne_nil d.value.nonempty _)
  rw [htext, hread, readColumn, Markers.ofColumn, htype, c.column_eq hmarkers, hdefault]
  simp only [htake, Option.filter_some, hne, Bool.not_false, if_true]
  rfl

theorem parseColumn?_text (h : c.Readable) : parseColumn? c.text = some c.column := by
  cases hdefault : c.default with
  | none => exact c.parseColumn?_of_no_default h hdefault
  | some d => exact c.parseColumn?_of_default h hdefault

theorem defaultText_starts : c.defaultText = [] ∨ ∃ w, c.defaultText = ' ' :: w := by
  rw [defaultText]
  cases c.default with
  | none => exact .inl rfl
  | some d => exact .inr ⟨_, rfl⟩

theorem endsSolid_defaultText : EndsSolid c.defaultText := by
  rw [defaultText]
  cases c.default with
  | none => exact fun e he => nomatch he
  | some d =>
      have hvalue : EndsSolid (d.value.text ++ noteText d.notes) :=
        d.value.endsSolid.append (endsSolid_noteText d.notes)
      exact hvalue.behind (List.append_ne_nil_of_left_ne_nil d.value.nonempty _) (' ' :: ("DEFAULT".toList ++ [' ']))

/-- The name and the type of a line make up a line without notes. -/
def plainLine : ClauseLine := ⟨c.name, c.oneLine, c.type, [], .nil⟩

theorem trim_text : c.text.trim = c.text := by
  have hopens : Stops isBlank c.text :=
    stops_append (List.ne_nil_of_mem c.plainLine.blank_mem_head) c.plainLine.stops_head _
  have hsolid : EndsSolid c.text :=
    c.plainLine.endsSolid_head.append ((endsSolid_noteText c.front).append c.endsSolid_defaultText)
  exact (hsolid.trimmed hopens).trim_eq

theorem opensConstraint_text (h : opensConstraint .postgresql c.head = false) :
    opensConstraint .postgresql c.text = false := by
  have hstops : Stops isWordChar (noteText c.front ++ c.defaultText) := by
    refine stops_noteText_append c.front ?_
    rcases c.defaultText_starts with hnil | ⟨w, hw⟩
    · exact hnil ▸ stops_nil _
    · exact hw ▸ stops_cons.mpr (by decide)
  exact opensConstraint_append hstops c.plainLine.stops_head (fun e he => (c.plainLine.endsSolid_head e he).1)
    ⟨' ', c.plainLine.blank_mem_head, by decide⟩ h

variable {c}

theorem Readable.definesColumn (h : c.Readable) (hopens : opensConstraint .postgresql c.head = false) :
    DefinesColumn .postgresql parseColumn? c.text c.column := by
  constructor
  · rw [c.trim_text, c.opensConstraint_text hopens]
  · rw [c.trim_text, c.parseColumn?_text h]

end NotedLine

/-- A dump with a table of invoices. -/
def invoiceDump : DumpContext where
  front := []
  filler := ⟨"-- Invoices\n\n".toList, by decide +kernel, by decide +kernel, by decide⟩
  table :=
    { kind := .permanent
      ifNotExists := false
      target := ⟨true, .bare ⟨"invoices".toList, by decide, by decide⟩⟩
      body := ⟨[], [], ⟨"\n      ".toList, by decide⟩, [], [], ⟨"\n   ".toList, by decide⟩⟩
      definitions := by decide
      comments := by decide }
  back := []
  trailer := ⟨"\n-- Invoices\n".toList, by decide +kernel, by decide +kernel, by decide⟩

end SchemaDump.PostgreSQL
