import SchemaDump.Proofs.Definition.DistinctKinds
import SchemaDump.Proofs.Definition.Enclosed
import SchemaDump.Proofs.PostgreSQL.ColumnMark
/- The marks of a column are taken off its type one kind after the other, which leaves the type. A
default keeps what looks like a mark in it, since that stands in a quoted literal. -/
namespace SchemaDump.PostgreSQL
open SqlPattern Pattern

variable {before : Option Char} {p : SqlPattern} {t u v w : Text} {ps : List (Part × Text)}

def Balanced (t : Text) : Prop := Nesting.after t = .outermost

def Flat (t : Text) : Prop := ∀ c ∈ t, c ≠ '\'' ∧ c ≠ '(' ∧ c ≠ ')'

instance (t : Text) : Decidable (Flat t) :=
  inferInstanceAs (Decidable (∀ c ∈ t, c ≠ '\'' ∧ c ≠ '(' ∧ c ≠ ')'))

theorem Flat.foldl_next (h : Flat t) (n : Nesting) : t.foldl Nesting.next n = n := foldl_next_of_plain h n

theorem Flat.balanced (h : Flat t) : Balanced t := h.foldl_next _

theorem Balanced.append (hu : Balanced u) (hv : Balanced v) : Balanced (u ++ v) := by
  have hu : u.foldl Nesting.next .outermost = .outermost := hu
  rw [Balanced, Nesting.after, List.foldl_append, hu]
  exact hv

theorem balanced_flatMap {α : Type} {text : α → Text} {l : List α} (h : ∀ a ∈ l, Balanced (text a)) :
    Balanced (l.flatMap text) := by
  induction l with
  | nil => rfl
  | cons a l ih => exact (h a List.mem_cons_self).append (ih fun b hb => h b (List.mem_cons_of_mem a hb))

theorem balanced_parentheses (h : Flat t) : Balanced ('(' :: (t ++ [')'])) := by
  rw [Balanced, Nesting.after, List.foldl_cons, List.foldl_append, h.foldl_next]
  rfl

theorem flat_wordChars (h : ∀ c ∈ t, isWordChar c) : Flat t := fun c hc =>
  ⟨ne_of_isWordChar (by decide) (h c hc), ne_of_isWordChar (by decide) (h c hc),
    ne_of_isWordChar (by decide) (h c hc)⟩

theorem balanced_extent (e : Extent) : Balanced e.text := by
  have hdigits : ∀ d : Digits, Flat d.text :=
    fun d => flat_wordChars fun c hc => isWordChar_of_isDigit (d.chars c hc)
  have hdimensions : ∀ n, Balanced (Extent.dimensionText n) := by
    intro n
    apply Flat.balanced
    intro c hc
    rcases Extent.mem_dimensionText hc with rfl | rfl <;> decide
  refine Balanced.append ?_ (hdimensions e.dimensions)
  match e.numbers with
  | .none => rfl
  | some (length, .none) => exact balanced_parentheses (hdigits length)
  | some (precision, some scale) =>
      have hboth : Flat (precision.text ++ ',' :: scale.text) := by
        intro c hc
        rcases List.mem_append.mp hc with hc | hc
        · exact hdigits precision c hc
        · rcases List.mem_cons.mp hc with rfl | hc
          · decide
          · exact hdigits scale c hc
      have h := balanced_parentheses hboth
      rwa [List.append_assoc] at h

theorem balanced_type (type : ColumnType) : Balanced type.text := by
  have hword : ∀ w : TypeWord × Extent, Balanced (ColumnType.wordText w) :=
    fun w => (flat_wordChars w.1.chars).balanced.append (balanced_extent w.2)
  have hblank : Balanced [' '] := rfl
  exact (hword type.first).append (balanced_flatMap fun w _ => hblank.append (hword w))

theorem balanced_mark (m : Mark) : Balanced m.text := by
  cases m with
  | notNull => rfl
  | primaryKey => rfl
  | references qualified table column =>
      have hkeyword : Flat (' ' :: ("REFERENCES".toList ++ [' '])) := by decide
      have htarget : Flat (Target.mk qualified (.bare table)).text := by
        have hschema : Flat ("public".toList ++ ['.']) := by decide
        intro c hc
        cases qualified with
        | false => exact flat_wordChars table.chars c hc
        | true =>
            rcases List.mem_append.mp hc with hc | hc
            · exact hschema c hc
            · exact flat_wordChars table.chars c hc
      have hlist := balanced_parentheses (flat_wordChars column.chars)
      have h := hkeyword.balanced.append (htarget.balanced.append hlist)
      simpa [Mark.text] using h

namespace ColumnLine

def without (k : MarkKind) (marks : List Mark) : List Mark := marks.filter fun m => m.kind ≠ k

variable {k other : MarkKind} {marks : List Mark}

theorem mem_without {m : Mark} : m ∈ without k marks ↔ m ∈ marks ∧ m.kind ≠ k := by
  simp [without]

theorem nodup_without (h : (marks.map (·.kind)).Nodup) : ((without k marks).map (·.kind)).Nodup :=
  h.sublist (List.filter_sublist.map _)

theorem contains_without (h : other ≠ k) :
    ((without k marks).map (·.kind)).contains other = (marks.map (·.kind)).contains other :=
  contains_kind_filter h

theorem without_of_not_mem (h : k ∉ marks.map (·.kind)) : without k marks = marks := filter_kind_of_not_mem h

theorem exists_mark_of_kind (hdistinct : (marks.map (·.kind)).Nodup) (h : k ∈ marks.map (·.kind)) :
    ∃ front m back, marks = front ++ m :: back ∧ m.kind = k ∧ without k marks = front ++ back :=
  exists_split_of_mem_kind (List.nodup_iff_count_le_one.mp hdistinct k) h

theorem markText_append (front back : List Mark) :
    markText (front ++ back) = markText front ++ markText back := List.flatMap_append

variable (type : ColumnType)

theorem topLevel_marker_of_not_mem (h : k ∉ marks.map (·.kind)) :
    k.marker.topLevel (type.text ++ markText marks) = [] := by
  have hstops := stops_markText marks (stops_nil isWordChar)
  have hmarks : ∀ m ∈ marks, m.kind ≠ k := fun m hm hkind => h (List.mem_map.mpr ⟨m, hm, hkind⟩)
  exact topLevel_of_silent ((silent_marker_type k type hstops).append
    (silent_marker_marks hmarks (stops_nil _)))

theorem topLevel_marker_of_mem (hdistinct : (marks.map (·.kind)).Nodup)
    (h : k ∈ marks.map (·.kind)) :
    ∃ front m back, marks = front ++ m :: back ∧ m.kind = k ∧ without k marks = front ++ back ∧
      ∃ o ∈ k.marker.occurrences (type.text ++ markText marks),
        k.marker.topLevel (type.text ++ markText marks) = [o] ∧
          o.before = type.text ++ markText front ∧ o.reading = ⟨m.text, m.parts, markText back⟩ := by
  obtain ⟨front, m, back, rfl, hkind, hwithout⟩ := exists_mark_of_kind hdistinct h
  refine ⟨front, m, back, rfl, hkind, hwithout, ?_⟩
  have hothers : ∀ n ∈ front ++ back, n.kind ≠ k := fun n hn => (mem_without.mp (hwithout ▸ hn)).2
  have hfront : ∀ n ∈ front, n.kind ≠ k := fun n hn => hothers n (List.mem_append_left _ hn)
  have hback : ∀ n ∈ back, n.kind ≠ k := fun n hn => hothers n (List.mem_append_right _ hn)
  have hrest := stops_markText (m :: back) (stops_nil isWordChar)
  rw [List.append_nil] at hrest
  have htype : k.marker.Silent none type.text (markText front ++ markText (m :: back)) :=
    silent_marker_type k type (stops_markText front hrest)
  have hsilent := htype.append (silent_marker_marks hfront hrest)
  have hread := reads_marker m back
  rw [hkind] at hread
  have hsplit : type.text ++ markText (front ++ m :: back) =
      (type.text ++ markText front) ++ (m.text ++ markText back) := by
    rw [markText_append, List.append_assoc]
    rfl
  rw [hsplit]
  exact topLevel_eq_singleton k.consumes_marker hsilent hread (silent_marker_marks hback (stops_nil _))
    ((balanced_type type).append (balanced_flatMap fun m _ => balanced_mark m))

theorem takeAll_marker (k : MarkKind) (hdistinct : (marks.map (·.kind)).Nodup) :
    Markers.takeAll k.marker (type.text ++ markText marks) =
      (type.text ++ markText (without k marks), (marks.map (·.kind)).contains k) := by
  by_cases h : k ∈ marks.map (·.kind)
  · obtain ⟨front, m, back, -, -, hwithout, o, ho, htop, hbefore, hreading⟩ :=
      topLevel_marker_of_mem type hdistinct h
    have hafter : o.after = markText back := congrArg Match.rest hreading
    rw [Markers.takeAll, htop, List.map_singleton, cut_singleton ho, hbefore, hafter, hwithout,
      markText_append, List.append_assoc, List.contains_iff_mem.mpr h]
    rfl
  · have hcontains : (marks.map (·.kind)).contains k = false :=
      Bool.eq_false_iff.mpr fun hmem => h (List.contains_iff_mem.mp hmem)
    rw [Markers.takeAll, topLevel_marker_of_not_mem type h, without_of_not_mem h, hcontains]
    rfl

end ColumnLine

def Mark.reference? : Mark → Option InlineReference
  | .references qualified table column =>
      some ⟨.ofList (Target.mk qualified (.bare table)).text, [.ofList column.text]⟩
  | _ => none

namespace ColumnLine

variable {k : MarkKind} {marks : List Mark} (type : ColumnType)

theorem reference?_eq_none {m : Mark} (h : m.kind ≠ .reference) : m.reference? = none := by
  cases m with
  | notNull => rfl
  | primaryKey => rfl
  | references => exact absurd rfl h

theorem splitIdentifiers_word (w : Word) : splitIdentifiers w.text = [.ofList w.text] :=
  KeyClause.splitIdentifiers_nameList false [.bare w]

theorem takeReference_marks (hdistinct : (marks.map (·.kind)).Nodup) :
    Markers.takeReference (type.text ++ markText marks) =
      (type.text ++ markText (without .reference marks), marks.findSome? (·.reference?)) := by
  by_cases h : MarkKind.reference ∈ marks.map (·.kind)
  · obtain ⟨front, m, back, hmarks, hkind, hwithout, o, -, htop, hbefore, hreading⟩ :=
      topLevel_marker_of_mem type hdistinct h
    have htop : referenceMarker.topLevel (type.text ++ markText marks) = [o] := htop
    have hafter : o.after = markText back := congrArg Match.rest hreading
    have hfront : front.findSome? (·.reference?) = none := by
      rw [List.findSome?_eq_none_iff]
      intro n hn
      apply reference?_eq_none
      exact (mem_without.mp (hwithout ▸ List.mem_append_left _ hn)).2
    rw [Markers.takeReference, htop, hwithout, markText_append]
    simp only [hbefore, hafter, List.append_assoc, Occurrence.part_eq, hreading]
    congr 1
    cases m with
    | notNull => cases hkind
    | primaryKey => cases hkind
    | references qualified table column =>
        rw [hmarks, List.findSome?_append, hfront, Option.none_or, List.findSome?_cons]
        simp only [Match.part, Match.part?, Mark.parts, List.find?_cons, Mark.reference?]
        simp [splitIdentifiers_word]
  · have htop : referenceMarker.topLevel (type.text ++ markText marks) = [] :=
      topLevel_marker_of_not_mem type h
    have hnone : marks.findSome? (·.reference?) = none := by
      rw [List.findSome?_eq_none_iff]
      exact fun n hn => reference?_eq_none fun hkind => h (List.mem_map.mpr ⟨n, hn, hkind⟩)
    rw [Markers.takeReference, htop, without_of_not_mem h, hnone]

def markers (marks : List Mark) : Markers where
  primaryKey := (marks.map (·.kind)).contains .primaryKey
  notNull := (marks.map (·.kind)).contains .notNull
  reference := marks.findSome? (·.reference?)

/-- Behind the type nothing is left once the marks of all kinds are taken off. -/
theorem without_all (marks : List Mark) :
    without .notNull (without .primaryKey (without .reference marks)) = [] := by
  rw [List.eq_nil_iff_forall_not_mem]
  intro m hm
  obtain ⟨⟨⟨-, hreference⟩, hprimary⟩, hnull⟩ := by simpa only [mem_without] using hm
  cases m with
  | notNull => exact hnull rfl
  | primaryKey => exact hprimary rfl
  | references => exact hreference rfl

theorem take_type (hdistinct : (marks.map (·.kind)).Nodup) :
    Markers.take true (type.text ++ markText marks) = (type.text, markers marks) := by
  have hreference := takeReference_marks type hdistinct
  have hprimary := takeAll_marker type .primaryKey (nodup_without (k := .reference) hdistinct)
  have hnull := takeAll_marker type .notNull
    (nodup_without (k := .primaryKey) (nodup_without (k := .reference) hdistinct))
  have hbare : Markers.takeAll nullMarker type.text = (type.text, false) := by
    rw [Markers.takeAll, topLevel_of_silent (silent_nullMarker_type type)]
    rfl
  simp only [MarkKind.marker] at hprimary hnull
  rw [without_all, show markText [] = [] from rfl, List.append_nil] at hnull
  rw [contains_without (by decide), contains_without (by decide)] at hnull
  rw [contains_without (by decide)] at hprimary
  simp only [Markers.take, hreference, hprimary, hnull, if_true, hbare, (trimmed_type type).trim_eq,
    markers]

end ColumnLine

/-- A marker is read in a default within its quotes only. -/
theorem before_of_mem_occurrences {k : MarkKind} {d : FreeDefault} {o : Occurrence Part}
    (h : o ∈ k.marker.occurrences d.text) : ∃ x, o.before = '\'' :: x ∧ ∀ c ∈ x, c ≠ '\'' := by
  have hopens := opensWith_marker k
  obtain ⟨v, htext, hread⟩ := exists_of_mem_occurrences h
  rcases exists_append_of_length (u := d.content.quoted) htext with
    ⟨z, hbefore, hcasts⟩ | ⟨c, z, hquoted, hv⟩
  · exfalso
    have hsilent := ((SilentInTypes.of_opensWith hopens (reserved_words k)).casts d.casts
      (lastOf none d.content.quoted) (stops_nil isWordChar))
    rw [hbefore, lastOf_append] at hread
    cases v with
    | nil =>
        rw [k.consumes_marker.read?_nil] at hread
        cases hread
    | cons c v =>
        have hnone := silent_iff.mp hsilent z (c :: v) hcasts (List.cons_ne_nil c v)
        rw [List.append_nil, hread] at hnone
        cases hnone
  · cases hbefore : o.before with
    | nil =>
        exfalso
        rw [hbefore] at hquoted hread
        obtain ⟨rfl, -⟩ := List.cons.inj hquoted
        rw [hv, hopens.rejects_cons (lettered_words k) (by decide) (.inl (by decide))] at hread
        cases hread
    | cons q x =>
        rw [hbefore] at hquoted
        obtain ⟨rfl, hcontent⟩ := List.cons.inj hquoted
        refine ⟨x, rfl, fun e he => (d.content.chars e ?_).1⟩
        rcases exists_append_of_length hcontent with ⟨y, hx, hend⟩ | ⟨e, y, hx, -⟩
        · cases y with
          | nil => rwa [hx, List.append_nil] at he
          | cons e y =>
              have hlength := congrArg List.length hend
              simp only [List.length_append, List.length_cons, List.length_nil] at hlength
              omega
        · rw [hx]
          exact List.mem_append_left _ he

theorem topLevel_marker_default (k : MarkKind) (d : FreeDefault) : k.marker.topLevel d.text = [] := by
  rw [topLevel, List.filter_eq_nil_iff]
  intro o ho
  obtain ⟨x, hbefore, hx⟩ := before_of_mem_occurrences ho
  have hafter : Nesting.after ('\'' :: x) = ⟨true, 0⟩ := foldl_next_inLiteral hx 0
  rw [Span.isTopLevel, hbefore, hafter]
  decide

/-- A default has no marks, whatever its literal says. -/
theorem take_default (d : FreeDefault) : Markers.take false d.text = (d.text, {}) := by
  have hreference : Markers.takeReference d.text = (d.text, none) := by
    rw [Markers.takeReference, show referenceMarker.topLevel d.text = [] from
      topLevel_marker_default .reference d]
  have hall : ∀ k : MarkKind, Markers.takeAll k.marker d.text = (d.text, false) := by
    intro k
    rw [Markers.takeAll, topLevel_marker_default k d]
    rfl
  have hprimary := hall .primaryKey
  have hnull := hall .notNull
  simp only [MarkKind.marker] at hprimary hnull
  simp only [Markers.take, hreference, hprimary, hnull, Bool.false_eq_true, if_false,
    (trimmed_default d).trim_eq]

end SchemaDump.PostgreSQL
