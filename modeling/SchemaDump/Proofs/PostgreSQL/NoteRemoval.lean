import SchemaDump.Proofs.PostgreSQL.ClauseRemoval
import SchemaDump.Proofs.PostgreSQL.NoteMarker
/- Marks are taken off among notes, one kind after the other. The names of keys and references go with them, those
of `NOT NULL` stay, and so do nulls where they are no marks. -/
namespace SchemaDump.PostgreSQL
open SqlPattern Pattern

variable {before : Option Char} {t u v w base : Text} {k : MarkKind} {notes : List Note} {note : Note} {bare : Bool}

theorem noteText_cons (note : Note) (notes : List Note) : noteText (note :: notes) = note.text ++ noteText notes :=
  List.flatMap_cons

theorem noteText_append (front back : List Note) : noteText (front ++ back) = noteText front ++ noteText back :=
  List.flatMap_append

theorem restText_cons (bare : Bool) (note : Note) (notes : List Note) :
    restText bare (note :: notes) = note.rest bare ++ restText bare notes := List.flatMap_cons

theorem notesWithout_cons (k : MarkKind) (note : Note) (notes : List Note) :
    notesWithout k (note :: notes) = note.without k ++ notesWithout k notes := List.flatMap_cons

theorem notesWithout_append (k : MarkKind) (front back : List Note) :
    notesWithout k (front ++ back) = notesWithout k front ++ notesWithout k back := List.flatMap_append

namespace Note

def openings : List String := ["CONSTRAINT", "NULL", "NOT", "PRIMARY", "REFERENCES"]

theorem exists_text_eq (note : Note) : ∃ word ∈ openings, ∃ w, note.text = ' ' :: (word.toList ++ w) := by
  have hname : ∀ (n : MarkName) (w : Text), n.text ++ w = ' ' :: ("CONSTRAINT".toList ++ (' ' :: n.identifier ++ w)) :=
    fun _ _ => rfl
  cases note with
  | null => exact ⟨"NULL", by decide, [], rfl⟩
  | leftover n => exact ⟨"CONSTRAINT", by decide, ' ' :: n.identifier, rfl⟩
  | mark name m =>
      cases name with
      | some n => exact ⟨"CONSTRAINT", by decide, _, hname n m.text⟩
      | none =>
          obtain ⟨w, hw⟩ := m.exists_text_eq
          have hmem : ∀ word ∈ ["NOT", "PRIMARY", "REFERENCES"], word ∈ openings := by decide
          exact ⟨m.word, hmem _ m.word_mem, ' ' :: w, hw⟩

/-- What is left of a note starts with a blank, if anything is. -/
theorem rest_starts (note : Note) (bare : Bool) : note.rest bare = [] ∨ ∃ w, note.rest bare = ' ' :: w := by
  have hname : ∀ n : MarkName, ∃ w, n.rest bare = ' ' :: w := by
    intro n
    cases n with
    | bare word plain => exact ⟨_, rfl⟩
    | quoted word =>
        rw [MarkName.rest]
        split <;> exact ⟨_, rfl⟩
  cases note with
  | null => cases bare <;> simp [rest, text]
  | leftover n => exact .inr (hname n)
  | mark name m =>
      cases m with
      | primaryKey => simp [rest]
      | references => simp [rest]
      | notNull =>
          cases name with
          | none => simp [rest]
          | some n => exact .inr (hname n)

end Note

theorem stops_noteText (notes : List Note) : Stops isWordChar (noteText notes) := by
  cases notes with
  | nil => exact stops_nil _
  | cons note notes =>
      obtain ⟨word, -, w, hw⟩ := note.exists_text_eq
      rw [noteText_cons, hw]
      exact stops_cons.mpr (by decide)

theorem stops_restText (bare : Bool) (notes : List Note) : Stops isWordChar (restText bare notes) := by
  induction notes with
  | nil => exact stops_nil _
  | cons note notes ih =>
      rw [restText_cons]
      rcases note.rest_starts bare with hnil | ⟨w, hw⟩
      · rwa [hnil]
      · rw [hw]
        exact stops_cons.mpr (by decide)

theorem endsReference_noteText (notes : List Note) : EndsReference (noteText notes) := by
  cases notes with
  | nil =>
      intro word _ q
      exact rejects_blanks (stops_nil _)
  | cons note notes =>
      obtain ⟨word, hword, w, hw⟩ := note.exists_text_eq
      have hall : ∀ word ∈ Note.openings, word.toList ≠ [] ∧ Stops isBlank word.toList ∧
          ∀ other ∈ ["MATCH", "ON"], clashes other.toList word.toList := by decide
      obtain ⟨hne, hstops, hclash⟩ := hall word hword
      rw [noteText_cons, hw, List.cons_append, List.append_assoc]
      exact endsReference_of_blanks (g := [' ']) (by decide) (stops_append hne hstops _)
        fun other hother => .of_clash (hclash other hother) _

/-- Only the last of some notes may be a name without a mark. -/
def Arranged (notes : List Note) : Prop := notes.Pairwise fun note _ => note.isWritten

theorem arranged_of_written (h : ∀ note ∈ notes, note.isWritten) : Arranged notes :=
  List.pairwise_of_forall_mem_list fun note hnote _ _ => h note hnote

theorem Arranged.written_or_last (h : Arranged (note :: notes)) : note.isWritten ∨ noteText notes = [] := by
  cases notes with
  | nil => exact .inr rfl
  | cons next notes => exact .inl (List.rel_of_pairwise_cons h List.mem_cons_self)

/-- Without the marks of a kind the other notes are left, unless the marks leave their names. -/
theorem notesWithout_eq_filter (hk : k ≠ .notNull) (notes : List Note) :
    notesWithout k notes = notes.filter (!·.isOf k) := by
  induction notes with
  | nil => rfl
  | cons note notes ih =>
      rw [notesWithout_cons, ih, List.filter_cons]
      cases note with
      | null => rfl
      | leftover => rfl
      | mark name m =>
          have hnone : Note.leftovers k name = [] := by
            cases k with
            | notNull => exact absurd rfl hk
            | primaryKey => rfl
            | reference => rfl
          by_cases hkind : m.kind = k <;> simp [Note.without, Note.isOf, hkind, hnone]

theorem notesWithout_sublist (hk : k ≠ .notNull) (notes : List Note) : (notesWithout k notes).Sublist notes :=
  notesWithout_eq_filter hk notes ▸ List.filter_sublist

theorem any_notesWithout {other : MarkKind} (hk : k ≠ .notNull) (hother : other ≠ k) (notes : List Note) :
    (notesWithout k notes).any (·.isOf other) = notes.any (·.isOf other) := by
  rw [notesWithout_eq_filter hk, List.any_filter]
  refine congrArg notes.any (funext fun note => ?_)
  cases note with
  | null => rfl
  | leftover => rfl
  | mark name m =>
      by_cases hkind : m.kind = other
      · simp [Note.isOf, hkind, hother]
      · simp [Note.isOf, hkind]

theorem reference?_notesWithout {notes : List Note} :
    ∀ note ∈ notesWithout .reference notes, note.reference? = none := by
  intro note hnote
  rw [notesWithout_eq_filter (by decide)] at hnote
  have hkind := (List.mem_filter.mp hnote).2
  cases note with
  | null => rfl
  | leftover => rfl
  | mark name m =>
      cases m with
      | references => simp [Note.isOf, InlineMark.kind] at hkind
      | notNull => rfl
      | primaryKey => rfl

theorem balanced_note (href : note.reference? = none) : Balanced note.text := by
  cases note with
  | null => rfl
  | leftover n => exact n.flat.balanced
  | mark name m =>
      have hname : Balanced (Note.nameText name) := by
        cases name with
        | none => rfl
        | some n => exact n.flat.balanced
      exact hname.append (m.balanced href)

/-- A search for the marks of one kind passes over a note that is none of them. -/
theorem silent_note (hk : note.isOf k = false) (href : note.reference? = none) (hlast : note.isWritten ∨ v = [])
    (hv : Stops isWordChar v) : k.marker.Silent before note.text v := by
  cases note with
  | null =>
      have hwords : ∀ word ∈ k.words, spells sameLetter word.toList "NULL".toList = false := by cases k <;> decide
      exact (opensWith_marker k).silent_blank_word (by decide) (by decide) hv (.inl hwords)
  | leftover n => exact silent_name n (.inl (hlast.resolve_left Bool.false_ne_true))
  | mark name m =>
      have hkind : m.kind ≠ k := by simpa [Note.isOf] using hk
      have hname : ∀ before, k.marker.Silent before (Note.nameText name) (m.text ++ v) := by
        intro before
        cases name with
        | none => exact silent_nil _
        | some n => exact silent_name n (.inr ⟨m, v, fun h => absurd h hkind, rfl⟩)
      exact (hname before).append (m.silent hkind href hv)

theorem takes_note (hk : k ≠ .reference) (href : note.reference? = none) (hlast : note.isWritten ∨ v = [])
    (hv : Stops isWordChar v) (hend : EndsReference v) :
    k.marker.Takes Nesting.isOutermost v .outermost before note.text (noteText (note.without k)) (note.isOf k) := by
  cases hnote : note.isOf k with
  | false =>
      have hwithout : noteText (note.without k) = note.text := by
        cases note with
        | null => exact List.append_nil _
        | leftover n => exact List.append_nil _
        | mark name m =>
            have hkind : m.kind ≠ k := by simpa [Note.isOf] using hnote
            rw [Note.without, if_neg hkind]
            exact List.append_nil _
      rw [hwithout]
      exact takes_of_silent (silent_note hnote href hlast hv)
  | true =>
      cases note with
      | null => cases hnote
      | leftover => cases hnote
      | mark name m =>
          have hkind : m.kind = k := by simpa [Note.isOf] using hnote
          subst hkind
          rw [Note.without, if_pos rfl, Note.text]
          -- only `NOT NULL` leaves its name behind
          by_cases hnamed : m.kind = .notNull → name = none
          · have hnone : Note.leftovers m.kind name = [] := by
              cases m with
              | notNull => rw [hnamed rfl]; rfl
              | primaryKey => rfl
              | references => rfl
            rw [hnone]
            exact takes_of_reads rfl (m.reads_named name hnamed hv hend)
          · obtain ⟨hnotNull, hsome⟩ := Classical.not_imp.mp hnamed
            obtain ⟨n, rfl⟩ := Option.ne_none_iff_exists'.mp hsome
            have hname : m.kind.marker.Takes Nesting.isOutermost (m.text ++ v) .outermost before n.text n.text false :=
              takes_of_silent (silent_name n (.inr ⟨m, v, fun _ => hnotNull, rfl⟩))
            have hmark : m.kind.marker.Takes Nesting.isOutermost v (n.text.foldl Nesting.next .outermost)
                (lastOf before n.text) m.text [] true := by
              rw [n.flat.foldl_next]
              exact takes_of_reads rfl (m.reads_named none (fun _ => rfl) hv hend)
            have hleft : noteText (Note.leftovers m.kind (some n)) = n.text ++ [] := by
              rw [hnotNull]
              rfl
            rw [hleft]
            exact hname.append hmark

theorem takes_notes (hk : k ≠ .reference) (href : ∀ note ∈ notes, note.reference? = none) (h : Arranged notes) :
    k.marker.Takes Nesting.isOutermost [] .outermost before (noteText notes) (noteText (notesWithout k notes))
      (notes.any (·.isOf k)) := by
  induction notes generalizing before with
  | nil => exact .done
  | cons note notes ih =>
      obtain ⟨hnote, hrest⟩ := List.forall_mem_cons.mp href
      have hfirst : k.marker.Takes Nesting.isOutermost (noteText notes) .outermost before note.text
          (noteText (note.without k)) (note.isOf k) :=
        takes_note hk hnote h.written_or_last (stops_noteText notes) (endsReference_noteText notes)
      have hlevel : note.text.foldl Nesting.next .outermost = .outermost := balanced_note hnote
      rw [noteText_cons, notesWithout_cons, noteText_append, List.any_cons]
      refine Takes.append (by rwa [List.append_nil]) ?_
      rw [hlevel]
      exact ih hrest (List.Pairwise.of_cons h)

theorem stops_noteText_append (notes : List Note) (hv : Stops isWordChar v) :
    Stops isWordChar (noteText notes ++ v) := by
  cases notes with
  | nil => exact hv
  | cons note notes =>
      obtain ⟨word, -, w, hw⟩ := note.exists_text_eq
      rw [noteText_cons, hw]
      exact stops_cons.mpr (by decide)

theorem silent_notes (hk : ∀ note ∈ notes, note.isOf k = false) (href : ∀ note ∈ notes, note.reference? = none)
    (h : Arranged notes) (hlast : v = [] ∨ ∀ note ∈ notes, note.isWritten) (hv : Stops isWordChar v) :
    k.marker.Silent before (noteText notes) v := by
  induction notes generalizing before with
  | nil => exact silent_nil v
  | cons note notes ih =>
      obtain ⟨hkind, hkinds⟩ := List.forall_mem_cons.mp hk
      obtain ⟨hnote, hrest⟩ := List.forall_mem_cons.mp href
      have hbehind : note.isWritten ∨ noteText notes ++ v = [] := by
        rcases hlast with rfl | hwritten
        · exact h.written_or_last.imp_right fun hnil => by rw [hnil, List.append_nil]
        · exact .inl (hwritten note List.mem_cons_self)
      rw [noteText_cons]
      exact (silent_note hkind hnote hbehind (stops_noteText_append notes hv)).append
        (ih hkinds hrest (List.Pairwise.of_cons h) (hlast.imp_right fun hall => (List.forall_mem_cons.mp hall).2))

/-- A text with notes behind it in which every mark is found: a search for any kind of marks passes over the text. -/
structure Annotated (base : Text) (notes : List Note) : Prop where
  balanced : Balanced base
  passes : ∀ k : MarkKind, k.marker.Passes (noteText (notesFor k notes)) .outermost none base
  arranged : Arranged notes
  single : (notes.filterMap (·.reference?)).length ≤ 1

theorem takeAll_notes (hbalanced : Balanced base) (hk : k ≠ .reference)
    (hbase : k.marker.Passes (noteText notes) .outermost none base) (href : ∀ note ∈ notes, note.reference? = none)
    (h : Arranged notes) : Markers.takeAll k.marker (base ++ noteText notes) =
      (base ++ noteText (notesWithout k notes), notes.any (·.isOf k)) := by
  have hlevel : base.foldl Nesting.next .outermost = .outermost := hbalanced
  have htake : k.marker.Takes Nesting.isOutermost (noteText notes ++ []) .outermost none base base false := by
    rw [List.append_nil]
    exact hbase.takes
  refine Markers.takeAll_of_takes k.consumes_marker (Takes.append htake ?_)
  rw [hlevel]
  exact takes_notes hk href h

theorem isOf_reference (note : Note) : note.isOf .reference = note.reference?.isSome := by
  cases note with
  | null => rfl
  | leftover => rfl
  | mark name m => cases m <;> rfl

/-- The only reference among notes, with what stands around it. -/
theorem exists_reference {r : DeclaredReference} (hsingle : (notes.filterMap (·.reference?)).length ≤ 1)
    (hfind : notes.findSome? (·.reference?) = some r) : ∃ front name back,
      notes = front ++ .mark name (.references r) :: back ∧ (∀ note ∈ front, note.reference? = none) ∧
        (∀ note ∈ back, note.reference? = none) ∧ notesWithout .reference notes = front ++ back := by
  obtain ⟨front, note, back, rfl, hnote, hfront⟩ := List.findSome?_eq_some_iff.mp hfind
  obtain ⟨name, rfl⟩ : ∃ name, note = .mark name (.references r) := by
    cases note with
    | null => cases hnote
    | leftover => cases hnote
    | mark name m =>
        cases m with
        | references s => exact ⟨name, congrArg (fun s => Note.mark name (.references s)) (Option.some.inj hnote)⟩
        | notNull => cases hnote
        | primaryKey => cases hnote
  have hback : ∀ note ∈ back, note.reference? = none := by
    rw [List.filterMap_append, List.filterMap_cons, hnote, List.length_append, List.length_cons] at hsingle
    have hempty : back.filterMap (·.reference?) = [] := List.length_eq_zero_iff.mp (by omega)
    exact List.filterMap_eq_nil_iff.mp hempty
  have hkept : ∀ {notes : List Note}, (∀ note ∈ notes, note.reference? = none) →
      notes.filter (fun note => !note.isOf .reference) = notes := fun h =>
    List.filter_eq_self.mpr fun note hmem => by rw [isOf_reference, h note hmem]; rfl
  refine ⟨front, name, back, rfl, hfront, hback, ?_⟩
  rw [notesWithout_eq_filter (by decide), List.filter_append, List.filter_cons, hkept hfront, hkept hback]
  rfl

/-- The reference is taken off, and with it its name and its actions. -/
theorem takeReference_notes (h : Annotated base notes) : Markers.takeReference (base ++ noteText notes) =
    (base ++ noteText (notesWithout .reference notes), (notes.findSome? (·.reference?)).map (·.inline)) := by
  have hbase : referenceMarker.Passes (noteText notes) .outermost none base := h.passes .reference
  have hnot : ∀ {notes : List Note}, (∀ note ∈ notes, note.reference? = none) →
      ∀ note ∈ notes, note.isOf .reference = false := fun h note hmem => by rw [isOf_reference, h note hmem]; rfl
  cases hfind : notes.findSome? (·.reference?) with
  | none =>
      have hnone := List.findSome?_eq_none_iff.mp hfind
      have hsilent : ∀ before, referenceMarker.Silent before (noteText notes) [] := fun before =>
        silent_notes (k := .reference) (hnot hnone) hnone h.arranged (.inl rfl) (stops_nil _)
      have htop : referenceMarker.topLevel (base ++ noteText notes) = [] :=
        topLevel_of_passes (consumes_of_not_nullable rfl)
          (Passes.append (by rwa [List.append_nil]) (passes_of_silent (hsilent _)))
      have hfilter : notesWithout .reference notes = notes := by
        rw [notesWithout_eq_filter (by decide)]
        exact List.filter_eq_self.mpr fun note hmem => by rw [hnot hnone note hmem]; rfl
      rw [Markers.takeReference, htop, hfilter]
      rfl
  | some r =>
      obtain ⟨front, name, back, rfl, hfront, hback, hwithout⟩ := exists_reference h.single hfind
      obtain ⟨harranged, -, hwritten⟩ := List.pairwise_append.mp h.arranged
      have hwritten : ∀ note ∈ front, note.isWritten := fun note hmem => hwritten note hmem _ List.mem_cons_self
      have hmark := stops_noteText (.mark name (.references r) :: back)
      rw [noteText_cons] at hmark
      rw [noteText_append, noteText_cons] at hbase
      have hpasses := hbase.append (passes_of_silent
        (silent_notes (k := .reference) (hnot hfront) hfront harranged (.inr hwritten) hmark))
      have hbalanced : Balanced (base ++ noteText front) := h.balanced.append
        (balanced_flatMap fun note hmem => balanced_note (hfront note hmem))
      have hread : referenceMarker.Reads (Note.mark name (.references r)).text (noteText back)
          [(.columns, r.list), (.table, r.target.text)] :=
        (InlineMark.references r).reads_named name (fun hkind => by cases hkind) (stops_noteText back)
          (endsReference_noteText back)
      obtain ⟨o, os, htop, -, hbefore, hreading, -⟩ :=
        topLevel_eq_cons (consumes_of_not_nullable rfl) hpasses (hread _) hbalanced
      have hafter : o.after = noteText back := congrArg Match.rest hreading
      rw [noteText_append, noteText_cons, ← List.append_assoc, Markers.takeReference, htop, hwithout, noteText_append,
        ← List.append_assoc]
      simp [hbefore, hafter, Occurrence.part_eq, hreading, Match.part, Match.part?, DeclaredReference.inline,
        r.splitIdentifiers_list]

theorem noteText_notesWithout_all (notes : List Note) :
    noteText (notesWithout .notNull (notesWithout .primaryKey (notesWithout .reference notes))) =
      restText false notes := by
  induction notes with
  | nil => rfl
  | cons note notes ih =>
      rw [notesWithout_cons, notesWithout_append, notesWithout_append, noteText_append, ih, restText_cons]
      refine congrArg (· ++ restText false notes) ?_
      have hname : ∀ n : MarkName, n.rest false = n.text := fun n => by cases n <;> rfl
      cases note with
      | null => rfl
      | leftover n => simp [notesWithout, noteText, Note.without, Note.rest, Note.text, hname]
      | mark name m =>
          cases m with
          | primaryKey => cases name <;> rfl
          | references => cases name <;> rfl
          | notNull =>
              cases name with
              | none => rfl
              | some n => simp [notesWithout, noteText, Note.without, Note.leftovers, Note.rest, Note.text,
                  InlineMark.kind, hname]

/-- The word `NULL` in double quotes is a word by itself. -/
theorem read?_nullMarker_quoted (k : KeywordText "NULL") (v : Text) :
    nullMarker.read? (some '"') (k.text ++ '"' :: v) = some ⟨k.text, [], '"' :: v⟩ := by
  obtain ⟨c, rest, htext, hc⟩ : ∃ c rest, k.text = c :: rest ∧ sameLetter 'N' c := k.exists_head rfl
  have hword := isWordChar_of_sameLetter (by decide) hc
  have hchars := isWordChar_of_spells (by decide) k.spelled
  obtain ⟨last, hlast⟩ := Option.ne_none_iff_exists'.mp
    (mt List.getLast?_eq_none_iff.mp (htext ▸ List.cons_ne_nil c rest))
  have hread : (keyword "NULL" ++ wordEdge : SqlPattern).Reads k.text ('"' :: v) [] :=
    reads_edge (k.reads _) hlast (hchars last (List.mem_of_getLast? hlast)) (stops_cons.mpr (by decide))
  have hgap : (gap : SqlPattern).Reads [] (k.text ++ '"' :: v) [] := by
    rw [htext]
    exact reads_no_gap (stops_cons.mpr (isBlank_eq_false_of_isWordChar hword))
  have hedge : (wordEdge ++ (keyword "NULL" ++ wordEdge) : SqlPattern).read? (some '"') (k.text ++ '"' :: v) =
      some ⟨k.text, [], '"' :: v⟩ := by
    rw [← hread (some '"'), htext]
    exact read?_edge_seq (by decide) hword _ _
  rw [nullMarker, read?_seq_assoc, read?_seq_assoc]
  exact read?_seq (hgap _) hedge

/-- A name is no null, unless it is `NULL` in double quotes. -/
theorem takes_name_null (before : Option Char) (n : MarkName) (hv : Stops isWordChar v) :
    ∃ found, nullMarker.Takes Nesting.isOutermost v .outermost before n.text (n.rest true) found := by
  have hsilent : n.Avoids ["NULL"] (Stops isWordChar) → nullMarker.Silent before n.text v := fun havoids =>
    MarkName.silent_text opensWith_nullMarker (by decide) (by decide) havoids hv
  cases n with
  | bare word plain =>
      have hnull : ∀ other ∈ ["NULL"], other ∈ noteWords := by decide
      exact ⟨false, takes_of_silent (hsilent fun other hother => Word.spells_eq_false plain (hnull other hother))⟩
  | quoted word =>
      rw [MarkName.rest, Bool.true_and]
      cases hword : word.isOneOf ["NULL"] with
      | false => exact ⟨false, takes_of_silent (hsilent (.inl fun other hother => Word.spells_eq_false hword hother))⟩
      | true =>
          have hspells : spells sameLetter "NULL".toList word.text := by simpa [Word.isOneOf] using hword
          have hquote : ∀ {before : Option Char} {t : Text}, ¬WordAhead ["NULL"] (Stops isWordChar) before ('"' :: t) :=
            not_wordAhead_cons (by decide) (by decide) (.inl (by decide))
          have hsilent : ∀ before w, nullMarker.Silent before ['"'] w := fun before w =>
            silent_cons.mpr ⟨opensWith_nullMarker.read?_eq_none hquote, silent_nil _⟩
          have hblank : ∀ before w, nullMarker.Silent before [' ', '"'] w := fun before w =>
            silent_cons.mpr ⟨opensWith_nullMarker.read?_eq_none fun hahead =>
              hquote ((wordAhead_blank (by decide)).mp hahead), hsilent _ _⟩
          have hname : ∀ w, nullMarker.Silent before (' ' :: "CONSTRAINT".toList) (' ' :: w) := fun w =>
            opensWith_nullMarker.silent_blank_word (by decide) (by decide) (stops_cons.mpr (by decide))
              (.inl (by decide))
          have hsplit : MarkName.opening ++ ['"'] = (' ' :: "CONSTRAINT".toList) ++ [' ', '"'] := rfl
          have hopening : nullMarker.Takes Nesting.isOutermost ((word.text ++ ['"']) ++ v) .outermost before
              (MarkName.opening ++ ['"']) (MarkName.opening ++ ['"']) false := by
            rw [hsplit]
            exact takes_of_silent ((hname _).append (hblank _ _))
          have hread := read?_nullMarker_quoted ⟨word.text, hspells⟩ v
          have hclose : nullMarker.Takes Nesting.isOutermost v (word.text.foldl Nesting.next .outermost)
              (lastOf (some '"') word.text) ['"'] ['"'] false := takes_of_silent (hsilent _ v)
          have hrest : nullMarker.Takes Nesting.isOutermost v .outermost (some '"') (word.text ++ ['"']) ['"'] true :=
            .taken rfl hread hclose
          refine ⟨true, ?_⟩
          have hall := hopening.append (n := .outermost) hrest
          simpa [MarkName.text, MarkName.identifier] using hall

theorem takes_rest_null (before : Option Char) (note : Note) (hv : Stops isWordChar v) :
    ∃ found, nullMarker.Takes Nesting.isOutermost v .outermost before (note.rest false) (note.rest true) found := by
  have hname : ∀ n : MarkName, n.rest false = n.text := fun n => by cases n <;> rfl
  cases note with
  | null =>
      have hread : nullMarker.Reads (' ' :: "NULL".toList) v [] := by
        have hword : (keyword "NULL" ++ wordEdge : SqlPattern).Reads "NULL".toList v [] :=
          reads_edge (reads_keyword "NULL" v) (c := 'L') rfl (by decide) hv
        simp only [nullMarker, reads_assoc]
        exact reads_behind_edge (g := [' ']) (by decide) (by decide) (by decide) hword
      exact ⟨true, takes_of_reads rfl hread⟩
  | leftover n =>
      have h := takes_name_null before n hv
      rwa [← hname n] at h
  | mark name m =>
      cases m with
      | primaryKey => exact ⟨false, by cases name <;> exact .done⟩
      | references => exact ⟨false, by cases name <;> exact .done⟩
      | notNull =>
          cases name with
          | none => exact ⟨false, .done⟩
          | some n =>
              have h := takes_name_null before n hv
              rwa [← hname n] at h

theorem balanced_rest (note : Note) (bare : Bool) : Balanced (note.rest bare) := by
  have hname : ∀ n : MarkName, Balanced (n.rest bare) := by
    intro n
    cases n with
    | bare word plain => exact (MarkName.bare word plain).flat.balanced
    | quoted word =>
        rw [MarkName.rest]
        split
        · rfl
        · exact (MarkName.quoted word).flat.balanced
  cases note with
  | null => cases bare <;> rfl
  | leftover n => exact hname n
  | mark name m =>
      cases m with
      | primaryKey => cases name <;> rfl
      | references => cases name <;> rfl
      | notNull =>
          cases name with
          | none => rfl
          | some n => exact hname n

theorem takes_restText (before : Option Char) (notes : List Note) :
    ∃ found, nullMarker.Takes Nesting.isOutermost [] .outermost before (restText false notes) (restText true notes)
      found := by
  induction notes generalizing before with
  | nil => exact ⟨false, .done⟩
  | cons note notes ih =>
      obtain ⟨found, hfirst⟩ := takes_rest_null before note (stops_restText false notes)
      obtain ⟨also, hrest⟩ := ih (lastOf before (note.rest false))
      have hlevel : (note.rest false).foldl Nesting.next .outermost = .outermost := balanced_rest note false
      rw [restText_cons, restText_cons]
      refine ⟨found || also, Takes.append (by rwa [List.append_nil]) ?_⟩
      rwa [hlevel]

def notedMarkers (notes : List Note) : Markers where
  primaryKey := notes.any (·.isOf .primaryKey)
  notNull := notes.any (·.isOf .notNull)
  reference := (notes.findSome? (·.reference?)).map (·.inline)

theorem take_notes (h : Annotated base notes)
    (hnull : bare = true → nullMarker.Passes (restText false notes) .outermost none base)
    (htrim : Trimmed (base ++ restText bare notes)) :
    Markers.take bare (base ++ noteText notes) = (base ++ restText bare notes, notedMarkers notes) := by
  have hreference := takeReference_notes h
  have hsome : Arranged (notesWithout .reference notes) := h.arranged.sublist (notesWithout_sublist (by decide) notes)
  have hprimary := takeAll_notes h.balanced (k := .primaryKey) (by decide) (h.passes .primaryKey)
    reference?_notesWithout hsome
  have hfew := notesWithout_sublist (k := .primaryKey) (by decide) (notesWithout .reference notes)
  have hnotNull := takeAll_notes h.balanced (k := .notNull) (by decide) (h.passes .notNull)
    (fun note hnote => reference?_notesWithout note (hfew.subset hnote)) (hsome.sublist hfew)
  simp only [MarkKind.marker, notesFor] at hprimary hnotNull
  rw [any_notesWithout (by decide) (by decide)] at hprimary
  rw [noteText_notesWithout_all, any_notesWithout (by decide) (by decide), any_notesWithout (by decide) (by decide)]
    at hnotNull
  cases bare with
  | false =>
      simp only [Markers.take, hreference, hprimary, hnotNull, Bool.false_eq_true, if_false, htrim.trim_eq,
        notedMarkers]
  | true =>
      obtain ⟨found, hrest⟩ := takes_restText (lastOf none base) notes
      have hlevel : base.foldl Nesting.next .outermost = .outermost := h.balanced
      have hbase : nullMarker.Takes Nesting.isOutermost (restText false notes ++ []) .outermost none base base
          false := by
        rw [List.append_nil]
        exact (hnull rfl).takes
      have hall := Markers.takeAll_of_takes (consumes_of_not_nullable rfl) (hbase.append (by rwa [hlevel]))
      simp only [Markers.take, hreference, hprimary, hnotNull, if_true, hall, htrim.trim_eq, notedMarkers]

end SchemaDump.PostgreSQL
