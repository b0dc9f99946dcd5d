import SchemaDump.Proofs.PostgreSQL.ClauseColumn
import SchemaDump.Proofs.PostgreSQL.Note
/- Marks among notes. A search for the marks of one kind passes over the notes of the other kinds, over the names in
front of them too, and takes off those of its own kind with their names; only `NOT NULL` leaves its name behind. -/
namespace SchemaDump.PostgreSQL
open SqlPattern Pattern

variable {before : Option Char} {p q : SqlPattern} {words : List String} {Ends : Text → Prop}
  {t u v w : Text} {k : MarkKind} {notes : List Note}

namespace MarkName

variable (n : MarkName)

theorem isIdentifier : IsIdentifier n.identifier := by
  cases n with
  | bare word _ => exact isIdentifier_bare word.nonempty fun c hc => by simp [isBareChar, word.chars c hc]
  | quoted word =>
      refine isIdentifier_quoted (.inl rfl) word.nonempty fun hmem => ?_
      exact absurd (word.chars '"' hmem) (by decide)

/-- The name as it stands in front of its mark. -/
def naming : ConstraintNaming where
  word := .plain "CONSTRAINT"
  behind := .single
  name := n.identifier
  isName := n.isIdentifier
  after := .single

/-- No word of a search stands in a name, be it that the name is none of the words or that a quote follows it. -/
def Avoids (words : List String) (Ends : Text → Prop) : MarkName → Prop
  | bare word _ => ∀ other ∈ words, spells sameLetter other.toList word.text = false
  | quoted word => (∀ other ∈ words, spells sameLetter other.toList word.text = false) ∨ ∀ t, ¬Ends ('"' :: t)

variable {n}

theorem avoids_of_blankAhead (hwords : ∀ word ∈ words, word ∈ noteWords) (hends : ∀ t, Ends t → BlankAhead t) :
    n.Avoids words Ends := by
  cases n with
  | bare word plain => exact fun other hother => Word.spells_eq_false plain (hwords other hother)
  | quoted word => exact .inr fun t ht => not_blankAhead_cons (by decide) (hends _ ht)

theorem silent_identifier (hopens : OpensWith words Ends p) (hwords : Lettered words) (h : n.Avoids words Ends)
    (hv : Stops isWordChar v) : p.Silent before (' ' :: n.identifier) v := by
  cases n with
  | bare word _ => exact hopens.silent_blank_word word.chars word.nonempty hv (.inl h)
  | quoted word =>
      have hquote : ∀ {before : Option Char} {t : Text}, ¬WordAhead words Ends before ('"' :: t) :=
        not_wordAhead_cons hwords (by decide) (.inl (by decide))
      have hword : p.Silent (some '"') word.text (['"'] ++ v) :=
        hopens.silent_word word.chars (stops_cons.mpr (by decide)) (h.imp_right fun hends => hends v)
      have hclose : ∀ before, p.Silent before ['"'] v := fun before =>
        silent_cons.mpr ⟨hopens.read?_eq_none hquote, silent_nil v⟩
      exact silent_cons.mpr ⟨hopens.read?_eq_none fun hahead => hquote ((wordAhead_blank (by decide)).mp hahead),
        silent_cons.mpr ⟨hopens.read?_eq_none hquote, hword.append (hclose _)⟩⟩

theorem text_eq (n : MarkName) : n.text = (' ' :: "CONSTRAINT".toList) ++ ' ' :: n.identifier := rfl

theorem silent_text (hopens : OpensWith words Ends p) (hwords : Lettered words)
    (hno : ∀ word ∈ words, spells sameLetter word.toList "CONSTRAINT".toList = false) (h : n.Avoids words Ends)
    (hv : Stops isWordChar v) : p.Silent before n.text v := by
  have hopening : p.Silent before (' ' :: "CONSTRAINT".toList) (' ' :: n.identifier ++ v) :=
    hopens.silent_blank_word (by decide) (by decide) (stops_cons.mpr (by decide)) (.inl hno)
  rw [text_eq]
  exact hopening.append (silent_identifier hopens hwords h hv)

end MarkName

def nameOpening : SqlPattern := wordEdge ++ keyword "CONSTRAINT" ++ blanks ++ identifier ++ blanks

theorem read?_named_eq_none (hnamed : (gap ++ (nameOpening ++ q) : SqlPattern).read? before t = none)
    (hq : (gap ++ q : SqlPattern).read? before t = none) :
    (gap ++ (markerName ++ q) : SqlPattern).read? before t = none := by
  rw [read?_seq_eq_none] at hnamed hq ⊢
  intro a ha
  rw [markerName, read?_maybe_seq, hq a ha, Option.or_none]
  exact hnamed a ha

/-- What stands behind an identifier decides whether a blank and more can be read there. -/
theorem rejects_identifier {i : Text} (hi : IsIdentifier i) (hv : Stops isBareChar v) (hq : (blanks ++ q).Rejects v) :
    (identifier ++ (blanks ++ q)).Rejects (i ++ v) := by
  intro before
  rw [read?_seq_eq_none]
  intro a ha
  cases hread : (blanks ++ q).read? (lastOf before a.read) a.rest with
  | none => rfl
  | some r =>
      have hstops : Stops isBareChar a.rest := by
        have hsome : (blanks ++ q).read? (lastOf before a.read) a.rest ≠ none := hread ▸ Option.some_ne_none r
        exact (blankAhead_of_read? hsome).stopsBare
      have hrest : a.rest = v :=
        identifier_rest_unique ha (mem_of_read? (hi v hv before)) hstops hv
      rw [hrest, hq] at hread
      cases hread

theorem opensWith_nameOpening (q : SqlPattern) : OpensWith ["CONSTRAINT"]
    (fun w => ∃ before, (blanks ++ (identifier ++ (blanks ++ q))).read? before w ≠ none)
    (gap ++ (nameOpening ++ q)) := by
  have hopens : OpensWith ["CONSTRAINT"]
      (fun w => ∃ before, (blanks ++ (identifier ++ (blanks ++ q))).read? before w ≠ none) (nameOpening ++ q) := by
    rw [nameOpening]
    simp only [opensWith_assoc]
    refine opensWith_edge (by decide) (by decide) fun t before h => ?_
    obtain ⟨e, w, ht, hspells, hread⟩ := exists_of_read?_keyword_seq h
    exact ⟨e, w, ht, hspells, (blankAhead_of_read? hread).stopsWord, _, hread⟩
  exact hopens.gap

theorem stopsWord_of_bare (h : Stops isBareChar v) : Stops isWordChar v := by
  intro c hc
  have hbare := h c hc
  rw [isBareChar, Bool.or_eq_false_iff] at hbare
  exact hbare.1

/-- A name is not read where its mark does not follow it. -/
theorem silent_nameOpening (n : MarkName) (hv : Stops isBareChar v) (hq : (blanks ++ q).Rejects v) :
    (gap ++ (nameOpening ++ q)).Silent before n.text v := by
  have hopens := opensWith_nameOpening q
  have hopening :
      (gap ++ (nameOpening ++ q)).Silent before (' ' :: "CONSTRAINT".toList) (' ' :: n.identifier ++ v) := by
    refine hopens.silent_blank_word (by decide) (by decide) (stops_cons.mpr (by decide)) (.inr ?_)
    rintro ⟨before, hread⟩
    exact hread (Rejects.blanks (n.isIdentifier.stops v) (rejects_identifier n.isIdentifier hv hq) before)
  have havoids : n.Avoids ["CONSTRAINT"]
      (fun w => ∃ before, (blanks ++ (identifier ++ (blanks ++ q))).read? before w ≠ none) :=
    MarkName.avoids_of_blankAhead (by decide) fun t ⟨_, hread⟩ => blankAhead_of_read? hread
  rw [MarkName.text_eq]
  exact hopening.append (MarkName.silent_identifier hopens (by decide) havoids (stopsWord_of_bare hv))

theorem rejects_edge (h : q.Rejects t) : (wordEdge ++ q).Rejects t := by
  intro before
  rw [read?_seq_eq_none]
  intro a ha
  rw [eq_of_mem_wordEdge ha]
  exact h _

namespace InlineMark

variable (m : InlineMark)

theorem clause_kind : m.clause.kind = .mark m.kind := by cases m <;> rfl

def word : InlineMark → String
  | notNull => "NOT"
  | primaryKey => "PRIMARY"
  | references _ => "REFERENCES"

theorem word_mem : m.word ∈ ["NOT", "PRIMARY", "REFERENCES"] := by cases m <;> simp [word]

theorem exists_text_eq : ∃ w, m.text = ' ' :: (m.word.toList ++ ' ' :: w) := by
  obtain ⟨w, hw⟩ := m.clause.exists_text_eq
  exact ⟨w, by cases m <;> exact hw⟩

end InlineMark

/-- A text in front of which a name is not that of a mark of the kind. No mark is `NOT NULL` and has a name. -/
def EndsName (k : MarkKind) (v : Text) : Prop :=
  v = [] ∨ ∃ (m : InlineMark) (w : Text), (m.kind = k → k = .notNull) ∧ v = m.text ++ w

theorem EndsName.stopsBare (h : EndsName k v) : Stops isBareChar v := by
  rcases h with rfl | ⟨m, w, -, rfl⟩
  · exact stops_nil _
  · obtain ⟨rest, hrest⟩ := m.exists_text_eq
    rw [hrest]
    exact stops_cons.mpr (by decide)

/-- Nothing that opens with the word of a mark is read where another mark follows. -/
theorem EndsName.rejects (h : EndsName k v)
    (hother : ∀ m : InlineMark, (m.kind = k → k = .notNull) → ∀ w, q.Rejects (m.word.toList ++ w)) :
    (blanks ++ q).Rejects v := by
  rcases h with rfl | ⟨m, w, hm, rfl⟩
  · exact rejects_blanks (stops_nil _)
  · obtain ⟨rest, hrest⟩ := m.exists_text_eq
    have hwords : ∀ word ∈ ["NOT", "PRIMARY", "REFERENCES"], word.toList ≠ [] ∧ Stops isBlank word.toList := by decide
    obtain ⟨hne, hstops⟩ := hwords _ m.word_mem
    rw [hrest, List.cons_append, List.append_assoc]
    exact .blanks (stops_append hne hstops _) (hother m hm _)

/-- A search for a mark that may have a name passes over a name that is not that of such a mark. -/
theorem silent_named {word : String} (hword : word ∈ ["PRIMARY", "REFERENCES"]) (hopens : OpensWith [word] BlankAhead q)
    (n : MarkName) (hv : Stops isBareChar v) (hq : (blanks ++ q).Rejects v) :
    (gap ++ (markerName ++ q)).Silent before n.text v := by
  have hall : ∀ word ∈ ["PRIMARY", "REFERENCES"], Lettered [word] ∧ word ∈ noteWords ∧
      spells sameLetter word.toList "CONSTRAINT".toList = false := by decide
  obtain ⟨hletters, hnote, hno⟩ := hall word hword
  have hown : (gap ++ q).Silent before n.text v :=
    MarkName.silent_text hopens.gap hletters (fun other h => List.mem_singleton.mp h ▸ hno)
      (MarkName.avoids_of_blankAhead (fun other h => List.mem_singleton.mp h ▸ hnote) fun _ h => h)
      (stopsWord_of_bare hv)
  have hnamed : (gap ++ (nameOpening ++ q)).Silent before n.text v := silent_nameOpening n hv hq
  rw [silent_iff] at hown hnamed ⊢
  exact fun x y hxy hy => read?_named_eq_none (hnamed x y hxy hy) (hown x y hxy hy)

theorem silent_assoc {p q s : SqlPattern} : (p ++ q ++ s).Silent before u v ↔ (p ++ (q ++ s)).Silent before u v := by
  simp only [silent_iff, read?_seq_assoc]

theorem silent_name (n : MarkName) (hv : EndsName k v) : k.marker.Silent before n.text v := by
  cases k with
  | notNull =>
      exact MarkName.silent_text opensWith_notNullMarker (by decide) (by decide)
        (MarkName.avoids_of_blankAhead (by decide) fun _ h => h) (stopsWord_of_bare hv.stopsBare)
  | primaryKey =>
      have hother : ∀ m : InlineMark, (m.kind = .primaryKey → MarkKind.primaryKey = .notNull) → ∀ w,
          (wordEdge ++ (phrase ["PRIMARY", "KEY"] ++ wordEdge) : SqlPattern).Rejects (m.word.toList ++ w) := by
        intro m hm w
        refine rejects_edge (Rejects.seq (Rejects.seq (Rejects.seq (Rejects.of_clash ?_ w) _) _) _)
        cases m with
        | primaryKey => cases hm rfl
        | notNull => decide
        | references => exact (by decide : clashes "PRIMARY".toList "REFERENCES".toList = true)
      simp only [MarkKind.marker, primaryKeyMarker, silent_assoc]
      exact silent_named (by decide) (opensWith_phrase (by decide) (by decide) "KEY" [] _) n hv.stopsBare
          (hv.rejects hother)
  | reference =>
      have hother : ∀ q : SqlPattern, ∀ m : InlineMark, (m.kind = .reference → MarkKind.reference = .notNull) → ∀ w,
          (wordEdge ++ (keyword "REFERENCES" ++ q)).Rejects (m.word.toList ++ w) := by
        intro q m hm w
        refine rejects_edge (Rejects.seq (Rejects.of_clash ?_ w) q)
        cases m with
        | references => cases hm rfl
        | notNull => decide
        | primaryKey => decide
      simp only [MarkKind.marker, referenceMarker, silent_assoc]
      exact silent_named (by decide) (opensWith_blanks (by decide) (by decide) _) n hv.stopsBare
        (hv.rejects (hother _))

namespace MarkName

variable (n : MarkName)

theorem flat : Flat n.text := by
  have hword : ∀ word : Word, Flat word.text := fun word c hc => by
    have hc := word.chars c hc
    exact ⟨ne_of_isWordChar (by decide) hc, ne_of_isWordChar (by decide) hc, ne_of_isWordChar (by decide) hc⟩
  have hidentifier : Flat n.identifier := by
    cases n with
    | bare word _ => exact hword word
    | quoted word =>
        have hquote : Flat ['"'] := by decide
        exact hquote.append ((hword word).append hquote)
  have hopening : Flat opening := by decide
  exact hopening.append hidentifier

end MarkName

namespace InlineMark

variable (m : InlineMark)

/-- A search for the marks of another kind passes over a mark, unless it is a reference. -/
theorem silent (hk : m.kind ≠ k) (href : m.reference? = none) (hv : Stops isWordChar v) :
    k.marker.Silent before m.text v := by
  cases m with
  | notNull =>
      have htext : notNull.text = Mark.notNull.text := Clause.text_notNull
      exact htext ▸ silent_marker_mark (fun heq => hk heq) hv
  | primaryKey =>
      have htext : primaryKey.text = Mark.primaryKey.text := Clause.text_primaryKey
      exact htext ▸ silent_marker_mark (fun heq => hk heq) hv
  | references => cases href

theorem balanced (href : m.reference? = none) : Balanced m.text := by
  cases m with
  | notNull => rfl
  | primaryKey => rfl
  | references => cases href

/-- A mark is read along with its name, unless it is `NOT NULL`. -/
theorem reads_named (name : Option MarkName) (hname : m.kind = .notNull → name = none) (hv : Stops isWordChar v)
    (hend : EndsReference v) : m.kind.marker.Reads (Note.nameText name ++ m.text) v m.clause.parts := by
  have htext : ∀ {word : String} {u : Text}, m.text = ' ' :: (word.toList ++ u) →
      Note.nameText name ++ m.text = Spacing.single.text ++ (ConstraintNaming.textOf (name.map (·.naming)) ++
        ((KeywordText.plain word).text ++ u)) := by
    intro word u hm
    rw [hm]
    cases name with
    | none => rfl
    | some n => simp [Note.nameText, MarkName.text, MarkName.opening, MarkName.naming, ConstraintNaming.textOf,
        ConstraintNaming.text, KeywordText.plain, Spacing.single, Indent.single]
  cases m with
  | notNull =>
      obtain rfl := hname rfl
      have hmark : notNull.text = Mark.notNull.text := Clause.text_notNull
      exact hmark ▸ reads_notNullMark hv
  | primaryKey =>
      have hphrase : (phrase ["PRIMARY", "KEY"] : SqlPattern).Reads (spacedWords ["PRIMARY", "KEY"]) v [] :=
        reads_phrase (by decide) (by decide) _
      have hedge : (phrase ["PRIMARY", "KEY"] ++ wordEdge : SqlPattern).Reads
          ((KeywordText.plain "PRIMARY").text ++ ' ' :: "KEY".toList) v [] :=
        reads_edge hphrase (c := 'Y') rfl (by decide) hv
      have hmark := fun before => read?_marker before .single (name.map (·.naming)) (.plain "PRIMARY") rfl (by decide)
        (by decide) hedge
      have hword : primaryKey.text = ' ' :: ("PRIMARY".toList ++ ' ' :: "KEY".toList) := Clause.text_primaryKey
      rw [htext hword]
      simp only [kind, MarkKind.marker, primaryKeyMarker, reads_assoc]
      exact hmark
  | references r =>
      have hread := r.reads_named (name.map (·.naming)) [] hend
      have hword : (references r).text = ' ' :: ("REFERENCES".toList ++ (r.clause.text.drop 10 ++
          actionText (r.actions.map (·.action) ++ []))) := by
        have hfirst : (references r).text = r.text := Clause.text_references r
        rw [hfirst, r.text_eq, List.append_nil, actionText_actions]
        rfl
      rw [htext hword]
      exact hread

end InlineMark

end SchemaDump.PostgreSQL
