import SchemaDump.Proofs.Definition.ReferentialAction
import SchemaDump.Proofs.Pattern.Parts
import SchemaDump.Proofs.PostgreSQL.ColumnMark
import SchemaDump.Proofs.PostgreSQL.DeclaredKey
/- References on a column. A reference is read at its own place with the table it names, and nowhere in
front of that unless the text there mentions references or leaves the name of a constraint open. -/
namespace SchemaDump.PostgreSQL
open SqlPattern Pattern

variable {before : Option Char} {t u v w x y z : Text} {p : SqlPattern} {r : Match Part}
  {ps : List (Part × Text)}

def referenceWord : SqlPattern := keyword "REFERENCES" ++ one isBlank

def startedName (quote : Char) : SqlPattern :=
  one (· == quote) ++ (run (· != quote) .longest ++ maybe (one (· == quote)))

/-- The name of a constraint that a text ends with or within. -/
def openName : SqlPattern :=
  keyword "CONSTRAINT" ++ (gap ++ (anyOf [startedName '"', startedName backQuote, run isBareChar .longest] ++
    textEnd))

def IsIdentifierText (i : Text) : Prop :=
  (∀ c ∈ i, isBareChar c) ∨ ∃ quote ∈ ['"', backQuote], ∃ x, quote ∉ x ∧ i = quote :: (x ++ [quote])

theorem isIdentifierText_of_mem (hr : r ∈ identifier.readings before t) : IsIdentifierText r.read := by
  have hquoted : ∀ quote ∈ ['"', backQuote], r ∈ (quotedIdentifier quote).readings before t →
      IsIdentifierText r.read := by
    intro quote hquote hr
    obtain ⟨x, -, hx, -, hread, -⟩ := mem_readings_quotedIdentifier hr
    exact .inr ⟨quote, hquote, x, hx, hread⟩
  rcases List.mem_append.mp hr with hr | hr
  · exact hquoted '"' (by decide) hr
  · rcases List.mem_append.mp hr with hr | hr
    · exact hquoted backQuote (by decide) hr
    · exact .inl (mem_readings_run1 hr).2.2.2

theorem mem_readings_longest {accepts : Char → Bool} (hu : ∀ c ∈ u, accepts c) (before : Option Char) (v : Text) :
    (⟨u, [], v⟩ : Match Part) ∈ (run accepts .longest : SqlPattern).readings before (u ++ v) :=
  mem_readings_run.mpr ⟨rfl, rfl, hu⟩

theorem mem_readings_startedName {quote : Char} (before : Option Char) (hx : quote ∉ u)
    (hend : w = [] ∨ w = [quote]) :
    (⟨quote :: (u ++ w), [], []⟩ : Match Part) ∈ (startedName quote).readings before (quote :: (u ++ w)) := by
  have hquote : ∀ {before : Option Char} {t : Text}, (⟨[quote], [], t⟩ : Match Part) ∈
      (one (· == quote) : SqlPattern).readings before (quote :: t) := by
    intro before t
    simp [readings]
  have hclose : ∀ {before : Option Char}, (⟨w, [], []⟩ : Match Part) ∈
      (maybe (one (· == quote)) : SqlPattern).readings before w := by
    intro before
    rcases hend with rfl | rfl
    · exact List.mem_append_right _ (List.mem_singleton_self _)
    · exact List.mem_append_left _ hquote
  have hrun : (⟨u, [], w⟩ : Match Part) ∈
      (run (· != quote) .longest : SqlPattern).readings (some quote) (u ++ w) :=
    mem_readings_longest (fun c hc => bne_iff_ne.mpr fun heq : c = quote => hx (heq ▸ hc)) _ w
  exact mem_readings_seq.mpr ⟨_, hquote, _, mem_readings_seq.mpr ⟨_, hrun, _, hclose, rfl⟩, rfl⟩

/-- A text that ends behind the keyword of a constraint with the start of an identifier. -/
theorem openName_occursIn {k b i : Text} (hk : spells sameLetter "CONSTRAINT".toList k)
    (hb : ∀ c ∈ b, isBlank c) (hi : IsIdentifierText i) (hstart : z <+: i) :
    openName.occursIn (x ++ (k ++ (b ++ z))) = true := by
  have hname : ∃ s : Match Part, s ∈ (anyOf [startedName '"', startedName backQuote, run isBareChar .longest] :
      SqlPattern).readings (lastOf (lastOf (lastOf none x) k) b) z ∧ s.rest = [] := by
    have hbare : (∀ c ∈ z, isBareChar c) → ∃ s : Match Part, s ∈ (anyOf [startedName '"',
        startedName backQuote, run isBareChar .longest] : SqlPattern).readings
          (lastOf (lastOf (lastOf none x) k) b) z ∧ s.rest = [] := by
      intro hz
      have hrun := mem_readings_longest hz (lastOf (lastOf (lastOf none x) k) b) []
      rw [List.append_nil] at hrun
      exact ⟨_, mem_readings_anyOf (by simp) hrun, rfl⟩
    rcases hi with hi | ⟨quote, hquote, u, hu, rfl⟩
    · exact hbare fun c hc => hi c (hstart.subset hc)
    · cases z with
      | nil => exact hbare fun c hc => nomatch hc
      | cons d z =>
          obtain ⟨rfl, hz⟩ := List.cons_prefix_cons.mp hstart
          obtain ⟨a, w, rfl, ha, hend⟩ : ∃ a w, z = a ++ w ∧ d ∉ a ∧ (w = [] ∨ w = [d]) := by
            rcases List.prefix_concat_iff.mp hz with rfl | hz
            · exact ⟨u, [d], rfl, hu, .inr rfl⟩
            · exact ⟨z, [], (List.append_nil z).symm, fun hmem => hu (hz.subset hmem), .inl rfl⟩
          have hstarted := mem_readings_startedName (lastOf (lastOf (lastOf none x) k) b) ha hend
          refine ⟨_, mem_readings_anyOf ?_ hstarted, rfl⟩
          rcases List.mem_cons.mp hquote with rfl | hquote
          · simp
          · rw [List.mem_singleton.mp hquote]
            simp
  obtain ⟨s, hs, hrest⟩ := hname
  have hkeyword : (⟨k, [], b ++ z⟩ : Match Part) ∈ (keyword "CONSTRAINT" : SqlPattern).readings
      (lastOf none x) (k ++ (b ++ z)) := mem_readings_keyword.mpr ⟨rfl, hk, rfl⟩
  have hgap : (⟨b, [], z⟩ : Match Part) ∈ (gap : SqlPattern).readings (lastOf (lastOf none x) k) (b ++ z) :=
    mem_readings_longest hb _ z
  have hend : (⟨[], [], []⟩ : Match Part) ∈ (textEnd : SqlPattern).readings
      (lastOf (lastOf (lastOf (lastOf none x) k) b) s.read) s.rest := by
    rw [hrest]
    exact List.mem_singleton_self _
  exact occursIn_of_mem_readings rfl (mem_readings_seq.mpr ⟨_, hkeyword, _, mem_readings_seq.mpr ⟨_, hgap, _,
    mem_readings_seq.mpr ⟨_, hs, _, hend, rfl⟩, rfl⟩, rfl⟩)

def IsNamingText (m : Text) : Prop :=
  ∃ k b i after, m = k ++ (b ++ (i ++ after)) ∧ spells sameLetter "CONSTRAINT".toList k ∧
    (∀ c ∈ b, isBlank c) ∧ IsIdentifierText i ∧ ∀ c ∈ after, isBlank c

theorem eq_of_mem_wordEdge (hr : r ∈ (wordEdge : SqlPattern).readings before t) : r = ⟨[], [], t⟩ := by
  rw [readings] at hr
  split at hr
  · exact List.mem_singleton.mp hr
  · cases hr

theorem isNamingText_of_mem (hr : r ∈ markerName.readings before t) : r.read = [] ∨ IsNamingText r.read := by
  rcases List.mem_append.mp hr with hr | hr
  · simp only [readings_seq_assoc] at hr
    obtain ⟨edge, hedge, _, hkeyword, rfl⟩ := mem_readings_seq.mp hr
    obtain ⟨k, hk, _, hnamed, rfl⟩ := mem_readings_seq.mp hkeyword
    obtain ⟨b, hb, _, hend, rfl⟩ := mem_readings_seq.mp hnamed
    obtain ⟨i, hi, after, hafter, rfl⟩ := mem_readings_seq.mp hend
    refine .inr ⟨k.read, b.read, i.read, after.read, ?_, (mem_readings_keyword.mp hk).2.1,
      (mem_readings_run1 hb).2.2.2, isIdentifierText_of_mem hi, (mem_readings_run1 hafter).2.2.2⟩
    rw [Match.andThen_read, eq_of_mem_wordEdge hedge]
    rfl
  · rw [List.mem_singleton.mp hr]
    exact .inl rfl

/-- A reading of a reference starts with blanks and the name of the marker, in front of its word. -/
theorem exists_of_mem_referenceMarker (hr : r ∈ referenceMarker.readings before t) :
    ∃ g m e w, t = (g ++ m) ++ (e ++ w) ∧ (∀ c ∈ g, isBlank c) ∧ (m = [] ∨ IsNamingText m) ∧
      spells sameLetter "REFERENCES".toList e ∧ BlankAhead w := by
  rw [referenceMarker] at hr
  simp only [readings_seq_assoc] at hr
  obtain ⟨g, hg, _, hnamed, rfl⟩ := mem_readings_seq.mp hr
  obtain ⟨m, hm, _, hmarker, rfl⟩ := mem_readings_seq.mp hnamed
  obtain ⟨edge, hedge, _, hword, rfl⟩ := mem_readings_seq.mp hmarker
  obtain ⟨e, he, _, hrest, rfl⟩ := mem_readings_seq.mp hword
  obtain ⟨-, hg, hblank⟩ := mem_readings_run.mp hg
  have hsame : edge.rest = m.rest := by rw [eq_of_mem_wordEdge hedge]
  have hname := isNamingText_of_mem hm
  have hm := readings_text markerName _ _ m hm
  obtain ⟨-, hspells, he⟩ := mem_readings_keyword.mp he
  refine ⟨g.read, m.read, e.read, e.rest, ?_, hblank, hname, hspells, ?_⟩
  · rw [← hg, ← hm, ← hsame, ← he, List.append_assoc]
  · exact blankAhead_of_read? fun hnone => List.ne_nil_of_mem hrest (readings_eq_nil_iff.mpr hnone)

theorem eq_nil_of_blank_suffix {a b : Text} (h : ∀ c ∈ (a ++ b).getLast?, isBlank c = false)
    (hb : ∀ c ∈ b, isBlank c) : b = [] := by
  cases hlast : b.getLast? with
  | none => exact List.getLast?_eq_none_iff.mp hlast
  | some c =>
      have hsolid := h c (by rw [List.getLast?_append, hlast]; rfl)
      rw [hb c (List.mem_of_getLast? hlast)] at hsolid
      cases hsolid

/-- Where a text ends with a solid character and leaves no name of a constraint open, what follows it does
not belong to the name of a marker that starts in it. -/
theorem no_naming_across (hu : ∀ c ∈ u.getLast?, isBlank c = false) (hname : openName.occursIn u = false)
    (hxy : u = x ++ y) (hy : y ≠ []) (hz : BlankAhead z) {g m : Text} (hg : ∀ c ∈ g, isBlank c)
    (hm : m = [] ∨ IsNamingText m) : g ++ m ≠ y ++ z := by
  intro hsplit
  have hlast : ∀ c ∈ y.getLast?, isBlank c = false := by
    intro c hc
    apply hu
    rw [hxy, List.getLast?_append, hc]
    rfl
  obtain ⟨n, rfl, hmn⟩ : ∃ n, y = g ++ n ∧ m = n ++ z := by
    rcases exists_append_of_length hsplit with h | ⟨c, n, rfl, -⟩
    · exact h
    · exact absurd (eq_nil_of_blank_suffix (a := []) hlast fun d hd => hg d (List.mem_append_left _ hd)) hy
  have hn : n ≠ [] := by
    rintro rfl
    rw [List.append_nil] at hy hlast
    exact hy (eq_nil_of_blank_suffix (a := []) hlast hg)
  rcases hm with rfl | ⟨k, b, i, after, rfl, hk, hb, hi, hafter⟩
  · exact hn (List.append_eq_nil_iff.mp hmn.symm).1
  -- the text may end in the keyword, in the blanks behind it, in the name or in the blanks behind that
  have hopen : ∀ {e f : Text}, (∀ c ∈ e, isBlank c) → f <+: i → n ≠ k ++ (e ++ f) := by
    rintro e f he hf rfl
    have h := @openName_occursIn (x ++ g) f k e i hk he hi hf
    rw [hxy, ← List.append_assoc, h] at hname
    cases hname
  rcases exists_append_of_length hmn with ⟨a, rfl, ha⟩ | ⟨c, a, rfl, hzc⟩
  · rcases exists_append_of_length ha with ⟨e, rfl, he⟩ | ⟨c, e, rfl, -⟩
    · rcases exists_append_of_length he with ⟨f, rfl, hf⟩ | ⟨c, f, rfl, -⟩
      · have hnil : f = [] := by
          refine eq_nil_of_blank_suffix (a := g ++ (k ++ (b ++ i))) ?_ fun c hc =>
            hafter c (by rw [hf]; exact List.mem_append_left _ hc)
          simpa only [List.append_assoc] using hlast
        exact hopen hb (List.prefix_refl i) (by rw [hnil, List.append_nil])
      · exact hopen hb (List.prefix_append e _) rfl
    · exact hopen (fun d hd => hb d (List.mem_append_left _ hd)) List.nil_prefix (by rw [List.append_nil])
  · have hword := isWordChar_of_spells (by decide) hk c (List.mem_append_right n List.mem_cons_self)
    have hstop := hz.stopsWord
    rw [hzc, stops_cons, hword] at hstop
    cases hstop

theorem referenceWord_occursIn {e : Text} (he : spells sameLetter "REFERENCES".toList e) (hw : BlankAhead w) :
    referenceWord.occursIn (x ++ (e ++ w)) = true := by
  cases w with
  | nil => exact absurd (stops_nil _) hw
  | cons c w =>
      have hc : isBlank c = true := by
        rw [← Bool.not_eq_false]
        exact fun hsolid => hw (stops_cons.mpr hsolid)
      have hkeyword : (⟨e, [], c :: w⟩ : Match Part) ∈ (keyword "REFERENCES" : SqlPattern).readings
          (lastOf none x) (e ++ c :: w) := mem_readings_keyword.mpr ⟨rfl, he, rfl⟩
      have hone : (⟨[c], [], w⟩ : Match Part) ∈ (one isBlank : SqlPattern).readings
          (lastOf (lastOf none x) e) (c :: w) := by
        simp [readings, hc]
      exact occursIn_of_mem_readings rfl (mem_readings_seq.mpr ⟨_, hkeyword, _, hone, rfl⟩)

/-- No reference is read in a text that does not mention any. -/
theorem silent_referenceMarker_end (hword : referenceWord.occursIn u = false) :
    referenceMarker.Silent before u [] := by
  rw [silent_iff]
  intro x y hxy hy
  rw [← readings_eq_nil_iff, List.eq_nil_iff_forall_not_mem]
  intro r hr
  obtain ⟨g, m, e, w, htext, -, -, hspells, hblank⟩ := exists_of_mem_referenceMarker hr
  have hoccurs := @referenceWord_occursIn w (x ++ (g ++ m)) e hspells hblank
  rw [List.append_nil] at htext
  rw [List.append_assoc, ← htext, ← hxy, hword] at hoccurs
  cases hoccurs

/-- Nor is one in front of a blank if the text leaves no name of a constraint open. -/
theorem silent_referenceMarker (hu : ∀ c ∈ u.getLast?, isBlank c = false)
    (hword : referenceWord.occursIn (u ++ v.take 1) = false) (hname : openName.occursIn u = false)
    (hv : BlankAhead v) : referenceMarker.Silent before u v := by
  rw [silent_iff]
  intro x y hxy hy
  rw [← readings_eq_nil_iff, List.eq_nil_iff_forall_not_mem]
  intro r hr
  obtain ⟨g, m, e, w, htext, hg, hm, hspells, hblank⟩ := exists_of_mem_referenceMarker hr
  have hchars := isWordChar_of_spells (by decide) hspells
  have hstop := hv.stopsWord
  rcases exists_append_of_length htext with ⟨z, hgm, hz⟩ | ⟨c, z, hyz, hew⟩
  · -- the word stands behind the text
    cases z with
    | nil =>
        cases e with
        | nil => cases hspells
        | cons c e =>
            rw [hz, List.nil_append, List.cons_append, stops_cons, hchars c List.mem_cons_self] at hstop
            cases hstop
    | cons c z =>
        have hahead : BlankAhead (c :: z) := by
          intro hsolid
          exact hv (by rw [hz]; exact stops_cons.mpr (stops_cons.mp hsolid))
        exact no_naming_across hu hname hxy hy hahead hg hm hgm
  · have hew : e ++ w = (c :: z) ++ v := hew
    rcases exists_append_of_length hew with ⟨k, hk, hw⟩ | ⟨d, k, he, hv'⟩
    · have hahead : BlankAhead (k ++ v.take 1) := by
        have hhead : (k ++ v.take 1).head? = (k ++ v).head? := by
          cases k <;> cases v <;> rfl
        rw [hw] at hblank
        exact fun hsolid => hblank fun d hd => hsolid d (hhead ▸ hd)
      have hoccurs := @referenceWord_occursIn (k ++ v.take 1) (x ++ (g ++ m)) e hspells hahead
      have hsplit : u ++ v.take 1 = (x ++ (g ++ m)) ++ (e ++ (k ++ v.take 1)) := by
        rw [hxy, hyz, hk]
        simp only [List.append_assoc]
      rw [← hsplit, hword] at hoccurs
      cases hoccurs
    · -- nor does it reach into the blank
      rw [hv', stops_cons, hchars d (by rw [he]; simp)] at hstop
      cases hstop

theorem read?_referenceEnd (before : Option Char) (t : Text) : referenceEnd.read? before t ≠ none := by
  rw [referenceEnd, read?_maybe_seq]
  intro hnone
  have hactions := (Option.or_eq_none_iff.mp hnone).2
  rw [← readings_eq_nil_iff, readings] at hactions
  cases t with
  | nil => cases hactions
  | cons c t => exact absurd hactions (List.append_ne_nil_of_right_ne_nil _ (List.cons_ne_nil _ _))

theorem Spacing.lastOf_text (b : Spacing) (before : Option Char) :
    ∃ c, lastOf before b.text = some c ∧ isWordChar c = false := by
  rw [lastOf_eq]
  cases hlast : b.text.getLast? with
  | none => exact absurd (List.getLast?_eq_none_iff.mp hlast) b.nonempty
  | some c => exact ⟨c, rfl, isWordChar_eq_false_of_isBlank (b.blank c (List.mem_of_getLast? hlast))⟩

theorem Spacing.read?_edge (b : Spacing) {word : String} (k : KeywordText word) {letter : Char} {letters : Text}
    (hword : word.toList = letter :: letters) (hletter : letter.isAlpha) (q : SqlPattern) (v : Text) :
    (wordEdge ++ q).read? (lastOf before b.text) (k.text ++ v) = q.read? (lastOf before b.text) (k.text ++ v) := by
  obtain ⟨d, hd, hedge⟩ := b.lastOf_text before
  obtain ⟨c, rest, htext, hc⟩ := k.exists_head hword
  rw [hd, htext]
  exact read?_edge_seq hedge (isWordChar_of_sameLetter hletter hc) q _

/-- A marker behind blanks, with the name that it may have. -/
theorem read?_marker (before : Option Char) (b : Spacing) (n : Option ConstraintNaming) {word : String}
    (k : KeywordText word)
    {letter : Char} {letters : Text} (hword : word.toList = letter :: letters) (hletter : letter.isAlpha)
    (hother : letter.toLower ≠ 'C'.toLower) (hp : p.Reads (k.text ++ u) v ps) :
    (gap ++ (markerName ++ (wordEdge ++ p)) : SqlPattern).read? before
        (b.text ++ (ConstraintNaming.textOf n ++ (k.text ++ u)) ++ v) =
      some ⟨b.text ++ (ConstraintNaming.textOf n ++ (k.text ++ u)), ps, v⟩ := by
  have hblank : ∀ w, Stops isBlank (k.text ++ w) := k.stops_blank hword hletter
  cases n with
  | none =>
      have hgap : (gap : SqlPattern).read? before (b.text ++ ((k.text ++ u) ++ v)) =
          some ⟨b.text, [], (k.text ++ u) ++ v⟩ := by
        refine b.toIndent.reads ?_ before
        rw [List.append_assoc]
        exact hblank _
      have hnamed : (markerName ++ (wordEdge ++ p)).read? (lastOf before b.text) ((k.text ++ u) ++ v) =
          some ⟨k.text ++ u, ps, v⟩ := by
        rw [List.append_assoc, read?_markerName_seq (k.stops_letter hword hletter (by decide) hother _),
          b.read?_edge k hword hletter, ← List.append_assoc]
        exact hp _
      have h := read?_seq hgap hnamed
      simpa only [ConstraintNaming.textOf, List.nil_append, List.append_assoc, Match.andThen,
        List.append_nil] using h
  | some n =>
      have hgap : (gap : SqlPattern).read? before (b.text ++ (n.text ++ ((k.text ++ u) ++ v))) =
          some ⟨b.text, [], n.text ++ ((k.text ++ u) ++ v)⟩ := by
        refine b.toIndent.reads ?_ before
        rw [ConstraintNaming.text, List.append_assoc]
        exact n.word.stops_blank rfl (by decide) _
      have hclause : (keyword "CONSTRAINT" ++ (blanks ++ (identifier ++ blanks)) : SqlPattern).Reads n.text
          ((k.text ++ u) ++ v) [] := by
        have h := n.reads (v := (k.text ++ u) ++ v) (by rw [List.append_assoc]; exact hblank _)
        simpa only [nameClause, reads_assoc] using h
      have hmarker : markerName.read? (lastOf before b.text) (n.text ++ ((k.text ++ u) ++ v)) =
          some ⟨n.text, [], (k.text ++ u) ++ v⟩ := by
        apply read?_alt_of_some
        have hread := hclause (lastOf before b.text)
        simp only [read?_seq_assoc]
        rw [ConstraintNaming.text, List.append_assoc] at hread ⊢
        rw [b.read?_edge n.word rfl (by decide)]
        exact hread
      have hedge : (wordEdge ++ p).read? (lastOf (lastOf before b.text) n.text) ((k.text ++ u) ++ v) =
          some ⟨k.text ++ u, ps, v⟩ := by
        have hlast : lastOf (lastOf before b.text) n.text =
            lastOf (lastOf (lastOf before b.text) (n.word.text ++ (n.behind.text ++ n.name))) n.after.text := by
          simp only [ConstraintNaming.text, lastOf_append]
        have hread := hp (lastOf (lastOf before b.text) n.text)
        rw [List.append_assoc, hlast] at hread ⊢
        exact (n.after.read?_edge k hword hletter p _).trans hread
      have h := read?_seq hgap (read?_seq hmarker hedge)
      simpa only [ConstraintNaming.textOf, List.append_assoc, Match.andThen, List.append_nil] using h

/-- A reference is read with the table it names, whatever stands behind it. -/
theorem read?_referenceMarker (b : Spacing) (n : Option ConstraintNaming) (c : ReferenceClause) (v : Text) :
    ∃ r, referenceMarker.read? before (b.text ++ (ConstraintNaming.textOf n ++ c.text) ++ v) = some r ∧
      r.part .table = c.target.text ∧ r.part .columns = c.columns.text := by
  have hclause := c.reads (fun _ h => h.part Part.table) ((c.columns.reads v).part Part.columns)
  have hhead := read?_marker before b n c.word rfl (by decide) (by decide) hclause
  obtain ⟨s, hs⟩ := Option.ne_none_iff_exists'.mp (read?_referenceEnd
    (lastOf before (b.text ++ (ConstraintNaming.textOf n ++ c.text))) v)
  have hpart : ∀ {label} {a : Match Part}, (a.andThen s).part? label = a.part? label :=
    part?_andThen_of_not_mem List.not_mem_nil (mem_of_read? hs)
  refine ⟨Match.andThen ⟨b.text ++ (ConstraintNaming.textOf n ++ c.text),
    [(.columns, c.columns.text), (.table, c.target.text)], v⟩ s, ?_, ?_, ?_⟩
  · rw [referenceMarker, read?_seq_assoc]
    refine read?_seq ?_ hs
    simp only [read?_seq_assoc]
    exact hhead
  · rw [Match.part, hpart]
    rfl
  · rw [Match.part, hpart]
    rfl

end SchemaDump.PostgreSQL
