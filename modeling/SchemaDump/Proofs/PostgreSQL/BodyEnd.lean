import SchemaDump.Proofs.PostgreSQL.Body
/- A body ends in front of the last parenthesis of its statement. A parenthesis within it is taken for
the end only if a list of parent tables that is still open stands behind it, and no line holds one. -/
namespace SchemaDump.PostgreSQL
open SqlPattern Pattern

variable {before : Option Char} {t u v w : Text}

def parents : SqlPattern :=
  gap ++ keyword "INHERITS" ++ gap ++ literal "(" ++ run (· != ')') .longest ++ literal ")"

def bodyEnd : SqlPattern := literal ")" ++ (maybe parents ++ (gap ++ literal ";"))

/-- Every parenthesis that a text opens is closed in it, or stands in a quoted literal and does not
open a list of parent tables there. -/
def Guarded (t : Text) : Prop :=
  ∀ x z, t = x ++ '(' :: z →
    ')' ∈ z ∨ ∃ a b, x = a ++ '\'' :: b ∧ (parentsOpening ++ textEnd).occursIn b = false

theorem Guarded.append (hu : Guarded u) (hv : Guarded v) : Guarded (u ++ v) := by
  intro x z hxz
  rcases exists_append_of_length hxz with ⟨y, rfl, hvz⟩ | ⟨c, y, huy, hz⟩
  · refine (hv y z hvz).imp_right ?_
    rintro ⟨a, b, rfl, hb⟩
    exact ⟨u ++ a, b, (List.append_assoc _ _ _).symm, hb⟩
  · obtain ⟨rfl, rfl⟩ := List.cons.inj hz
    exact (hu x y huy).imp_left fun h => List.mem_append_left _ h

theorem guarded_of_not_mem (h : '(' ∉ t) : Guarded t := by
  rintro x z rfl
  exact absurd (List.mem_append_right x List.mem_cons_self) h

theorem guarded_flatMap {α : Type} {text : α → Text} (h : ∀ a, Guarded (text a)) (l : List α) :
    Guarded (l.flatMap text) := by
  induction l with
  | nil => exact guarded_of_not_mem List.not_mem_nil
  | cons a l ih => exact (h a).append ih

/-- What stands in parentheses is closed at its end. -/
theorem guarded_closed (t : Text) : Guarded (t ++ [')']) := by
  intro x z hxz
  left
  have hlast : (x ++ '(' :: z).getLast? = some ')' := by rw [← hxz, List.getLast?_concat]
  cases z with
  | nil =>
      rw [List.getLast?_concat] at hlast
      exact absurd (Option.some.inj hlast) (by decide)
  | cons c z =>
      rw [List.getLast?_append, List.getLast?_cons_cons] at hlast
      cases hc : (c :: z).getLast? with
      | none => exact absurd (List.getLast?_eq_none_iff.mp hc) (List.cons_ne_nil c z)
      | some d =>
          rw [hc] at hlast
          exact Option.some.inj hlast ▸ List.mem_of_getLast? hc

/-- In a guarded text no list of parent tables is left open. -/
theorem Guarded.openParents_occursIn (h : Guarded t) : openParents.occursIn t = false := by
  rw [occursIn_eq_false_iff]
  intro x y hxy
  rw [← readings_eq_nil_iff, List.eq_nil_iff_forall_not_mem]
  intro r hr
  obtain ⟨a, ha, m, hm, rfl⟩ := mem_readings_seq.mp hr
  obtain ⟨p, hp, n, hn, rfl⟩ := mem_readings_seq.mp hm
  obtain ⟨z, hz, e, he, rfl⟩ := mem_readings_seq.mp hn
  obtain ⟨-, hpread, hptext⟩ := mem_readings_literal.mp hp
  obtain ⟨-, hztext, hzall⟩ := mem_readings_run.mp hz
  have hend : z.rest = [] := (mem_readings_textEnd.mp he).1
  have htext : y = a.read ++ '(' :: z.read := by
    rw [← readings_text _ _ _ a ha, ← hptext, hpread, ← hztext, hend, List.append_nil]
    rfl
  rcases h (x ++ a.read) z.read (by rw [hxy, htext, List.append_assoc]) with hclose | ⟨l, b, hlb, hb⟩
  · exact bne_iff_ne.mp (hzall _ hclose) rfl
  · rcases exists_append_of_length hlb with ⟨k, -, hk⟩ | ⟨c, k, -, hk⟩
    · exact not_mem_read ha (c := '\'') (by decide) (by rw [hk]; simp)
    · obtain ⟨-, rfl⟩ := List.cons.inj hk
      exact read?_textEnd_ne_none rfl ha _ (occursIn_eq_false_iff.mp hb k a.read rfl)

/-- A list of parent tables is open behind its opening until a parenthesis closes it. -/
theorem openParents_occursIn {x z : Text} (h : (parentsOpening ++ textEnd).occursIn x = true)
    (hz : ')' ∉ z) : openParents.occursIn (x ++ '(' :: z) = true := by
  obtain ⟨m, n, rfl, hread⟩ := occursIn_iff.mp h
  obtain ⟨r, hr⟩ := Option.ne_none_iff_exists'.mp hread
  obtain ⟨a, ha, b, hb, -⟩ := mem_readings_seq.mp (mem_of_read? hr)
  obtain ⟨hrest, -⟩ := mem_readings_textEnd.mp hb
  have hext := mem_readings_append (v := '(' :: z) (p := parentsOpening) rfl ha
  refine occursIn_iff.mpr ⟨m, n ++ '(' :: z, by rw [List.append_assoc], ?_⟩
  have hall : ∀ c ∈ z, (c != ')') = true := fun c hc => bne_iff_ne.mpr fun h => hz (h ▸ hc)
  have hrun : ∀ before, (run (· != ')') .longest ++ textEnd : SqlPattern).read? before z ≠ none := by
    intro before
    have hlongest : (run (· != ')') .longest : SqlPattern).read? before (z ++ []) = some ⟨z, [], []⟩ :=
      read?_longest hall (stops_nil _)
    rw [List.append_nil] at hlongest
    exact read?_seq_ne_none hlongest (Option.some_ne_none _)
  intro hnone
  have hparen := read?_seq_eq_none.mp hnone _ hext
  rw [Match.extend_rest, hrest, List.nil_append, show '(' :: z = "(".toList ++ z from rfl,
    read?_literal_seq, Option.map_eq_none_iff] at hparen
  exact hrun _ hparen

theorem guarded_quoted (l : Content) (hl : openParents.occursIn l.text = false) : Guarded l.quoted := by
  intro x z hxz
  cases x with
  | nil => exact absurd (List.cons.inj hxz).1 (by decide)
  | cons q x =>
      obtain ⟨rfl, hcontent⟩ := List.cons.inj hxz
      rcases exists_append_of_length hcontent with ⟨k, -, hk⟩ | ⟨c, k, htext, hz⟩
      · cases k with
        | nil => exact absurd (List.cons.inj hk).1 (by decide)
        | cons d k =>
            exact absurd (List.cons.inj hk).2.symm
              (List.append_ne_nil_of_right_ne_nil k (List.cons_ne_nil _ _))
      · obtain ⟨rfl, rfl⟩ := List.cons.inj hz
        by_cases hclose : ')' ∈ k
        · exact .inl (List.mem_append_left _ hclose)
        · refine .inr ⟨[], x, rfl, ?_⟩
          cases hoccurs : (parentsOpening ++ textEnd).occursIn x with
          | false => rfl
          | true =>
              have hopen := openParents_occursIn hoccurs hclose
              rw [← htext, hl] at hopen
              cases hopen

theorem rejects_gap_semicolon (hu : ';' ∉ u) (v : Text) :
    (gap ++ literal ";" : SqlPattern).Rejects (u ++ ')' :: v) := by
  intro before
  rw [read?_seq_eq_none]
  intro g hg
  obtain ⟨-, htext, hblank⟩ := mem_readings_run.mp hg
  refine Rejects.of_starts (p := literal ";") rfl ?_ _
  intro c hc
  have hne : c ≠ ';' := by
    rintro rfl
    obtain ⟨rest, hrest⟩ : ∃ rest, g.rest = ';' :: rest := by
      cases hg : g.rest with
      | nil => rw [hg] at hc; cases hc
      | cons d rest => rw [hg] at hc; exact ⟨rest, by rw [Option.some.inj hc]⟩
    rw [hrest] at htext
    rcases exists_append_of_length htext.symm with ⟨z, hz, hv⟩ | ⟨d, z, hz, hv⟩
    · have hparen : ')' ∈ g.read := by
        cases z with
        | nil => exact absurd (List.cons.inj hv).1 (by decide)
        | cons d z =>
            obtain ⟨rfl, -⟩ := List.cons.inj hv
            rw [hz]
            simp
      exact absurd (hblank ')' hparen) (by decide)
    · obtain ⟨rfl, -⟩ := List.cons.inj hv
      exact hu (by rw [hz]; simp)
  simp [literal, hne]

/-- What stands in front of the parenthesis of a list of parent tables. -/
def inherits : SqlPattern := gap ++ (keyword "INHERITS" ++ gap)

def parentList : SqlPattern := literal "(" ++ (run (· != ')') .longest ++ literal ")")

theorem readings_parents (before : Option Char) (t : Text) :
    parents.readings before t = (inherits ++ parentList).readings before t := by
  simp only [parents, readings_seq_assoc]
  rw [inherits, parentList, readings_seq_assoc, readings_seq gap, readings_seq gap]
  simp only [readings_seq_assoc]

theorem mem_readings_parentList {r : Match Part} (h : r ∈ parentList.readings before t) :
    ∃ w, t = '(' :: (w ++ ')' :: r.rest) ∧ ')' ∉ w := by
  obtain ⟨p, hp, m, hm, rfl⟩ := mem_readings_seq.mp h
  obtain ⟨w, hw, q, hq, rfl⟩ := mem_readings_seq.mp hm
  obtain ⟨-, hpread, hprest⟩ := mem_readings_literal.mp hp
  obtain ⟨-, hwrest, hwall⟩ := mem_readings_run.mp hw
  obtain ⟨-, hqread, hqrest⟩ := mem_readings_literal.mp hq
  refine ⟨w.read, ?_, fun hmem => bne_iff_ne.mp (hwall _ hmem) rfl⟩
  rw [← hprest, hpread, ← hwrest, ← hqrest, hqread]
  rfl

/-- What a list of parent tables reads behind a closing parenthesis. -/
theorem exists_of_mem_readings_parents {c : Match Part} (h : c ∈ parents.readings before t) :
    ∃ o w, t = o ++ '(' :: (w ++ ')' :: c.rest) ∧ ')' ∉ w ∧ ')' ∉ o ∧ '\'' ∉ o ∧
      ∀ before, (parentsOpening ++ textEnd).read? before (')' :: o) ≠ none := by
  rw [readings_parents] at h
  obtain ⟨a, ha, b, hb, rfl⟩ := mem_readings_seq.mp h
  obtain ⟨w, hw, hclose⟩ := mem_readings_parentList hb
  have htext := readings_text _ _ _ a ha
  refine ⟨a.read, w, by rw [← htext, hw]; rfl, hclose, not_mem_read ha (by decide),
    not_mem_read ha (by decide), ?_⟩
  intro before'
  have hparen : (literal ")" : SqlPattern).readings before' (')' :: a.read) = [⟨[')'], [], a.read⟩] :=
    readings_literal ")" before' a.read
  have hopening : (parentsOpening ++ textEnd).read? before' (')' :: a.read) =
      (literal ")" ++ (inherits ++ textEnd)).read? before' (')' :: a.read) := by
    rw [show parentsOpening = literal ")" ++ inherits from rfl, read?_seq_assoc]
  rw [hopening, read?_single_seq hparen, ne_eq, Option.map_eq_none_iff]
  exact read?_textEnd_ne_none rfl ha _

/-- Behind a parenthesis of a body a list of parent tables ends within the body. -/
theorem exists_rest_of_mem_readings_parents {x y : Text} (hguarded : Guarded (x ++ ')' :: y))
    {c : Match Part} (h : c ∈ parents.readings before (y ++ ')' :: v)) :
    ∃ z, (∀ d ∈ z, d ∈ y) ∧ c.rest = z ++ ')' :: v := by
  obtain ⟨o, w, ho, hw, hclose, hquote, hread⟩ := exists_of_mem_readings_parents h
  -- the list is opened within the body
  obtain ⟨z, rfl, hzw⟩ : ∃ z, y = o ++ '(' :: z ∧ z ++ ')' :: v = w ++ ')' :: c.rest := by
    rcases exists_append_of_length ho with ⟨z, hz, hv⟩ | ⟨d, z, hyz, hv⟩
    · cases z with
      | nil => exact absurd (List.cons.inj hv).1 (by decide)
      | cons d z =>
          obtain ⟨rfl, -⟩ := List.cons.inj hv
          exact absurd (by rw [hz]; simp) hclose
    · obtain ⟨rfl, hzw⟩ := List.cons.inj hv
      exact ⟨z, hyz, hzw.symm⟩
  -- and closed in it: in a literal a list that is still open does not stand
  have hclosed : ')' ∈ z := by
    rcases hguarded (x ++ ')' :: o) z (by simp) with hin | ⟨f, g, hfg, hg⟩
    · exact hin
    · rcases exists_append_of_length hfg with ⟨k, -, hk⟩ | ⟨d, l, -, hk⟩
      · have hmem : '\'' ∈ ')' :: o := by rw [hk]; simp
        rcases List.mem_cons.mp hmem with h | h
        · exact absurd h (by decide)
        · exact absurd h hquote
      · obtain ⟨-, rfl⟩ := List.cons.inj hk
        exact absurd (occursIn_eq_false_iff.mp hg l (')' :: o) rfl) (hread _)
  rcases exists_append_of_length hzw.symm with ⟨k, rfl, hk⟩ | ⟨d, l, rfl, -⟩
  · cases k with
    | nil => exact absurd hclosed (by rwa [List.append_nil])
    | cons d k =>
        obtain ⟨rfl, hrest⟩ := List.cons.inj hk
        exact ⟨k, fun c hc => by simp [hc], hrest⟩
  · exact absurd (List.mem_append_left _ hclosed) hw

/-- The lines of a body do not end it, whatever follows the parenthesis behind them. -/
theorem silent_bodyEnd (hguarded : Guarded u) (hu : ';' ∉ u) (v : Text) :
    bodyEnd.Silent before u (')' :: v) := by
  rw [silent_iff]
  intro x y hxy hy
  obtain ⟨d, y, rfl⟩ := List.exists_cons_of_ne_nil hy
  have hsemicolon : ';' ∉ y := fun h => hu (by rw [hxy]; simp [h])
  by_cases hd : d = ')'
  · subst hd
    have htext : ')' :: y ++ ')' :: v = ")".toList ++ (y ++ ')' :: v) := rfl
    rw [bodyEnd, htext, read?_literal_seq, Option.map_eq_none_iff]
    refine read?_seq_eq_none.mpr fun c hc => ?_
    rcases List.mem_append.mp hc with hc | hc
    · obtain ⟨z, hz, hrest⟩ := exists_rest_of_mem_readings_parents (hxy ▸ hguarded) hc
      rw [hrest]
      exact rejects_gap_semicolon (fun h => hsemicolon (hz _ h)) _ _
    · rw [List.mem_singleton.mp hc]
      exact rejects_gap_semicolon hsemicolon _ _
  · have hparen : (literal ")" : SqlPattern).Rejects (d :: (y ++ ')' :: v)) :=
      .of_starts rfl (stops_cons.mpr (by simp [literal, hd]))
    exact hparen.seq _ _

theorem silent_bodyEnd_of_no_paren (h : ')' ∉ u) : bodyEnd.Silent before u v := by
  refine silent_of_starts rfl fun c hc => ?_
  have hne : c ≠ ')' := fun heq => h (heq ▸ hc)
  simp [bodyEnd, append_eq_seq, literal, starts, hne]

theorem guarded_wordChars (h : ∀ c ∈ t, isWordChar c) : Guarded t :=
  guarded_of_not_mem fun hmem => absurd (h _ hmem) (by decide)

theorem guarded_name (n : Name) : Guarded n.text :=
  guarded_of_not_mem (n.not_mem_text (by decide) (by decide) (by decide))

theorem guarded_extent (e : Extent) : Guarded e.text := by
  have hdimensions : Guarded (Extent.dimensionText e.dimensions) := by
    refine guarded_of_not_mem fun hmem => ?_
    rcases Extent.mem_dimensionText hmem with h | h <;> exact absurd h (by decide)
  refine Guarded.append ?_ hdimensions
  match e.numbers with
  | .none => exact guarded_of_not_mem List.not_mem_nil
  | some (length, .none) => exact guarded_closed ('(' :: length.text)
  | some (precision, some scale) =>
      have h := guarded_closed ('(' :: (precision.text ++ ',' :: scale.text))
      simpa [Extent.numberText] using h

theorem guarded_type (type : ColumnType) : Guarded type.text := by
  have hword : ∀ w : TypeWord × Extent, Guarded (ColumnType.wordText w) :=
    fun w => (guarded_wordChars w.1.chars).append (guarded_extent w.2)
  have hblank : Guarded [' '] := guarded_of_not_mem (by decide)
  exact (hword type.first).append (guarded_flatMap (fun w => hblank.append (hword w)) type.more)

theorem guarded_mark (m : Mark) : Guarded m.text := by
  cases m with
  | notNull => exact guarded_of_not_mem (by decide)
  | primaryKey => exact guarded_of_not_mem (by decide)
  | references qualified table column =>
      have h := guarded_closed (' ' :: ("REFERENCES".toList ++ ' ' ::
        ((Target.mk qualified (.bare table)).text ++ '(' :: column.text)))
      simpa [Mark.text] using h

theorem guarded_default (d : FreeDefault) (hd : openParents.occursIn d.content.text = false) :
    Guarded d.text := by
  have hcolons : Guarded [':', ':'] := guarded_of_not_mem (by decide)
  have hcast : ∀ c : Cast, Guarded c.text :=
    fun c => hcolons.append ((guarded_type c.words).append (guarded_extent c.extent))
  exact (guarded_quoted d.content hd).append (guarded_flatMap hcast d.casts)

theorem guarded_freeLine (c : FreeLine) (hc : ∀ d ∈ c.default, openParents.occursIn d.content.text = false) :
    Guarded c.text := by
  have hblank : Guarded [' '] := guarded_of_not_mem (by decide)
  have hdefault : Guarded (FreeLine.defaultText c.default) := by
    cases hd : c.default with
    | none => exact guarded_of_not_mem List.not_mem_nil
    | some d =>
        have hkeyword : Guarded (' ' :: ("DEFAULT".toList ++ [' '])) := guarded_of_not_mem (by decide)
        have h := hkeyword.append (guarded_default d (hc d hd))
        simpa [FreeLine.defaultText] using h
  have hnull : Guarded (ColumnLine.notNullText c.notNull) := by
    cases c.notNull
    · exact guarded_of_not_mem List.not_mem_nil
    · exact guarded_of_not_mem (by decide)
  exact (guarded_name c.name).append (hblank.append (((guarded_type c.type).append
    (guarded_flatMap guarded_mark c.marks)).append (hdefault.append hnull)))

theorem guarded_columnLine (c : ColumnLine) : Guarded c.text := by
  rw [← c.free_text]
  refine guarded_freeLine c.free fun d hd => ?_
  obtain ⟨default, -, rfl⟩ := Option.map_eq_some_iff.mp hd
  exact default.literal.noParents

/-- A key ends with a parenthesis, up to what is said behind it. -/
theorem exists_keyText_eq (k : KeyClause) : ∃ t, k.keyText = t ++ [')'] := by
  rw [KeyClause.keyText]
  cases k.key with
  | primaryKey spaced columns _ =>
      exact ⟨namedText (k.constraintName.map (·.text)) ++ (spacedWords ["PRIMARY", "KEY"] ++ ' ' :: '(' ::
        KeyClause.nameList spaced columns), by simp [primaryKeyText]⟩
  | foreignKey spaced columns _ table space references _ suffix =>
      exact ⟨namedText (k.constraintName.map (·.text)) ++ (spacedWords ["FOREIGN", "KEY"] ++ ' ' :: '(' ::
        (KeyClause.nameList spaced columns ++ ')' :: ' ' :: ("REFERENCES".toList ++ ' ' :: (table.text ++
          (KeyClause.spaceText space ++ '(' :: KeyClause.nameList spaced references))))),
        by simp [foreignKeyText]⟩

theorem guarded_keyClause (k : KeyClause) : Guarded k.text := by
  have hsuffix : Guarded k.suffixText := by
    rw [KeyClause.suffixText]
    cases k.key with
    | primaryKey => exact guarded_of_not_mem List.not_mem_nil
    | foreignKey spaced columns _ table space references _ suffix =>
        refine guarded_of_not_mem fun hmem => ?_
        rcases suffix.chars _ hmem with h | h <;> exact absurd h (by decide)
  obtain ⟨t, ht⟩ := exists_keyText_eq k
  rw [KeyClause.text, ht]
  exact (guarded_closed t).append hsuffix

theorem Line.guarded (l : Line) : Guarded l.text := by
  cases l with
  | column line => exact guarded_columnLine line
  | key clause => exact guarded_keyClause clause

theorem Indent.not_mem (i : Indent) {c : Char} (h : isBlank c = false) : c ∉ i.text := by
  intro hmem
  rw [i.blank c hmem] at h
  cases h

/-- A property of texts that lines and what stands between them have is one of all the lines
together. -/
theorem joinLines_closed {P : Text → Prop} (happend : ∀ u v, P u → P v → P (u ++ v))
    (hnil : P []) (hline : ∀ l : Line, P l.text) (indent : Indent) (hbreak : P [',', '\n'])
    (hindent : P indent.text) (lines : List Line) :
    P (TableStatement.joinLines indent.text (lines.map (·.text))) := by
  induction lines with
  | nil => exact hnil
  | cons l lines ih =>
      cases lines with
      | nil => exact hline l
      | cons next lines =>
          exact happend _ _ (hline l) (happend _ _ hbreak (happend _ _ hindent ih))

section Lines

variable (first indent : Indent) (lines : List Line)

theorem guarded_lines : Guarded
    (first.text ++ (TableStatement.joinLines indent.text (lines.map (·.text)) ++ ['\n'])) := by
  have hindent : ∀ i : Indent, Guarded i.text := fun i => guarded_of_not_mem (i.not_mem (by decide))
  exact (hindent first).append ((joinLines_closed (fun _ _ => Guarded.append)
    (guarded_of_not_mem List.not_mem_nil) Line.guarded indent (guarded_of_not_mem (by decide))
      (hindent indent) lines).append (guarded_of_not_mem (by decide)))

theorem no_semicolon_lines :
    ';' ∉ first.text ++ (TableStatement.joinLines indent.text (lines.map (·.text)) ++ ['\n']) := by
  have happend : ∀ u v : Text, ';' ∉ u → ';' ∉ v → ';' ∉ u ++ v :=
    fun u v hu hv h => (List.mem_append.mp h).elim hu hv
  have hindent : ∀ i : Indent, ';' ∉ i.text := fun i => i.not_mem (by decide)
  exact happend _ _ (hindent first) (happend _ _ (joinLines_closed (P := (';' ∉ ·)) happend
    List.not_mem_nil (fun l h => (l.unbroken _ h).1 rfl) indent (by decide) (hindent indent)
      lines) (by decide))

end Lines

theorem TableStatement.silent_body (t : TableStatement) (v : Text) :
    bodyEnd.Silent before t.body (')' :: v) := by
  rw [body, ← t.lines_text]
  exact silent_bodyEnd (guarded_lines _ _ _) (no_semicolon_lines _ _ _) v

end SchemaDump.PostgreSQL
