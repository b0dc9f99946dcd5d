import SchemaDump.Proofs.PostgreSQL.FreeLine
import SchemaDump.Proofs.PostgreSQL.TypeText
/- Reading a column line. The type ends where a default, `NOT NULL` at the end of the line or the
end itself can be read for the first time, and the default ends in the same way. -/
namespace SchemaDump.PostgreSQL
open SqlPattern Pattern

variable {before : Option Char} {t u v : Text}

def defaultOption : SqlPattern :=
  blanks ++ keyword "DEFAULT" ++ blanks ++ part .default (run1 (· != '\n') .shortest)

def notNullOption : SqlPattern := blanks ++ part .notNull (phrase ["NOT", "NULL"])

def notNullTail : SqlPattern := maybe notNullOption ++ (gap ++ textEnd)

def optionTail : SqlPattern := maybe defaultOption ++ notNullTail

def columnName : SqlPattern :=
  alt (within '"' (part .quotedName (unquotedRun '"'))) (part .name (run1 isWordChar .longest))

theorem reads_columnDefinition_iff {ps : List (Part × Text)} :
    columnDefinition.Reads u v ps ↔ (columnName ++ (blanks ++
      (part Part.type (run1 (· != '\n') .shortest) ++ optionTail))).Reads u v ps := by
  simp only [columnDefinition, reads_assoc]
  rfl

/-- A text does not end where something other than a blank stands in it. -/
theorem rejects_gap_textEnd (h : ∃ c ∈ t, isBlank c = false) :
    (gap ++ textEnd : SqlPattern).Rejects t := by
  intro before
  rw [read?_seq_eq_none]
  intro a ha
  obtain ⟨-, htext, hblank⟩ := mem_readings_run.mp ha
  cases hrest : a.rest with
  | cons c rest => rfl
  | nil =>
      obtain ⟨c, hc, hsolid⟩ := h
      rw [hrest, List.append_nil] at htext
      rw [hblank c (htext ▸ hc)] at hsolid
      cases hsolid

theorem exists_solid (hne : t ≠ []) (ht : Stops isBlank t) : ∃ c ∈ t, isBlank c = false := by
  obtain ⟨c, rest, rfl⟩ := List.exists_cons_of_ne_nil hne
  exact ⟨c, List.mem_cons_self, stops_cons.mp ht⟩

/-- Nothing of what may follow a default is read in front of a character that is not blank. -/
theorem rejects_notNullTail (hne : t ≠ []) (ht : Stops isBlank t) : notNullTail.Rejects t :=
  .missing (rejects_blanks ht) (rejects_gap_textEnd (exists_solid hne ht))

theorem rejects_optionTail (hne : t ≠ []) (ht : Stops isBlank t) : optionTail.Rejects t := by
  have hdefault : defaultOption.Rejects t := by
    simp only [defaultOption, rejects_assoc]
    exact rejects_blanks ht
  exact .missing hdefault (rejects_notNullTail hne ht)

/-- Behind a blank, what follows a default starts with `NOT NULL` at the end of the text. -/
theorem rejects_notNullTail_blank (hne : t ≠ []) (ht : Stops isBlank t)
    (hnull : (phrase ["NOT", "NULL"] ++ (gap ++ textEnd) : SqlPattern).Rejects t) :
    notNullTail.Rejects (' ' :: t) := by
  obtain ⟨c, hc, hsolid⟩ := exists_solid hne ht
  have hoption : (notNullOption ++ (gap ++ textEnd)).Rejects (' ' :: t) := by
    rw [notNullOption, rejects_assoc]
    exact .blanks ht (Rejects.part_seq _ hnull)
  intro before
  rw [notNullTail, read?_maybe_seq, hoption,
    rejects_gap_textEnd ⟨c, List.mem_cons_of_mem _ hc, hsolid⟩]
  rfl

theorem rejects_optionTail_blank (hne : t ≠ []) (ht : Stops isBlank t)
    (hdefault : (keyword "DEFAULT" ++ blanks : SqlPattern).Rejects t)
    (hnull : (phrase ["NOT", "NULL"] ++ (gap ++ textEnd) : SqlPattern).Rejects t) :
    optionTail.Rejects (' ' :: t) := by
  have hoption : defaultOption.Rejects (' ' :: t) := by
    simp only [defaultOption, rejects_assoc]
    refine .blanks ht ?_
    rw [← rejects_assoc]
    exact hdefault.seq _
  exact .missing hoption (rejects_notNullTail_blank hne ht hnull)

theorem silent_of_solid {p : SqlPattern} (hp : ∀ t, t ≠ [] → Stops isBlank t → p.Rejects t)
    (hu : ∀ c ∈ u, isBlank c = false) : p.Silent before u v := by
  rw [silent_iff]
  intro x y hxy hy
  obtain ⟨c, rest, rfl⟩ := List.exists_cons_of_ne_nil hy
  have hc := hu c (by rw [hxy]; exact List.mem_append_right x List.mem_cons_self)
  exact hp _ (List.cons_ne_nil _ _) (stops_cons.mpr hc) _

theorem rejects_notNull_word (w : TypeWord) (hv : Stops isWordChar v) (q : SqlPattern) :
    (phrase ["NOT", "NULL"] ++ q).Rejects (w.text ++ v) := by
  have h : (keyword "NOT" ++ (blanks ++ keyword "NULL")).Rejects (w.text ++ v) :=
    w.rejects_keyword (by decide) (endsWord_blanks.seq _) hv
  rw [← rejects_assoc] at h
  exact h.seq q

theorem silentInTypes_notNullTail :
    SilentInTypes notNullTail (fun _ => True) (Stops isWordChar) where
  startsBlank := trivial
  startsColon := trivial
  word w _ _ _ _ := silent_of_solid (fun _ => rejects_notNullTail)
    fun c hc => isBlank_eq_false_of_isWordChar (w.chars c hc)
  extent _ _ _ _ := silent_of_solid (fun _ => rejects_notNullTail) fun _ => Extent.isBlank_eq_false
  blank w v hv := rejects_notNullTail_blank (List.append_ne_nil_of_left_ne_nil w.nonempty v)
    (w.stops (fun _ => isBlank_eq_false_of_isWordChar) v) (rejects_notNull_word w hv _)
  colon v := rejects_notNullTail (List.cons_ne_nil _ v) (stops_cons.mpr (by decide))
  followsExtent e _ := e.stops
  followsWord _ _ _ := stops_cons.mpr (by decide)
  followsColon _ := stops_cons.mpr (by decide)

theorem silentInTypes_optionTail :
    SilentInTypes optionTail (fun _ => True) (Stops isWordChar) where
  startsBlank := trivial
  startsColon := trivial
  word w _ _ _ _ := silent_of_solid (fun _ => rejects_optionTail)
    fun c hc => isBlank_eq_false_of_isWordChar (w.chars c hc)
  extent _ _ _ _ := silent_of_solid (fun _ => rejects_optionTail) fun _ => Extent.isBlank_eq_false
  blank w v hv := rejects_optionTail_blank (List.append_ne_nil_of_left_ne_nil w.nonempty v)
    (w.stops (fun _ => isBlank_eq_false_of_isWordChar) v)
    (w.rejects_keyword (by decide) endsWord_blanks hv)
    (rejects_notNull_word w hv _)
  colon v := rejects_optionTail (List.cons_ne_nil _ v) (stops_cons.mpr (by decide))
  followsExtent e _ := e.stops
  followsWord _ _ _ := stops_cons.mpr (by decide)
  followsColon _ := stops_cons.mpr (by decide)

theorem solid_target (qualified : Bool) (table : Word) :
    ∀ c ∈ (Target.mk qualified (.bare table)).text, isBlank c = false := by
  have htable : ∀ c ∈ table.text, isBlank c = false :=
    fun c hc => isBlank_eq_false_of_isWordChar (table.chars c hc)
  have hschema : ∀ c ∈ "public".toList ++ ['.'], isBlank c = false := by decide
  intro c hc
  cases qualified with
  | false => exact htable c hc
  | true => exact (List.mem_append.mp hc).elim (hschema c) (htable c)

theorem target_ne_nil (qualified : Bool) (table : Word) :
    (Target.mk qualified (.bare table)).text ≠ [] := by
  cases qualified with
  | false => exact table.nonempty
  | true => exact List.cons_ne_nil _ _

theorem silent_blank_word (u : Text) (hu : ∀ c ∈ u, isBlank c = false) (hne : u ≠ [])
    (hdefault : (keyword "DEFAULT" ++ blanks : SqlPattern).Rejects (u ++ v))
    (hnull : (phrase ["NOT", "NULL"] ++ (gap ++ textEnd) : SqlPattern).Rejects (u ++ v)) :
    optionTail.Silent before (' ' :: u) v := by
  have hstops : Stops isBlank (u ++ v) :=
    stops_append hne (fun c hc => hu c (List.mem_of_mem_head? hc)) v
  exact silent_cons.mpr ⟨rejects_optionTail_blank (List.append_ne_nil_of_left_ne_nil hne v) hstops
    hdefault hnull before, silent_of_solid (fun _ => rejects_optionTail) hu⟩

theorem silent_blank_clash (u : Text) (hu : ∀ c ∈ u, isBlank c = false) (hne : u ≠ [])
    (hdefault : clashes "DEFAULT".toList u) (hnot : clashes "NOT".toList u) :
    optionTail.Silent before (' ' :: u) v :=
  silent_blank_word u hu hne ((Rejects.of_clash hdefault v).seq _)
    ((((Rejects.of_clash hnot v).seq _).seq _).seq _)

theorem silent_notNull (hv : ∃ c ∈ v, isBlank c = false) :
    optionTail.Silent before Mark.notNull.text v := by
  have hnull : (phrase ["NOT", "NULL"] ++ (gap ++ textEnd) : SqlPattern).Rejects
      ("NOT".toList ++ (' ' :: ("NULL".toList ++ v))) := by
    simp only [phrase, rejects_assoc]
    exact .keyword_seq (.blanks (stops_cons.mpr (by decide))
      (.keyword_seq (rejects_gap_textEnd hv)))
  have hfirst : optionTail.Silent before (' ' :: "NOT".toList) (' ' :: "NULL".toList ++ v) :=
    silent_blank_word "NOT".toList (by decide) (by decide) ((Rejects.of_clash (by decide) _).seq _)
      hnull
  exact hfirst.append (silent_blank_clash "NULL".toList (by decide) (by decide) (by decide) (by decide))

theorem silent_primaryKey : optionTail.Silent before Mark.primaryKey.text v := by
  have hfirst : optionTail.Silent before (' ' :: "PRIMARY".toList) (' ' :: "KEY".toList ++ v) :=
    silent_blank_clash "PRIMARY".toList (by decide) (by decide) (by decide) (by decide)
  exact hfirst.append (silent_blank_clash "KEY".toList (by decide) (by decide) (by decide) (by decide))

theorem silent_references (qualified : Bool) (table column : Word) :
    optionTail.Silent before (Mark.references qualified table column).text v := by
  have hblanks : ∀ (q : SqlPattern) {c v}, isBlank c = false → (blanks ++ q).Rejects (c :: v) :=
    fun q _ _ hc => rejects_blanks (stops_cons.mpr hc)
  have hnone : ∀ {c v}, isBlank c = false → (blanks : SqlPattern).Rejects (c :: v) :=
    fun hc _ => read?_run1_of_stops (stops_cons.mpr hc)
  have hkeyword : optionTail.Silent before (' ' :: "REFERENCES".toList)
      (' ' :: ((Target.mk qualified (.bare table)).text ++ ('(' :: (column.text ++ [')']))) ++ v) :=
    silent_blank_clash "REFERENCES".toList (by decide) (by decide) (by decide) (by decide)
  have htarget : optionTail.Silent (lastOf before (' ' :: "REFERENCES".toList))
      (' ' :: (Target.mk qualified (.bare table)).text) ('(' :: (column.text ++ [')']) ++ v) := by
    refine silent_blank_word _ (solid_target qualified table) (target_ne_nil qualified table) ?_ ?_
    · exact rejects_keyword_target (by decide) (by decide) endsWord_blanks
        (fun _ => hnone (by decide)) ⟨qualified, .bare table⟩ (stops_cons.mpr (by decide))
        (hnone (by decide))
    · simp only [phrase, rejects_assoc]
      exact rejects_keyword_target (by decide) (by decide) (endsWord_blanks.seq _)
        (fun _ => hblanks _ (by decide)) ⟨qualified, .bare table⟩ (stops_cons.mpr (by decide))
        (hblanks _ (by decide))
  have hcolumn : ∀ c ∈ '(' :: (column.text ++ [')']), isBlank c = false := by
    intro c hc
    simp only [List.mem_append, List.mem_cons, List.not_mem_nil, or_false] at hc
    rcases hc with rfl | hc | rfl
    · decide
    · exact isBlank_eq_false_of_isWordChar (column.chars c hc)
    · decide
  have hlist : ∀ before, optionTail.Silent before ('(' :: (column.text ++ [')'])) v :=
    fun before => silent_of_solid (fun _ => rejects_optionTail) hcolumn
  have hall := hkeyword.append (htarget.append (hlist _))
  exact hall

theorem exists_solid_mark (m : Mark) : ∃ c ∈ m.text, isBlank c = false := by
  cases m with
  | notNull => exact ⟨'N', by decide, by decide⟩
  | primaryKey => exact ⟨'P', by decide, by decide⟩
  | references => exact ⟨'R', List.mem_cons_of_mem ' ' (List.mem_append_left _ (by decide)), by decide⟩

/-- What follows a type is not read within the marks of a column, as long as something follows a
last `NOT NULL`. -/
theorem silent_markText (marks : List Mark)
    (hv : marks.getLast? = some .notNull → ∃ c ∈ v, isBlank c = false) :
    optionTail.Silent before (ColumnLine.markText marks) v := by
  induction marks generalizing before with
  | nil => exact silent_nil v
  | cons m marks ih =>
      have hrest : ∀ before, optionTail.Silent before (ColumnLine.markText marks) v := by
        intro before
        apply ih
        intro hlast
        apply hv
        rw [List.getLast?_cons, hlast]
        rfl
      have hmark : optionTail.Silent before m.text (ColumnLine.markText marks ++ v) := by
        cases m with
        | primaryKey => exact silent_primaryKey
        | references qualified table column => exact silent_references qualified table column
        | notNull =>
            apply silent_notNull
            cases marks with
            | nil => exact hv rfl
            | cons next marks =>
                obtain ⟨c, hc, hsolid⟩ := exists_solid_mark next
                refine ⟨c, ?_, hsolid⟩
                simp only [ColumnLine.markText, List.flatMap_cons, List.mem_append]
                exact .inl (.inl hc)
      exact hmark.append (hrest _)

theorem stops_markText (marks : List Mark) (hv : Stops isWordChar v) :
    Stops isWordChar (ColumnLine.markText marks ++ v) := by
  cases marks with
  | nil => exact hv
  | cons m marks =>
      cases m with
      | notNull => exact stops_cons.mpr (by decide)
      | primaryKey => exact stops_cons.mpr (by decide)
      | references => exact stops_cons.mpr (by decide)

theorem stops_optionText (c : FreeLine) :
    Stops isWordChar (FreeLine.defaultText c.default ++ ColumnLine.notNullText c.notNull) := by
  cases c.default with
  | some d => exact stops_cons.mpr (by decide)
  | none => cases c.notNull <;> decide

/-- The type and the marks of a column are read up to its options. -/
theorem silent_typeText (c : FreeLine) (before : Option Char) :
    optionTail.Silent before (c.type.text ++ ColumnLine.markText c.marks)
      (FreeLine.defaultText c.default ++ ColumnLine.notNullText c.notNull) := by
  have hfollows := stops_optionText c
  have htype : optionTail.Silent before c.type.text (ColumnLine.markText c.marks ++
      (FreeLine.defaultText c.default ++ ColumnLine.notNullText c.notNull)) :=
    silentInTypes_optionTail.type c.type trivial (stops_markText c.marks hfollows)
  refine htype.append (silent_markText c.marks ?_)
  intro hlast
  cases hdefault : c.default with
  | some d =>
      exact ⟨'D', List.mem_append_left _ (List.mem_cons_of_mem ' ' (List.mem_append_left _ (by decide))),
        by decide⟩
  | none =>
      cases hnull : c.notNull with
      | true => exact ⟨'N', by decide, by decide⟩
      | false => exact absurd hlast (c.settled hdefault hnull)

/-- What follows a default reaches to the end of the text. -/
theorem rejects_notNullTail_of_mem {c : Char} (hc : notNullTail.mentions c = false) (h : c ∈ t) :
    notNullTail.Rejects t := by
  intro before
  cases hr : notNullTail.read? before t with
  | none => rfl
  | some r =>
      exfalso
      have hmem := mem_of_read? hr
      have hrest : r.rest = [] := by
        obtain ⟨a, -, b, hb, rfl⟩ := mem_readings_seq.mp hmem
        obtain ⟨g, -, e, he, rfl⟩ := mem_readings_seq.mp hb
        simp only [readings] at he
        split at he
        · next hempty =>
          rw [List.mem_singleton.mp he]
          exact List.isEmpty_iff.mp hempty
        · cases he
      have htext := read?_text hr
      rw [hrest, List.append_nil] at htext
      exact not_mem_read hmem hc (htext ▸ h)

/-- `NOT NULL` at the end of the line is not read up to a character that does not belong to it. -/
theorem silent_notNullTail_closed {c : Char} (hc : notNullTail.mentions c = false) :
    notNullTail.Silent before (u ++ [c]) v := by
  rw [silent_iff]
  intro x y hxy hy
  have hlast : ∀ d ∈ (x ++ y).getLast?, d = c := by
    intro d hd
    rw [← hxy, List.getLast?_concat] at hd
    exact (Option.some.inj hd).symm
  obtain ⟨d, hd, -, rfl⟩ := exists_of_getLast? hy hlast
  exact rejects_notNullTail_of_mem hc (List.mem_append_left v hd) _

theorem mem_default {d : FreeDefault} {c : Char} (h : c ∈ d.text) :
    c ∈ d.content.text ∨ (c ≠ ';' ∧ c ≠ '\n') := by
  rcases List.mem_append.mp h with h | h
  · simp only [Content.quoted, List.mem_cons, List.mem_append, List.not_mem_nil, or_false] at h
    rcases h with rfl | h | rfl
    · exact .inr (by decide)
    · exact .inl h
    · exact .inr (by decide)
  · exact .inr (unbroken_flatMap unbroken_cast d.casts c h)

theorem no_break_default (d : FreeDefault) : '\n' ∉ d.text := fun hmem =>
  (mem_default hmem).elim (fun h => (d.content.chars _ h).2 rfl) fun h => h.2 rfl

theorem trimmed_default (d : FreeDefault) : Trimmed d.text := by
  have hquote : EndsSolid ['\''] := by decide
  have hquoted : EndsSolid d.content.quoted :=
    hquote.behind (List.cons_ne_nil _ _) ('\'' :: d.content.text)
  exact (hquoted.append (endsSolid_flatMap endsSolid_cast d.casts)).trimmed
    fun c hc => Option.some.inj hc ▸ by decide

theorem silent_default (d : FreeDefault) (hv : Stops isWordChar v) :
    notNullTail.Silent before d.text v := by
  have hquoted : ∀ w, notNullTail.Silent before (('\'' :: d.content.text) ++ ['\'']) w :=
    fun w => silent_notNullTail_closed (by decide)
  exact (hquoted _).append (silentInTypes_notNullTail.casts d.casts _ hv)

def optionParts (default : Option FreeDefault) (notNull : Bool) : List (Part × Text) :=
  (if notNull then [(.notNull, spacedWords ["NOT", "NULL"])] else []) ++
    (default.map fun d => (.default, d.text)).toList

theorem reads_notNullTail (notNull : Bool) :
    notNullTail.Reads (ColumnLine.notNullText notNull) [] (optionParts none notNull) := by
  have hend : (gap ++ textEnd : SqlPattern).Reads [] [] [] :=
    (reads_no_gap (stops_nil _)).seq reads_textEnd
  cases notNull with
  | false =>
      have hoption : notNullOption.Rejects [] :=
        Rejects.seq (fun _ => read?_run1_of_stops (stops_nil _)) _
      have hmissing : (maybe notNullOption).Reads [] ([] ++ []) [] := reads_missing hoption
      exact hmissing.seq hend
  | true =>
      have hphrase : (phrase ["NOT", "NULL"] : SqlPattern).Reads (spacedWords ["NOT", "NULL"]) [] [] :=
        reads_phrase (by decide) (by decide) []
      have hblanks : (blanks : SqlPattern).Reads [' '] (spacedWords ["NOT", "NULL"] ++ []) [] :=
        reads_blanks (stops_cons.mpr (by decide))
      have hoption : notNullOption.Reads ([' '] ++ spacedWords ["NOT", "NULL"]) ([] ++ [])
          [(.notNull, spacedWords ["NOT", "NULL"])] := hblanks.seq (hphrase.part Part.notNull)
      have h := hoption.maybe.seq hend
      rw [List.append_nil] at h
      exact h

/-- A default is read up to the `NOT NULL` that may stand behind it. -/
theorem reads_defaultTail (notNull : Bool) (hne : t ≠ []) (hline : '\n' ∉ t) (hopens : Stops isBlank t)
    (hsilent : ∀ before, notNullTail.Silent before t (ColumnLine.notNullText notNull)) :
    optionTail.Reads ((' ' :: ("DEFAULT".toList ++ ' ' :: t)) ++ ColumnLine.notNullText notNull) []
      (optionParts none notNull ++ [(.default, t)]) := by
  have hvalue : (part Part.default (run1 (· != '\n') .shortest) ++ notNullTail).Reads
      (t ++ ColumnLine.notNullText notNull) [] (optionParts none notNull ++ [(.default, t)]) :=
    reads_shortest hne (fun c hc => bne_iff_ne.mpr fun heq => hline (heq ▸ hc))
      (fun before => by rw [List.append_nil]; exact hsilent before) (reads_notNullTail notNull)
  have hfirst : ∀ w, (blanks : SqlPattern).Reads [' '] (("DEFAULT".toList ++ w) ++ []) [] :=
    fun w => reads_blanks (stops_cons.mpr (by decide))
  have hsecond : ∀ w, (blanks : SqlPattern).Reads [' '] ((t ++ w) ++ []) [] := by
    intro w
    rw [List.append_nil]
    exact reads_blanks (stops_append hne hopens w)
  have hall := (hfirst _).seq ((reads_keyword "DEFAULT" _).seq ((hsecond _).seq hvalue))
  apply Reads.maybe_seq
  simp only [defaultOption, reads_assoc]
  simpa only [List.append_nil, List.cons_append, List.nil_append, List.append_assoc] using hall

theorem reads_optionTail (default : Option FreeDefault) (notNull : Bool) :
    optionTail.Reads (FreeLine.defaultText default ++ ColumnLine.notNullText notNull) []
      (optionParts default notNull) := by
  cases default with
  | none =>
      have hoption : defaultOption.Rejects (ColumnLine.notNullText notNull) := by
        simp only [defaultOption, rejects_assoc]
        cases notNull with
        | false => exact rejects_blanks (stops_nil _)
        | true =>
            have hclash : (keyword "DEFAULT" : SqlPattern).Rejects
                ("NOT".toList ++ ' ' :: "NULL".toList) := .of_clash (by decide) _
            exact .blanks (stops_cons.mpr (by decide)) (hclash.seq _)
      have hmissing : (maybe defaultOption).Reads [] (ColumnLine.notNullText notNull ++ []) [] := by
        rw [List.append_nil]
        exact reads_missing hoption
      have h := hmissing.seq (reads_notNullTail notNull)
      rwa [List.append_nil] at h
  | some d =>
      have hstops : Stops isWordChar (ColumnLine.notNullText notNull) := by
        cases notNull
        · exact stops_nil _
        · exact stops_cons.mpr (by decide)
      have hparts : optionParts (some d) notNull = optionParts none notNull ++ [(.default, d.text)] := by
        cases notNull <;> rfl
      rw [hparts]
      exact reads_defaultTail notNull (List.cons_ne_nil _ _) (no_break_default d) (stops_cons.mpr (by decide))
        fun before => silent_default d hstops

theorem unbroken_mark (m : Mark) : Unbroken m.text := by
  cases m with
  | notNull => decide
  | primaryKey => decide
  | references qualified table column =>
      have hkeyword : Unbroken "REFERENCES".toList := by decide
      exact .cons (by decide) (hkeyword.append (.cons (by decide) ((unbroken_target _).append
        (.cons (by decide) ((unbroken_word column).append (by decide))))))

def nameParts : Name → List (Part × Text)
  | .bare word => [(.name, word.text)]
  | .quoted text _ _ _ => [(.quotedName, text)]

theorem reads_columnName (n : Name) : columnName.Reads n.text (' ' :: v) (nameParts n) := by
  cases n with
  | bare word =>
      have hquote : (one (· == '"') : SqlPattern).Rejects (word.text ++ ' ' :: v) :=
        .of_starts rfl (word.stops
          (fun c hc => beq_eq_false_iff_ne.mpr (ne_of_isWordChar (by decide) hc)) _)
      have hword : (run1 isWordChar .longest : SqlPattern).Reads word.text (' ' :: v) [] :=
        reads_run1 word.nonempty word.chars (stops_cons.mpr (by decide))
      exact .other ((hquote.seq _).seq _) (hword.part Part.name)
  | quoted text nonempty chars trimmed =>
      have hrun := reads_unquotedRun nonempty (quote_not_mem chars) (' ' :: v)
      exact (reads_within (hrun.part Part.quotedName)).preferred _

/-- A column line is read as its name, its type with the marks, and its options. -/
theorem reads_columnDefinition (c : FreeLine) :
    columnDefinition.Reads c.text [] (optionParts c.default c.notNull ++
      (.type, c.type.text ++ ColumnLine.markText c.marks) :: nameParts c.name) := by
  have hunbroken : Unbroken (c.type.text ++ ColumnLine.markText c.marks) :=
    (unbroken_type c.type).append (unbroken_flatMap unbroken_mark c.marks)
  have hne : c.type.text ++ ColumnLine.markText c.marks ≠ [] :=
    List.append_ne_nil_of_left_ne_nil (List.append_ne_nil_of_left_ne_nil
      (List.append_ne_nil_of_left_ne_nil c.type.first.1.nonempty _) _) _
  have hsilent : ∀ before, optionTail.Silent before (c.type.text ++ ColumnLine.markText c.marks)
      ((FreeLine.defaultText c.default ++ ColumnLine.notNullText c.notNull) ++ []) := by
    intro before
    rw [List.append_nil]
    exact silent_typeText c before
  have htype : (part Part.type (run1 (· != '\n') .shortest) ++ optionTail).Reads _ [] _ :=
    reads_shortest hne (fun d hd => bne_iff_ne.mpr (hunbroken d hd).2) hsilent
      (reads_optionTail c.default c.notNull)
  have hblanks : ∀ w, (blanks : SqlPattern).Reads [' ']
      (((c.type.text ++ ColumnLine.markText c.marks) ++ w) ++ []) [] := by
    intro w
    have hstops := c.type.first.1.stops (fun _ => isBlank_eq_false_of_isWordChar)
    simp only [ColumnType.text, ColumnType.wordText, List.append_assoc]
    exact reads_blanks (hstops _)
  have hall := (reads_columnName c.name).seq ((hblanks _).seq htype)
  rw [reads_columnDefinition_iff]
  simp only [List.append_nil, List.append_assoc, List.singleton_append] at hall
  simpa only [FreeLine.text, List.append_assoc] using hall

end SchemaDump.PostgreSQL
