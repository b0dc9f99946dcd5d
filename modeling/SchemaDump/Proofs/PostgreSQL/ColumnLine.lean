import SchemaDump.Proofs.Definition.Split
import SchemaDump.Proofs.PostgreSQL.CastChain
/- A column line gives back its column with the keys that are marked on it. The one exception is a
name that spells `EXCLUDE` and `USING` at once, which is taken for the opening of a constraint. -/
namespace SchemaDump.PostgreSQL
open SqlPattern Pattern

variable {before : Option Char} {t u v : Text}

/-- Whether a line is taken for an exclusion constraint because of the name of its column. -/
def FreeLine.opensExclusion (c : FreeLine) : Bool := c.name.isOneOf ["EXCLUDEUSING"]

@[inherit_doc FreeLine.opensExclusion]
def ColumnLine.opensExclusion (c : ColumnLine) : Bool := c.name.isOneOf ["EXCLUDEUSING"]

def exclusionTail : SqlPattern := alt (keyword "USING" ++ wordEdge) (literal "(")

theorem rejects_exclusion {w : Word} (hname : w.isOneOf ["EXCLUDE", "EXCLUDEUSING"] = false)
    (v : Text) : (keyword "EXCLUDE" ++ (gap ++ exclusionTail)).Rejects (w.text ++ ' ' :: v) := by
  intro before
  rw [read?_seq_eq_none]
  intro a ha
  obtain ⟨-, hspells, htext⟩ := mem_readings_keyword.mp ha
  have hchars := isWordChar_of_spells (by decide) hspells
  rcases exists_append_of_length htext with ⟨z, hw, hrest⟩ | ⟨c, z, hread, hv⟩
  · cases z with
    | nil =>
        rw [List.append_nil] at hw
        have hfree : spells sameLetter "EXCLUDE".toList w.text = false :=
          Word.spells_eq_false hname (by simp)
        rw [hw, hspells] at hfree
        cases hfree
    | cons c z =>
        have hz : ∀ d ∈ c :: z, isWordChar d :=
          fun d hd => w.chars d (by rw [hw]; exact List.mem_append_right _ hd)
        have hc := hz c List.mem_cons_self
        have hgap : (gap : SqlPattern).readings (lastOf before a.read) a.rest =
            [⟨[], [], a.rest⟩] := by
          rw [hrest]
          exact readings_run_of_stops (stops_cons.mpr (isBlank_eq_false_of_isWordChar hc))
        have husing : spells sameLetter "USING".toList (c :: z) = false := by
          cases hs : spells sameLetter "USING".toList (c :: z) with
          | false => rfl
          | true =>
              have hall := spells_append hspells hs
              have hfree : spells sameLetter "EXCLUDEUSING".toList w.text = false :=
                Word.spells_eq_false hname (by simp)
              rw [← hw, ← show "EXCLUDEUSING".toList = "EXCLUDE".toList ++ "USING".toList by decide,
                hfree] at hall
              cases hall
        have hword : (keyword "USING" ++ wordEdge : SqlPattern).Rejects (c :: z ++ ' ' :: v) :=
          read?_keyword_seq_eq_none (by decide) (by decide) endsWord_wordEdge hz
            (stops_cons.mpr (by decide)) (.inl husing)
        have hne : c ≠ '(' := ne_of_isWordChar (by decide) hc
        have hparen : (literal "(" : SqlPattern).Rejects (c :: z ++ ' ' :: v) :=
          .of_starts rfl (stops_cons.mpr (by simp [literal, hne]))
        have htail : exclusionTail.Rejects (c :: z ++ ' ' :: v) := hword.alt hparen
        rw [read?_single_seq hgap, hrest, htail]
        rfl
  · have hblank := hchars ' ' (by
      obtain ⟨rfl, -⟩ := List.cons.inj hv
      rw [hread]
      simp)
    exact absurd hblank (by decide)

theorem rejects_constraintOpening {w : Word} (hname : w.isOneOf columnExclusions = false)
    (hexclusion : w.isOneOf ["EXCLUDEUSING"] = false) (v : Text) :
    (constraintOpening .postgresql).Rejects (w.text ++ ' ' :: v) := by
  have hwords : (anyOf (["PRIMARY", "UNIQUE", "KEY", "CONSTRAINT", "FOREIGN", "CHECK"].map keyword) ++
      wordEdge : SqlPattern).Rejects (w.text ++ ' ' :: v) := by
    apply Rejects.anyOf_seq
    intro p hp
    obtain ⟨word, hword, rfl⟩ := List.mem_map.mp hp
    obtain ⟨hne, hletters, -⟩ := constraintWords_letters word (List.mem_append_left _ hword)
    exact read?_keyword_seq_eq_none hletters hne endsWord_wordEdge w.chars (stops_cons.mpr (by decide))
      (.inl (Word.spells_eq_false hname (List.mem_append_left _ hword)))
  have hboth : w.isOneOf ["EXCLUDE", "EXCLUDEUSING"] = false := by
    have hfirst : spells sameLetter "EXCLUDE".toList w.text = false :=
      Word.spells_eq_false hname (by decide)
    have hsecond : spells sameLetter "EXCLUDEUSING".toList w.text = false :=
      Word.spells_eq_false hexclusion (by decide)
    simp only [Word.isOneOf, List.any_cons, hfirst, hsecond, List.any_nil, Bool.or_self]
  have hexclude := rejects_exclusion hboth v
  rw [← rejects_assoc] at hexclude
  exact hwords.alt hexclude

theorem Name.stops (n : Name) {accepts : Char → Bool} (hquote : accepts '"' = false)
    (h : ∀ c, isWordChar c → accepts c = false) (v : Text) : Stops accepts (n.text ++ v) := by
  cases n with
  | bare word => exact word.stops h v
  | quoted text _ _ _ => exact stops_cons.mpr hquote

theorem FreeLine.text_eq (c : FreeLine) : ∃ v, c.text = c.name.text ++ ' ' :: v := ⟨_, rfl⟩

theorem FreeLine.stops (c : FreeLine) {accepts : Char → Bool} (hquote : accepts '"' = false)
    (h : ∀ c, isWordChar c → accepts c = false) : Stops accepts c.text :=
  c.name.stops hquote h _

theorem endsSolid_mark (m : Mark) : EndsSolid m.text := by
  cases m with
  | notNull => decide
  | primaryKey => decide
  | references qualified table column =>
      have hclose : EndsSolid [')'] := by decide
      have h := hclose.behind (by decide) (' ' :: ("REFERENCES".toList ++ ' ' ::
        ((Target.mk qualified (.bare table)).text ++ '(' :: column.text)))
      simpa [Mark.text] using h

theorem endsSolid_default (d : FreeDefault) : EndsSolid d.text := by
  have hquoted : EndsSolid d.content.quoted :=
    EndsSolid.behind (v := ['\'']) (by decide) (by decide) ('\'' :: d.content.text)
  exact hquoted.append (endsSolid_flatMap endsSolid_cast d.casts)

namespace FreeLine
open ColumnLine (markText notNullText)

variable (c : FreeLine)

theorem endsSolid_text : EndsSolid c.text := by
  have htype := (endsSolid_type c.type).append (endsSolid_flatMap endsSolid_mark c.marks)
  have hdefault : EndsSolid (defaultText c.default) := by
    cases c.default with
    | none => decide
    | some d => exact (endsSolid_default d).behind (List.cons_ne_nil _ _) (' ' :: ("DEFAULT".toList ++ [' ']))
  have hnull : EndsSolid (notNullText c.notNull) := by
    cases c.notNull <;> decide
  have hne : (c.type.text ++ markText c.marks) ++ (defaultText c.default ++ notNullText c.notNull) ≠ [] :=
    List.append_ne_nil_of_left_ne_nil (List.append_ne_nil_of_left_ne_nil
      (List.append_ne_nil_of_left_ne_nil (List.append_ne_nil_of_left_ne_nil
        c.type.first.1.nonempty _) _) _) _
  have h := (htype.append (hdefault.append hnull)).behind hne (c.name.text ++ [' '])
  rwa [List.append_assoc] at h

theorem trimmed_text : Trimmed c.text :=
  c.endsSolid_text.trimmed (c.stops (by decide) fun _ => isBlank_eq_false_of_isWordChar)

theorem mem_text {e : Char} (h : e ∈ c.text) :
    (∃ d, c.default = some d ∧ e ∈ d.content.text) ∨ (e ≠ ';' ∧ e ≠ '\n') := by
  have hnull : Unbroken (notNullText c.notNull) := by
    cases c.notNull <;> decide
  have hfront : Unbroken (c.name.text ++ ' ' :: (c.type.text ++ markText c.marks)) :=
    (unbroken_name c.name).append (.cons (by decide) ((unbroken_type c.type).append
      (unbroken_flatMap unbroken_mark c.marks)))
  have hsplit : c.text = (c.name.text ++ ' ' :: (c.type.text ++ markText c.marks)) ++
      (defaultText c.default ++ notNullText c.notNull) := by
    rw [List.append_assoc, List.cons_append]
    rfl
  rw [hsplit] at h
  rcases List.mem_append.mp h with h | h
  · exact .inr (hfront e h)
  rcases List.mem_append.mp h with h | h
  · cases hdefault : c.default with
    | none =>
        rw [hdefault] at h
        cases h
    | some d =>
        have hkeyword : Unbroken (' ' :: ("DEFAULT".toList ++ [' '])) := by decide
        rw [hdefault] at h
        have h : e ∈ (' ' :: ("DEFAULT".toList ++ [' '])) ++ d.text := by simpa [defaultText] using h
        rcases List.mem_append.mp h with h | h
        · exact .inr (hkeyword e h)
        · exact (mem_default h).imp (fun hmem => ⟨d, rfl, hmem⟩) id
  · exact .inr (hnull e h)

theorem no_break_text : '\n' ∉ c.text := fun hmem =>
  (c.mem_text hmem).elim (fun ⟨d, _, h⟩ => (d.content.chars _ h).2 rfl) fun h => h.2 rfl

theorem isLine_text : IsLine c.text := by
  refine ⟨c.no_break_text, ?_⟩
  obtain ⟨d, rest, hd⟩ := List.exists_cons_of_ne_nil (l := c.text)
    (List.append_ne_nil_of_right_ne_nil _ (List.cons_ne_nil _ _))
  have hblank : Stops isBlank c.text := c.stops (by decide) fun _ => isBlank_eq_false_of_isWordChar
  have hdash : Stops (· == '-') c.text :=
    c.stops (by decide) fun _ h => beq_eq_false_iff_ne.mpr (ne_of_isWordChar (by decide) h)
  rw [hd, stops_cons] at hblank hdash
  exact ⟨d, rest, hd, hblank, beq_eq_false_iff_ne.mp hdash⟩

end FreeLine

theorem sameLetter_eq_false_of_ne {letter other c : Char} (hl : letter.isAlpha) (ho : other.isAlpha)
    (hne : letter.toLower ≠ other.toLower) (h : sameLetter letter c) : sameLetter other c = false := by
  cases ho' : sameLetter other c with
  | false => rfl
  | true => exact absurd (((sameLetter_iff hl).mp h).symm.trans ((sameLetter_iff ho).mp ho')) hne

/-- `EXCLUDE` and `USING` open a constraint at once. -/
theorem opensConstraint_exclusion {w : Word} (h : w.isOneOf ["EXCLUDEUSING"] = true) (v : Text) :
    opensConstraint .postgresql (w.text ++ ' ' :: v) = true := by
  have hspells : spells sameLetter ("EXCLUDE".toList ++ "USING".toList) w.text := by
    rw [← show "EXCLUDEUSING".toList = "EXCLUDE".toList ++ "USING".toList by decide]
    simpa [Word.isOneOf] using h
  obtain ⟨e, z, hez, he, hz⟩ := exists_of_spells_append hspells
  have hzchars := isWordChar_of_spells (by decide) hz
  obtain ⟨d, rest, rfl⟩ : ∃ d rest, z = d :: rest := by
    cases z with
    | nil => cases hz
    | cons d rest => exact ⟨d, rest, rfl⟩
  have hedge : (wordEdge : SqlPattern).read? (lastOf (lastOf none e) (d :: rest)) (' ' :: v) =
      some ⟨[], [], ' ' :: v⟩ :=
    read?_wordEdge_of_end (List.cons_ne_nil d rest) hzchars (stops_cons.mpr (by decide))
  have htail : exclusionTail.read? (lastOf none e) (d :: rest ++ ' ' :: v) ≠ none := by
    rw [exclusionTail, read?_alt, keyword, read?_single_seq (readings_spelled hz), hedge]
    exact Option.some_ne_none _
  have hgap : (gap : SqlPattern).readings (lastOf none e) (d :: rest ++ ' ' :: v) =
      [⟨[], [], d :: rest ++ ' ' :: v⟩] :=
    readings_run_of_stops (stops_cons.mpr
      (isBlank_eq_false_of_isWordChar (hzchars d List.mem_cons_self)))
  refine opensConstraint_of_read? (w.stops (fun _ => isBlank_eq_false_of_isWordChar) _) ?_
  have hexclude : (keyword "EXCLUDE" ++ (gap ++ exclusionTail) : SqlPattern).read? none (w.text ++ ' ' :: v) ≠
      none := by
    rw [hez, List.append_assoc, keyword, read?_single_seq (readings_spelled he), read?_single_seq hgap]
    simpa using htail
  rw [← read?_seq_assoc] at hexclude
  rw [constraintOpening, read?_alt]
  intro hnone
  exact hexclude (Option.or_eq_none_iff.mp hnone).2

/-- A line that is taken for a constraint declares none. -/
theorem parse?_exclusion {c : FreeLine} (h : c.opensExclusion = true) :
    opensConstraint .postgresql c.text = true ∧ Constraint.parse? .postgresql c.text = none := by
  obtain ⟨v, hv⟩ := c.text_eq
  obtain ⟨w, hw, hname⟩ : ∃ w : Word, c.name.text = w.text ∧ w.isOneOf ["EXCLUDEUSING"] = true := by
    rw [FreeLine.opensExclusion] at h
    cases hname : c.name with
    | quoted text _ _ _ => rw [hname] at h; cases h
    | bare word => exact ⟨word, rfl, by rwa [hname] at h⟩
  rw [hw] at hv
  refine ⟨hv ▸ opensConstraint_exclusion hname v, ?_⟩
  obtain ⟨d, rest, hd, hletter⟩ : ∃ d rest, w.text = d :: rest ∧ sameLetter 'E' d := by
    have hspells : spells sameLetter "EXCLUDEUSING".toList w.text := by simpa [Word.isOneOf] using hname
    cases htext : w.text with
    | nil => exact absurd htext w.nonempty
    | cons d rest =>
        rw [htext] at hspells
        exact ⟨d, rest, rfl, (Bool.and_eq_true_iff.mp hspells).1⟩
  have hother : ∀ letter : Char, letter.isAlpha → 'E'.toLower ≠ letter.toLower →
      Stops (sameLetter letter) c.text := by
    intro letter hl hne
    rw [hv, hd]
    exact stops_cons.mpr (sameLetter_eq_false_of_ne (by decide) hl hne hletter)
  apply Constraint.parse?_eq_none
  all_goals rw [c.trimmed_text.trim_eq]
  · exact .keyword rfl (hother 'C' (by decide) (by decide))
  · exact .keyword rfl (hother 'P' (by decide) (by decide))
  · exact .keyword rfl (hother 'F' (by decide) (by decide))

/-- A text that goes on behind the name of a column opens no constraint. -/
theorem opensConstraint_name {n : Name} (hname : n.isOneOf columnExclusions = false)
    (hexclusion : n.isOneOf ["EXCLUDEUSING"] = false) (v : Text) :
    opensConstraint .postgresql (n.text ++ ' ' :: v) = false := by
  have hrejects : (constraintOpening .postgresql).Rejects (n.text ++ ' ' :: v) := by
    cases n with
    | bare word => exact rejects_constraintOpening hname hexclusion v
    | quoted text _ _ _ => exact .of_starts (by decide) (stops_cons.mpr (by decide))
  have hstart : Text.trimStart (n.text ++ ' ' :: v) = n.text ++ ' ' :: v :=
    dropWhile_eq_self (n.stops (by decide) (fun _ => isBlank_eq_false_of_isWordChar) _)
  have hnone : (constraintOpening .postgresql).opening? (n.text ++ ' ' :: v) = none :=
    at?_eq_none_iff.mpr (hrejects _)
  rw [opensConstraint, hstart, hnone]
  rfl

theorem opensConstraint_free (c : FreeLine) :
    opensConstraint .postgresql c.text = c.opensExclusion := by
  cases hopens : c.opensExclusion with
  | true => exact (parse?_exclusion hopens).1
  | false => exact opensConstraint_name c.nameFree hopens _

namespace ColumnLine

theorem contains_primaryColumns (name : String) (marks : List Mark) :
    ((marks.filterMap (·.constraint? name)).flatMap (·.primaryColumns)).contains name =
      (marks.map (·.kind)).contains .primaryKey := by
  induction marks with
  | nil => rfl
  | cons m marks ih =>
      cases m with
      | notNull => simpa [Mark.constraint?, Mark.kind] using ih
      | primaryKey => simp [Mark.constraint?, Mark.kind, Constraint.primaryColumns]
      | references => simpa [Mark.constraint?, Mark.kind, Constraint.primaryColumns] using ih

theorem foreignKeys_of_not_mem {name : String} {marks : List Mark}
    (h : MarkKind.reference ∉ marks.map (·.kind)) :
    (marks.filterMap (·.constraint? name)).flatMap (·.foreignKeys) = [] := by
  induction marks with
  | nil => rfl
  | cons m marks ih =>
      have hrest := ih fun hmem => h (List.mem_cons_of_mem _ hmem)
      cases m with
      | notNull => simpa [Mark.constraint?] using hrest
      | primaryKey => simpa [Mark.constraint?, Constraint.foreignKeys] using hrest
      | references => exact absurd List.mem_cons_self h

/-- The reference on a column is the foreign key that its marks declare. -/
theorem foreignKeys_marks (name : String) {marks : List Mark}
    (hdistinct : (marks.map (·.kind)).Nodup) :
    (marks.filterMap (·.constraint? name)).flatMap (·.foreignKeys) =
      ((markers marks).foreignKey? .postgresql name).toList := by
  induction marks with
  | nil => rfl
  | cons m marks ih =>
      obtain ⟨hm, hrest⟩ := List.nodup_cons.mp hdistinct
      have ih := ih hrest
      cases m with
      | notNull =>
          simpa [Mark.constraint?, Markers.foreignKey?, markers, Mark.reference?] using ih
      | primaryKey =>
          simpa [Mark.constraint?, Markers.foreignKey?, markers, Mark.reference?,
            Constraint.foreignKeys] using ih
      | references qualified table column =>
          have hnone : (marks.filterMap (·.constraint? name)).flatMap (·.foreignKeys) = [] :=
            foreignKeys_of_not_mem hm
          have hname := (Target.mk qualified (.bare table)).normalize_eq
          have hsplit : ((Mark.references qualified table column :: marks).filterMap
              (·.constraint? name)).flatMap (·.foreignKeys) =
                (Constraint.foreignKey ⟨[name], .ofList table.text, [.ofList column.text]⟩).foreignKeys ++
                  (marks.filterMap (·.constraint? name)).flatMap (·.foreignKeys) := rfl
          have htarget : (if String.ofList column.text = "" then String.ofList column.text
              else String.ofList column.text) = String.ofList column.text := ite_self _
          rw [hsplit, hnone, List.append_nil]
          simp only [markers, List.findSome?_cons, Mark.reference?, Markers.foreignKey?,
            String.toList_ofList, hname, Constraint.foreignKeys, ForeignKeyList.decompose,
            ForeignKeyList.pairWith, htarget]
          rfl

theorem lastForeignKey_marks (name : String) {marks : List Mark}
    (hdistinct : (marks.map (·.kind)).Nodup) :
    lastForeignKey ((marks.filterMap (·.constraint? name)).flatMap (·.foreignKeys)) name =
      (markers marks).foreignKey? .postgresql name := by
  rw [foreignKeys_marks name hdistinct]
  cases hkey : (markers marks).foreignKey? .postgresql name with
  | none => rfl
  | some key =>
      have hcolumn : key.column = name := by
        rw [Markers.foreignKey?] at hkey
        split at hkey
        · rw [← Option.some.inj hkey]
        · cases hkey
      simp [lastForeignKey, hcolumn]

end ColumnLine

namespace FreeLine
open ColumnLine (markText notNullText markers contains_primaryColumns lastForeignKey_marks take_type)

variable (c : FreeLine)

theorem ofColumn_text :
    Markers.ofColumn (c.type.text ++ markText c.marks).trim (c.default.map (·.text)) =
      (c.type.text, c.default.map (·.text), markers c.marks) := by
  have htrim : Trimmed (c.type.text ++ markText c.marks) := by
    refine ((endsSolid_type c.type).append (endsSolid_flatMap endsSolid_mark c.marks)).trimmed ?_
    have hstops := c.type.first.1.stops (fun _ => isBlank_eq_false_of_isWordChar)
    simp only [ColumnType.text, ColumnType.wordText, List.append_assoc]
    exact hstops _
  rw [htrim.trim_eq, Markers.ofColumn, take_type c.type c.distinct]
  cases c.default with
  | none => rfl
  | some d => simp [take_default, Markers.merge]

theorem parseColumn?_text : parseColumn? c.text = some (c.definition.under c.constraints) := by
  have hread := reads_columnDefinition c none
  rw [List.append_nil] at hread
  obtain ⟨o, ho, hreading⟩ := exists_at?_of_read? (.atStart c.text) hread
  have hopening : columnDefinition.opening? c.text = some o := ho
  have hname : (o.part? .quotedName <|> o.part? .name) = some c.name.content := by
    rw [Occurrence.part?_eq, Occurrence.part?_eq, hreading]
    cases c.name <;> cases c.default <;> cases c.notNull <;> rfl
  have htype : o.part .type = c.type.text ++ markText c.marks := by
    rw [Occurrence.part_eq, hreading]
    cases c.default <;> cases c.notNull <;> rfl
  have hdefault : o.part? .default = c.default.map (·.text) := by
    rw [Occurrence.part?_eq, hreading]
    cases c.name <;> cases c.default <;> cases c.notNull <;> rfl
  have hnull : (o.part? .notNull).isNone = !c.notNull := by
    rw [Occurrence.part?_eq, hreading]
    cases c.name <;> cases c.default <;> cases c.notNull <;> rfl
  have hvalue : ((c.default.map (·.text)).filter (!·.isEmpty)).map
      (fun raw => String.ofList (DefaultValue.clean true raw)) =
        c.default.map fun d => .ofList d.content.text := by
    cases c.default with
    | none => rfl
    | some d =>
        have hne : d.text.isEmpty = false := rfl
        simp [Option.filter, hne, clean_default]
  have hmarks := contains_primaryColumns c.name.string c.marks
  have hforeign := lastForeignKey_marks c.name.string c.distinct
  simp only [parseColumn?, hopening, hname, htype, hdefault, c.ofColumn_text, hnull,
    Dialect.hasCastSuffix, hvalue, Option.bind_eq_bind, Option.bind_some]
  simp only [Column.under, definition, constraints, hmarks, hforeign, markers, Bool.false_or,
    Option.or_none, Bool.not_or]
  rfl

end FreeLine

namespace ColumnLine

variable (c : ColumnLine)

theorem endsSolid_text : EndsSolid c.text := c.free_text ▸ c.free.endsSolid_text

theorem trimmed_text : Trimmed c.text := c.free_text ▸ c.free.trimmed_text

theorem isLine_text : IsLine c.text := c.free_text ▸ c.free.isLine_text

theorem unbroken_text : Unbroken c.text := by
  intro e he
  rw [← c.free_text] at he
  rcases c.free.mem_text he with ⟨d, hd, hmem⟩ | h
  · obtain ⟨default, -, rfl⟩ := Option.map_eq_some_iff.mp hd
    exact (default.literal.chars e hmem).2
  · exact h

theorem parseColumn?_text : parseColumn? c.text = some (c.definition.under c.constraints) := by
  rw [← c.free_text, c.free.parseColumn?_text, c.free_definition]
  rfl

end ColumnLine

theorem opensConstraint_column (c : ColumnLine) :
    opensConstraint .postgresql c.text = c.opensExclusion := by
  rw [← c.free_text]
  exact opensConstraint_free c.free

end SchemaDump.PostgreSQL
