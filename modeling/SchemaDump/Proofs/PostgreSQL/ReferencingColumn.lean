import SchemaDump.Proofs.Pattern.Seam
import SchemaDump.Proofs.PostgreSQL.MarkRemoval
import SchemaDump.Proofs.PostgreSQL.ReferenceMarker
/- Columns with a reference to a table. Whatever else is said about the column, its foreign key leads to
the table that the reference names, as long as `DEFAULT` between blanks opens the default of the column and
does not stand within the reference or in front of it in some other sense. -/
namespace SchemaDump.PostgreSQL
open SqlPattern Pattern

variable {before : Option Char} {t u v w : Text}

/-- The name of a column. -/
inductive ColumnName
  | bare (word : Word)
  | quoted (text : Text) (nonempty : text ≠ []) (closed : '"' ∉ text)

namespace ColumnName

def content : ColumnName → Text
  | bare word => word.text
  | quoted text _ _ => text

def text : ColumnName → Text
  | bare word => word.text
  | quoted text _ _ => '"' :: (text ++ ['"'])

def parts : ColumnName → List (Part × Text)
  | bare word => [(.name, word.text)]
  | quoted text _ _ => [(.quotedName, text)]

theorem reads (n : ColumnName) (hv : Stops isWordChar v) : columnName.Reads n.text v n.parts := by
  cases n with
  | bare word =>
      have hquote : (one (· == '"') : SqlPattern).Rejects (word.text ++ v) := .of_starts rfl (word.stops
        (fun c hc => beq_eq_false_iff_ne.mpr (ne_of_isWordChar (by decide) hc)) _)
      have hword : (run1 isWordChar .longest : SqlPattern).Reads word.text v [] :=
        reads_run1 word.nonempty word.chars hv
      exact .other ((hquote.seq _).seq _) (hword.part Part.name)
  | quoted text nonempty closed =>
      have hrun := reads_unquotedRun nonempty closed v
      exact (reads_within (hrun.part Part.quotedName)).preferred _

end ColumnName

/-- What is said about a column in front of its reference: its type and the like. Literals and parentheses
are closed. -/
structure Remark where
  text : Text
  nonempty : text ≠ []
  trimmed : Trimmed text
  balanced : Balanced text

/-- The default of a column. -/
structure DefaultClause where
  front : Spacing
  word : KeywordText "DEFAULT"
  behind : Spacing
  value : Remark

def DefaultClause.text (d : DefaultClause) : Text :=
  d.front.text ++ (d.word.text ++ (d.behind.text ++ d.value.text))

def defaultOpening : SqlPattern := (blanks ++ keyword "DEFAULT") ++ one isBlank

/-- A column with a reference. -/
structure ReferencingLine where
  name : ColumnName
  behind : Spacing
  type : Remark
  default : Option DefaultClause
  gap : Spacing
  naming : Option ConstraintNaming
  reference : ReferenceClause
  tail : Text

namespace ReferencingLine

variable (c : ReferencingLine)

def defaultText : Text := c.default.elim [] (·.text)

def front : Text := c.type.text ++ c.defaultText

/-- The reference with the blanks in front of it, up to its closing parenthesis. -/
def openReference : Text :=
  c.gap.text ++ (ConstraintNaming.textOf c.naming ++ (c.reference.word.text ++ (c.reference.behind.text ++
    (c.reference.target.text ++ (c.reference.space.text ++ '(' :: c.reference.columns.text)))))

def referenceText : Text := c.gap.text ++ (ConstraintNaming.textOf c.naming ++ c.reference.text)

def definition : Text := c.front ++ (c.referenceText ++ c.tail)

def text : Text := c.name.text ++ (c.behind.text ++ c.definition)

/-- Where no default opens: up to the default of the column, or up to the end of the reference. -/
def untilDefault : Text :=
  c.type.text ++ match c.default with
    | none => c.openReference
    | some d => d.front.text

/-- What stands right in front of the reference. -/
def remark : Remark := c.default.elim c.type (·.value)

/-- The foreign key of the column: it leads to the first column that the reference lists. -/
def key : ForeignKey where
  column := .ofList c.name.content
  referencesTable := Dialect.postgresql.normalizeName c.reference.target.text
  referencesColumn := (splitIdentifiers c.reference.columns.text).head c.reference.columns.named

end ReferencingLine

/-- A column whose reference is read: the column is defined on one line, `DEFAULT` between blanks stands in no
other place up to the end of the reference than in front of the default, and what stands in front of the
reference neither mentions references nor leaves the name of a constraint open. -/
structure ReferencingColumn extends ReferencingLine where
  oneLine : ∀ c ∈ toReferencingLine.definition, c ≠ '\n'
  noDefault : defaultOpening.occursIn toReferencingLine.untilDefault = false
  noReference : referenceWord.occursIn (toReferencingLine.front ++ gap.text) = false
  closedNames : openName.occursIn toReferencingLine.remark.text = false

/-- In front of a blank a default opens in a solid text only if it opens in the text with the blank. -/
theorem silent_defaultOpening {c : Char} (hu : ∀ d ∈ u.getLast?, isBlank d = false) (hc : isBlank c)
    (hno : defaultOpening.occursIn (u ++ [c]) = false) : defaultOpening.Silent before u (c :: v) := by
  have hword : (keyword "DEFAULT" : SqlPattern).Confined u (c :: v) :=
    confined_keyword_of_stops (by decide) (stops_cons.mpr (isWordChar_eq_false_of_isBlank hc))
  refine silent_of_next rfl (fun x y hxy hy before r hr => ?_) hno
  obtain ⟨a, ha, b, hb, rfl⟩ := mem_readings_seq.mp hr
  obtain ⟨_, -, -, hread, -⟩ := mem_readings_one hb
  have hle := (staysWithin_blanks hu).seq hword x y hxy hy _ a ha
  rw [Match.andThen_read, List.length_append, hread]
  exact Nat.succ_le_succ hle

theorem read?_defaultOption_eq_none (hno : defaultOpening.read? before t = none) :
    defaultOption.read? before t = none := by
  -- more blanks than the first one may stand behind the keyword
  have hstart : ((blanks ++ keyword "DEFAULT") ++ (one isBlank ++ (run isBlank .longest ++
      part .default (run1 (· != '\n') .shortest))) : SqlPattern).read? before t = none := by
    rw [← read?_seq_assoc]
    exact read?_seq_none hno
  rw [defaultOption, read?_seq_assoc]
  rw [← readings_eq_nil_iff] at hstart ⊢
  rw [← hstart]
  exact readings_seq_congr (fun before t => readings_seq_assoc _ _ _ before t) _ before t

theorem read?_optionTail_eq_none (hdefault : defaultOpening.read? before t = none)
    (htail : notNullTail.read? before t = none) : optionTail.read? before t = none := by
  rw [optionTail, read?_maybe_seq, read?_seq_none (read?_defaultOption_eq_none hdefault), Option.none_or]
  exact htail

/-- Up to a closing parenthesis, what may follow a type is read only where a default opens. -/
theorem rejects_optionTail_of_closed (hno : defaultOpening.read? before t = none) (hclose : ')' ∈ t) :
    optionTail.read? before t = none :=
  read?_optionTail_eq_none hno (rejects_notNullTail_of_mem (by decide) hclose before)

theorem silent_optionTail (h : defaultOpening.Silent before u v) (hclose : ')' ∈ v) :
    optionTail.Silent before u v := by
  rw [silent_iff] at h ⊢
  intro x y hxy hy
  exact rejects_optionTail_of_closed (h x y hxy hy) (List.mem_append_right y hclose)

theorem read?_notNullTail_nil (before : Option Char) : notNullTail.read? before [] ≠ none := by
  have h := reads_notNullTail false before
  rw [List.append_nil] at h
  rw [show ColumnLine.notNullText false = [] from rfl] at h
  rw [h]
  exact Option.some_ne_none _

theorem read?_optionTail_nil (before : Option Char) : optionTail.read? before [] ≠ none := by
  have h := reads_optionTail none false before
  rw [List.append_nil, show FreeLine.defaultText none ++ ColumnLine.notNullText false = [] from rfl] at h
  rw [h]
  exact Option.some_ne_none _

/-- The pattern of what is said about a column. -/
def typePattern : SqlPattern := part .type (run1 (· != '\n') .shortest) ++ optionTail

namespace ColumnName

variable (n : ColumnName) (behind : Spacing)

/-- The column with what is read behind its name. -/
def columnRead (r : Match Part) : Column :=
  let (type, default, markers) := Markers.ofColumn (r.part .type).trim (r.part? .default)
  { name := .ofList n.content
    declaredType := .ofList type
    isPrimaryKey := markers.primaryKey
    isNullable := (r.part? .notNull).isNone && !markers.notNull
    defaultValue := (default.filter (!·.isEmpty)).map fun raw => .ofList (DefaultValue.clean true raw)
    foreignKey := markers.foreignKey? .postgresql (.ofList n.content) }

theorem parseColumn?_of_read? {r : Match Part} (ht : Stops isBlank t)
    (hr : typePattern.read? (lastOf (lastOf none n.text) behind.text) t = some r) :
    parseColumn? (n.text ++ (behind.text ++ t)) = some (n.columnRead r) := by
  have hname : columnName.read? none (n.text ++ (behind.text ++ t)) = some ⟨n.text, n.parts, behind.text ++ t⟩ :=
    n.reads (behind.stops (fun _ => isWordChar_eq_false_of_isBlank) _) none
  have hsplit : columnDefinition.read? none (n.text ++ (behind.text ++ t)) =
      (columnName ++ (blanks ++ typePattern)).read? none (n.text ++ (behind.text ++ t)) := by
    simp only [columnDefinition, read?_seq_assoc]
    rfl
  have hread := hsplit.trans (read?_seq hname (read?_seq (behind.reads ht _) hr))
  obtain ⟨o, ho, hreading⟩ := exists_at?_of_read? (.atStart (n.text ++ (behind.text ++ t))) hread
  have hopening : columnDefinition.opening? (n.text ++ (behind.text ++ t)) = some o := ho
  have hmem := mem_of_read? hr
  have hfound : (o.part? .quotedName <|> o.part? .name) = some n.content := by
    rw [Occurrence.part?_eq, Occurrence.part?_eq, hreading, ← Match.andThen_assoc,
      part?_andThen_of_not_mem (by decide) hmem, part?_andThen_of_not_mem (by decide) hmem]
    cases n <;> rfl
  have hparts : ∀ label, label ≠ .name ∧ label ≠ .quotedName → o.part? label = r.part? label := by
    intro label hlabel
    rw [Occurrence.part?_eq, hreading, ← Match.andThen_assoc, part?_andThen]
    cases n <;> simp [Match.part?, parts, hlabel.1.symm, hlabel.2.symm]
  have htype : o.part .type = r.part .type := congrArg (·.getD []) (hparts .type (by decide))
  rw [parseColumn?, hopening]
  simp only [Option.bind_eq_bind, Option.bind_some, hfound, htype, hparts .default (by decide),
    hparts .notNull (by decide)]
  rfl

/-- A name with something behind it on its line defines a column of that name. -/
theorem exists_parseColumn? (hne : t ≠ []) (ht : Stops isBlank t) (hline : '\n' ∉ t) :
    ∃ column, parseColumn? (n.text ++ (behind.text ++ t)) = some column ∧ column.name = .ofList n.content := by
  obtain ⟨d, rest, rfl⟩ := List.exists_cons_of_ne_nil hne
  have hopens : ∀ before, optionTail.Silent before [d] rest := fun before =>
    silent_cons.mpr ⟨rejects_optionTail hne ht before, silent_nil _⟩
  have hchars : ∀ b ∈ [d] ++ rest, (b != '\n') = true := fun b hb => bne_iff_ne.mpr fun h => hline (h ▸ hb)
  obtain ⟨x, y, r, -, -, hr⟩ := @exists_read?_shortest _ _ _ _ _ Part.type
    (lastOf (lastOf none n.text) behind.text) (List.cons_ne_nil d []) hchars (hopens _) read?_optionTail_nil
  exact ⟨_, n.parseColumn?_of_read? behind ht hr, rfl⟩

end ColumnName

namespace ReferencingColumn

variable (c : ReferencingColumn)

def marker : InlineReference := ⟨.ofList c.reference.target.text, splitIdentifiers c.reference.columns.text⟩

theorem referenceText_eq : c.referenceText = c.openReference ++ [')'] := by
  simp [ReferencingLine.referenceText, ReferencingLine.openReference, ReferenceClause.text]

/-- The reference behind a remark is taken, whatever is said behind it. -/
theorem takeReference_remark (hword : referenceWord.occursIn (c.remark.text ++ c.gap.text) = false) (v : Text) :
    (Markers.takeReference (c.remark.text ++ (c.referenceText ++ v))).2 = some c.marker := by
  have hconsumes : referenceMarker.Consumes := consumes_of_not_nullable rfl
  obtain ⟨b, rest, hgap⟩ := List.exists_cons_of_ne_nil c.gap.nonempty
  have hblank : isBlank b := c.gap.blank b (by rw [hgap]; exact List.mem_cons_self)
  have hsilent : referenceMarker.Silent none c.remark.text (c.referenceText ++ v) := by
    rw [ReferencingLine.referenceText, hgap]
    refine silent_referenceMarker c.remark.trimmed.2 ?_ c.closedNames ?_
    · refine occursIn_eq_false_of_isInfix (x := []) (z := rest) rfl ?_
      rw [hgap] at hword
      simpa using hword
    · exact fun hstop => absurd (stops_cons.mp hstop) (by simp [hblank])
  obtain ⟨r, hr, htable, hcolumns⟩ := @read?_referenceMarker (lastOf none c.remark.text) c.gap c.naming c.reference v
  obtain ⟨o, os, ho, hreading, hbefore, -⟩ := exists_occurrences_eq_cons hconsumes hsilent hr
  have htop : referenceMarker.topLevel (c.remark.text ++ (c.referenceText ++ v)) = o :: os.filter (·.isTopLevel) := by
    rw [topLevel, ho]
    exact List.filter_cons_of_pos (isTopLevel_of_balanced (hbefore ▸ c.remark.balanced))
  rw [Markers.takeReference, htop]
  simp only [Occurrence.part_eq, hreading, htable, hcolumns, marker]
  cases hnames : splitIdentifiers c.reference.columns.text with
  | nil => exact absurd hnames c.reference.columns.named
  | cons name names => rfl

theorem not_break : ∀ b ∈ c.definition, (b != '\n') = true := fun b hb => bne_iff_ne.mpr (c.oneLine b hb)

theorem ne_nil_of_remark (m : Remark) (v : Text) : m.text ++ v ≠ [] :=
  List.append_ne_nil_of_left_ne_nil m.nonempty v

/-- Without a default the reference belongs to what is read as the type. -/
theorem exists_read?_of_no_default (h : c.default = none) (before : Option Char) :
    ∃ x r, typePattern.read? before c.definition = some r ∧
      r.part? .type = some (c.type.text ++ c.referenceText ++ x) := by
  have hdefinition : c.definition = (c.type.text ++ c.referenceText) ++ c.tail := by
    simp [ReferencingLine.definition, ReferencingLine.front, ReferencingLine.defaultText, h]
  have huntil : c.untilDefault = c.type.text ++ c.openReference := by
    rw [ReferencingLine.untilDefault, h]
  have hno := c.noDefault
  rw [huntil] at hno
  have hopen : defaultOpening.Silent before (c.type.text ++ c.openReference) (')' :: c.tail) :=
    (staysWithin_of_not_mentioned rfl).silent rfl hno
  have hclose : ∀ before, optionTail.Silent before [')'] c.tail := fun before =>
    silent_cons.mpr ⟨rejects_optionTail (List.cons_ne_nil _ _) (stops_cons.mpr (by decide)) before, silent_nil _⟩
  have hsilent : optionTail.Silent before (c.type.text ++ c.referenceText) c.tail := by
    rw [referenceText_eq, ← List.append_assoc]
    exact (silent_optionTail hopen List.mem_cons_self).append (hclose _)
  have hline : ∀ b ∈ (c.type.text ++ c.referenceText) ++ c.tail, (b != '\n') = true := hdefinition ▸ c.not_break
  obtain ⟨x, y, r, -, hr, hread⟩ := @exists_read?_shortest _ _ _ _ _ Part.type _
    (ne_nil_of_remark c.type c.referenceText) hline hsilent read?_optionTail_nil
  refine ⟨x, _, hdefinition ▸ hread, ?_⟩
  rw [part?_andThen_of_not_mem (by decide) (mem_of_read? hr)]
  rfl

/-- A default is read up to the end of the reference behind it at least. -/
theorem exists_read?_defaultText (d : DefaultClause) (hline : ∀ b ∈ (d.value.text ++ c.referenceText) ++ c.tail,
    (b != '\n') = true) (before : Option Char) :
    ∃ x r, optionTail.read? before (d.text ++ (c.referenceText ++ c.tail)) = some r ∧
      r.part? .default = some (d.value.text ++ c.referenceText ++ x) := by
  have hsilent : ∀ before, notNullTail.Silent before (d.value.text ++ c.referenceText) c.tail := by
    intro before
    rw [referenceText_eq, ← List.append_assoc]
    exact silent_notNullTail_closed (by decide)
  obtain ⟨x, y, r, -, hr, hvalue⟩ := @exists_read?_shortest _ _ _ _ _ Part.default
    (lastOf (lastOf (lastOf before d.front.text) d.word.text) d.behind.text)
    (ne_nil_of_remark d.value c.referenceText) hline (hsilent _) read?_notNullTail_nil
  have hsolid : Stops isBlank ((d.value.text ++ c.referenceText) ++ c.tail) := by
    rw [List.append_assoc]
    exact stops_append d.value.nonempty d.value.trimmed.1 _
  have hfront := d.front.reads (d.word.stops_blank rfl (by decide)
    (d.behind.text ++ ((d.value.text ++ c.referenceText) ++ c.tail)))
  have hoption := read?_seq (hfront before) (read?_seq (d.word.reads _ _) (read?_seq (d.behind.reads hsolid _) hvalue))
  have hsplit : d.text ++ (c.referenceText ++ c.tail) = d.front.text ++ (d.word.text ++ (d.behind.text ++
      ((d.value.text ++ c.referenceText) ++ c.tail))) := by
    simp [DefaultClause.text]
  refine ⟨x, _, Eq.trans ?_ hoption, ?_⟩
  · rw [optionTail, read?_maybe_seq, hsplit]
    simp only [defaultOption, read?_seq_assoc]
    rw [hoption]
    rfl
  · have hnone : r.part? .default = none := part?_eq_none (by decide) (mem_of_read? hr)
    simp only [part?_andThen, hnone]
    rfl

/-- With a default it belongs to what is read as the default. -/
theorem exists_read?_of_default {d : DefaultClause} (h : c.default = some d) (before : Option Char) :
    ∃ x r, typePattern.read? before c.definition = some r ∧ r.part? .type = some c.type.text ∧
      r.part? .default = some (d.value.text ++ c.referenceText ++ x) := by
  have hdefinition : c.definition = c.type.text ++ (d.text ++ (c.referenceText ++ c.tail)) := by
    simp [ReferencingLine.definition, ReferencingLine.front, ReferencingLine.defaultText, h]
  have hline := hdefinition ▸ c.not_break
  have hvalue : ∀ b ∈ (d.value.text ++ c.referenceText) ++ c.tail, (b != '\n') = true := by
    intro b hb
    apply hline
    simp only [DefaultClause.text, List.mem_append] at hb ⊢
    rcases hb with (hb | hb) | hb <;> simp [hb]
  obtain ⟨x, r, hr, hdefault⟩ := c.exists_read?_defaultText d hvalue (lastOf before c.type.text)
  obtain ⟨b, rest, hfront⟩ := List.exists_cons_of_ne_nil d.front.nonempty
  have hno : defaultOpening.occursIn (c.type.text ++ [b]) = false := by
    have huntil := c.noDefault
    rw [ReferencingLine.untilDefault, h] at huntil
    refine occursIn_eq_false_of_isInfix (x := []) (z := rest) rfl ?_
    simpa [hfront] using huntil
  have hopen : defaultOpening.Silent before c.type.text (d.text ++ (c.referenceText ++ c.tail)) := by
    rw [DefaultClause.text, hfront]
    exact silent_defaultOpening c.type.trimmed.2 (d.front.blank b (by rw [hfront]; exact List.mem_cons_self)) hno
  have hclose : ')' ∈ d.text ++ (c.referenceText ++ c.tail) := by
    rw [referenceText_eq]
    simp
  have hread : typePattern.read? before (c.type.text ++ (d.text ++ (c.referenceText ++ c.tail))) =
      some (Match.andThen ⟨c.type.text, [(.type, c.type.text)], d.text ++ (c.referenceText ++ c.tail)⟩ r) :=
    read?_part_shortest_seq c.type.nonempty (fun b hb => hline b (List.mem_append_left _ hb))
      (silent_optionTail hopen hclose) hr
  refine ⟨x, _, hdefinition ▸ hread, ?_, ?_⟩
  · rw [part?_andThen_of_not_mem (by decide) (mem_of_read? hr)]
    rfl
  · rw [part?_andThen, hdefault]
    rfl

theorem trimmed_withReference (m : Remark) : Trimmed (m.text ++ c.referenceText) := by
  have hclose : EndsSolid [')'] := by decide
  rw [referenceText_eq, ← List.append_assoc]
  refine (hclose.behind (by decide) (m.text ++ c.openReference)).trimmed ?_
  rw [List.append_assoc]
  exact stops_append m.nonempty m.trimmed.1 _

theorem ofColumn_reference (type : Text) (default : Option Text) :
    (Markers.ofColumn type default).2.2.reference =
      (Markers.takeReference type).2.or (default.bind fun raw => (Markers.takeReference raw).2) := by
  cases default with
  | none => exact (Option.or_none).symm
  | some raw =>
      rw [Option.bind_some]
      exact Option.orElse_eq_or ..

/-- The markers of the column have its reference, whichever part it is read with. -/
theorem exists_read?_definition (before : Option Char) :
    ∃ r type, typePattern.read? before c.definition = some r ∧ r.part? .type = some type ∧
      (Markers.ofColumn type.trim (r.part? .default)).2.2.reference = some c.marker := by
  have hreference := c.takeReference_remark
  have hword := c.noReference
  cases hdefault : c.default with
  | none =>
      have hremark : c.remark = c.type := by rw [ReferencingLine.remark, hdefault]; rfl
      obtain ⟨x, r, hr, htype⟩ := c.exists_read?_of_no_default hdefault before
      refine ⟨r, _, hr, htype, ?_⟩
      rw [ReferencingLine.front, ReferencingLine.defaultText, hdefault] at hword
      rw [hremark] at hreference
      rw [ofColumn_reference, (c.trimmed_withReference c.type).trim_append (ne_nil_of_remark _ _),
        List.append_assoc, hreference (by simpa using hword)]
      rfl
  | some d =>
      have hremark : c.remark = d.value := by rw [ReferencingLine.remark, hdefault]; rfl
      obtain ⟨x, r, hr, htype, hvalue⟩ := c.exists_read?_of_default hdefault before
      refine ⟨r, _, hr, htype, ?_⟩
      rw [ReferencingLine.front, ReferencingLine.defaultText, hdefault] at hword
      have htypeWord : referenceWord.occursIn c.type.text = false :=
        occursIn_eq_false_of_isInfix (x := []) rfl (by simpa using hword)
      have hvalueWord : referenceWord.occursIn (d.value.text ++ c.gap.text) = false := by
        refine occursIn_eq_false_of_isInfix (z := []) (x := c.type.text ++ (d.front.text ++ (d.word.text ++
          d.behind.text))) rfl ?_
        simpa [DefaultClause.text] using hword
      have hnone : (Markers.takeReference c.type.text).2 = none := by
        rw [Markers.takeReference, topLevel_of_silent (silent_referenceMarker_end htypeWord)]
      rw [hremark] at hreference
      rw [ofColumn_reference, c.type.trimmed.trim_eq, hnone, hvalue, Option.bind_some, List.append_assoc,
        hreference hvalueWord]
      rfl

/-- A column with a reference is read back with the foreign key to the table that it names. -/
theorem parseColumn?_text : ∃ column, parseColumn? c.text = some column ∧
    column.name = .ofList c.name.content ∧ column.foreignKey = some c.key := by
  obtain ⟨r, type, hr, htype, hmarkers⟩ := c.exists_read?_definition
    (lastOf (lastOf none c.name.text) c.behind.text)
  have hsolid : Stops isBlank c.definition := by
    rw [ReferencingLine.definition, ReferencingLine.front, List.append_assoc]
    exact stops_append c.type.nonempty c.type.trimmed.1 _
  refine ⟨_, c.name.parseColumn?_of_read? c.behind hsolid hr, rfl, ?_⟩
  have hpart : r.part .type = type := congrArg (·.getD []) htype
  obtain ⟨target, targets, htargets⟩ := List.exists_cons_of_ne_nil c.reference.columns.named
  simp only [ColumnName.columnRead, Markers.foreignKey?, hpart, hmarkers, marker, ReferencingLine.key, htargets,
    String.toList_ofList, List.head_cons]

end ReferencingColumn

end SchemaDump.PostgreSQL
