import SchemaDump.Proofs.MySQL.AttributeDefault
/- Reading a column line. The comment is cut out first, wherever it stands, and then the default; the marks are what
is left. What a line does not say is taken from the text behind it, if there is any. -/
namespace SchemaDump.MySQL
open SqlPattern Pattern

variable {v : Text}

namespace DataType

variable (t : DataType)

theorem endsSolid : EndsSolid t.text := by
  have hword : EndsSolid t.word :=
    endsSolid_of_forall fun c hc => solid_of_isWordChar (t.wordChars c hc)
  have harguments : EndsSolid t.argumentText := by
    rw [DataType.argumentText]
    cases t.arguments with
    | none => decide
    | some a => exact EndsSolid.behind (v := [')']) (by decide) (by decide) ('(' :: a.text)
  have hmodifiers : EndsSolid (ColumnType.modifierText t.modifiers) := by
    apply endsSolid_flatMap
    intro m
    cases m <;> decide
  exact hword.append (harguments.append hmodifiers)

theorem nonempty : t.text ≠ [] := by
  rw [DataType.text]
  exact List.append_ne_nil_of_left_ne_nil t.wordNonempty _

theorem trim_eq : t.text.trim = t.text := by
  have hstops := stops_typeText t []
  rw [List.append_nil] at hstops
  exact (t.endsSolid.trimmed hstops).trim_eq

end DataType

def markersBesideDefault (options : Text) : Markers :=
  (Markers.take true (match defaultClause.find? options with
    | some o => o.before ++ o.after
    | none => options)).2

/-- Behind a default no other one is looked for. -/
def defaultBehind (defaulted : Bool) (v : Text) : Text × Option Text :=
  match if defaulted then none else defaultClause.find? v with
  | some o => (o.before ++ o.after, some (DefaultValue.clean false (o.part .default)))
  | none => (v, none)

/-- A text in which neither a default nor a mark is found, its comments apart. -/
structure IsMute (t : Text) : Prop where
  noDefault : defaultClause.occursIn (uncommented t) = false
  noReference : referenceMarker.occursIn (uncommented t) = false
  noPrimaryKey : primaryKeyMarker.occursIn (uncommented t) = false
  noNotNull : notNullMarker.occursIn (uncommented t) = false

instance (t : Text) : Decidable (IsMute t) := decidable_of_iff
  (defaultClause.occursIn (uncommented t) = false ∧ referenceMarker.occursIn (uncommented t) = false ∧
    primaryKeyMarker.occursIn (uncommented t) = false ∧ notNullMarker.occursIn (uncommented t) = false)
  ⟨fun ⟨hdefault, hreference, hprimary, hnull⟩ => ⟨hdefault, hreference, hprimary, hnull⟩,
    fun h => ⟨h.noDefault, h.noReference, h.noPrimaryKey, h.noNotNull⟩⟩

/-- A column line defines what its options say without the comments. -/
theorem parseColumn?_written (name : ColumnName) (type : DataType) (h : ∀ l ∈ type.contents, ')' ∉ l.text)
    {options rest : Text} (hahead : OptionsAhead options)
    (hcut : uncommented options = rest) :
    parseColumn? (name.text ++ ' ' :: (type.text ++ options)) = some
      { name := .ofList (unquote name.content)
        declaredType := .ofList type.text
        isPrimaryKey := (markersBesideDefault rest).primaryKey
        isNullable := !(markersBesideDefault rest).notNull
        defaultValue := (defaultClause.find? rest).map fun o => .ofList (DefaultValue.clean false (o.part .default))
        foreignKey := (markersBesideDefault rest).foreignKey? .mysql (.ofList (unquote name.content)) } := by
  have hread := reads_columnDefinition name type h hahead none
  rw [List.append_nil] at hread
  obtain ⟨o, ho, hreading⟩ := exists_at?_of_read? (.atStart _) hread
  have hopening : columnDefinition.opening? (name.text ++ ' ' :: (type.text ++ options)) = some o := ho
  have hname : (o.part? .quotedName <|> o.part? .name) = some name.content := by
    rw [Occurrence.part?_eq, Occurrence.part?_eq, hreading]
    cases name <;> rfl
  have htype : o.part .type = type.text := by
    rw [Occurrence.part_eq, hreading]
    rfl
  have hoptions : o.part .options = options := by
    rw [Occurrence.part_eq, hreading]
    rfl
  rw [uncommented] at hcut
  rw [parseColumn?]
  simp only [hopening, hname, htype, hoptions, hcut, Option.bind_eq_bind, Option.bind_some, type.trim_eq]
  rfl

namespace AttributeLine

variable (c : AttributeLine)

theorem endsSolid_text : EndsSolid c.text := by
  have hattributes : EndsSolid (attributesText c.attributes) := endsSolid_flatMap (fun a => a.endsSolid) c.attributes
  have hend := (c.type.endsSolid.behind c.type.nonempty (c.name.text ++ [' '])).append hattributes
  rw [AttributeLine.text]
  rwa [List.append_assoc, List.append_assoc] at hend

theorem trim_text : c.text.trim = c.text :=
  (c.endsSolid_text.trimmed (c.name.stops (by decide) (fun _ => isBlank_eq_false_of_isWordChar) _)).trim_eq

/-- The attributes that neither are a default nor a comment. -/
def marks : List Attribute := c.others.filter fun a => a.kind ≠ .option .default

theorem isMark_of_mem_marks : ∀ a ∈ c.marks, a.isMark := fun a ha => by
  simp only [marks, others, List.mem_filter, decide_eq_true_eq] at ha
  exact Attribute.isMark_iff.mpr ⟨ha.2, ha.1.2⟩

theorem count_kind_le_one {k : AttributeKind} (hk : k ≠ .null) : (c.attributes.map (·.kind)).count k ≤ 1 := by
  have hsingle := List.nodup_iff_count_le_one.mp c.distinct k
  rwa [List.count_filter (by simpa using hk)] at hsingle

theorem count_kind_others_le_one {k : AttributeKind} (hk : k ≠ .null) : (c.others.map (·.kind)).count k ≤ 1 :=
  ((List.filter_sublist.map _).count_le k).trans (c.count_kind_le_one hk)

theorem count_kind_marks_le_one {k : AttributeKind} (hk : k ≠ .null) : (c.marks.map (·.kind)).count k ≤ 1 :=
  ((List.filter_sublist.map _).count_le k).trans (c.count_kind_others_le_one hk)

theorem mem_others {a : Attribute} : a ∈ c.others ↔ a ∈ c.attributes ∧ a.kind ≠ .option .comment := by
  simp [others]

theorem findSome?_reference_marks : c.marks.findSome? (·.reference?) = c.attributes.findSome? (·.reference?) := by
  rw [marks, others, findSome?_kind_filter Attribute.kind_of_reference? (by decide),
    findSome?_kind_filter Attribute.kind_of_reference? (by decide)]

theorem contains_kind_marks {k : AttributeKind} (hdefault : k ≠ .option .default) (hcomment : k ≠ .option .comment) :
    (c.marks.map (·.kind)).contains k = (c.attributes.map (·.kind)).contains k := by
  rw [marks, others, contains_kind_filter hdefault, contains_kind_filter hcomment]

theorem take_marks {front back : List Attribute} (h : c.marks = front ++ back) (wide : Bool) (hv : IsTrail v) :
    (Markers.take true (attributesText front ++ ((if wide then [' '] else []) ++ (attributesText back ++ v)))).2 =
      (markersOf c.attributes).merge (markersBehind ((c.attributes.map (·.kind)).contains .references) v) := by
  rw [take_attributes (h ▸ c.count_kind_marks_le_one (by decide)) (h ▸ c.isMark_of_mem_marks) wide hv, ← h, markersOf,
    c.contains_kind_marks (by decide) (by decide), c.contains_kind_marks (by decide) (by decide),
    c.contains_kind_marks (by decide) (by decide), c.findSome?_reference_marks, markersOf]

/-- The text that is left when the comments are cut out and the default is set aside. -/
def restBehind (v : Text) : Text := (defaultBehind ((c.attributes.map (·.kind)).contains (.option .default)) v).1

/-- The default that is found: the one of the line if it has one. -/
def defaultBefore (v : Text) : Option Text :=
  c.attributes.findSome? (·.value?) <|> (defaultBehind ((c.attributes.map (·.kind)).contains (.option .default)) v).2

/-- The marks that are found: those of the line, and others behind it. -/
def markersBefore (v : Text) : Markers :=
  (markersOf c.attributes).merge (markersBehind ((c.attributes.map (·.kind)).contains .references) (c.restBehind v))

/-- Without the comment, the default is found if there is one, and around it the marks. -/
theorem read_others (h : NoEarlyDefault c.others) (hv : IsTrail v) :
    (defaultClause.find? (attributesText c.others ++ v)).map (fun o => DefaultValue.clean false (o.part .default)) =
        c.defaultBefore v ∧
      markersBesideDefault (attributesText c.others ++ v) = c.markersBefore v := by
  have hkind : (c.attributes.map (·.kind)).contains (.option .default) =
      (c.others.map (·.kind)).contains (.option .default) := by
    rw [others, contains_kind_filter (by decide)]
  rw [defaultBefore, markersBefore, restBehind, hkind]
  by_cases hdefault : .option .default ∈ c.others.map (·.kind)
  · obtain ⟨front, a, back, hsplit, ha, hmarks⟩ := exists_split_of_mem_kind
      (c.count_kind_others_le_one (by decide)) hdefault
    have hmem : a ∈ c.others := hsplit ▸ List.mem_append_right front List.mem_cons_self
    have hfront : ∀ a ∈ front, a.kind ≠ .option .default := fun b hb =>
      (Attribute.isMark_iff.mp (c.isMark_of_mem_marks b
        ((show c.marks = front ++ back from hmarks) ▸ List.mem_append_left back hb))).1
    obtain ⟨found, hfound, hvalue, hbefore, hafter⟩ := find?_default (hsplit ▸ h) hv hfront ha
    have hown : c.attributes.findSome? (·.value?) = some (DefaultValue.clean false (found.part .default)) :=
      (findSome?_eq_some_iff_of_kind Attribute.kind_of_value? (c.count_kind_le_one (by decide))).mpr
        ⟨a, (c.mem_others.mp hmem).1, hvalue⟩
    have hmarkers := c.take_marks hmarks true hv
    rw [List.contains_iff_mem.mpr hdefault, hown, markersBesideDefault, hsplit, hfound]
    simp only [hbefore, hafter, List.append_assoc]
    exact ⟨rfl, hmarkers⟩
  · have hmarks : c.marks = c.others ++ [] := (filter_kind_of_not_mem hdefault).trans (List.append_nil _).symm
    have hcontains : (c.others.map (·.kind)).contains (.option .default) = false :=
      Bool.eq_false_iff.mpr fun hcontains => hdefault (List.contains_iff_mem.mp hcontains)
    have hown : c.attributes.findSome? (·.value?) = none := by
      rw [List.findSome?_eq_none_iff]
      refine fun a ha => Option.eq_none_iff_forall_ne_some.mpr fun d hd => hdefault ?_
      have hkind := Attribute.kind_of_value? hd
      exact List.mem_map.mpr ⟨a, c.mem_others.mpr ⟨ha, by simp [hkind]⟩, hkind⟩
    have hsilent : defaultClause.Silent none (attributesText c.others) (attributesText [] ++ v) :=
      silent_defaultClause_attributes (by rwa [List.append_nil]) hv
        fun a ha heq => hdefault (List.mem_map.mpr ⟨a, ha, heq⟩)
    rw [hcontains, hown, markersBesideDefault, defaultBehind, if_neg Bool.false_ne_true]
    rcases find?_append (consumes_of_not_nullable rfl) (hv.rejects rfl rfl) hsilent with
      ⟨hnone, hbehind⟩ | ⟨o, q, ho, hq, hreading, hbefore, hhead⟩
    · have hmarkers := c.take_marks hmarks false hv
      rw [hnone, hbehind]
      exact ⟨rfl, hmarkers⟩
    · have htrail : IsTrail (q.before ++ q.after) := fun d hd => hv d (hhead ▸ hd)
      have hmarkers := c.take_marks hmarks false htrail
      have hpart : o.part .default = q.part .default := by rw [Occurrence.part_eq, Occurrence.part_eq, hreading]
      have hafter : o.after = q.after := congrArg Match.rest hreading
      rw [ho, hq]
      simp only [hbefore, hafter, List.append_assoc, Option.map_some, hpart]
      exact ⟨rfl, hmarkers⟩

/-- The column that a line defines in front of more text. What the line says itself goes first; comments do not
count. -/
def columnBefore (v : Text) : Column where
  name := c.column.name
  declaredType := c.column.declaredType
  isPrimaryKey := (c.markersBefore (uncommented v)).primaryKey
  isNullable := !(c.markersBefore (uncommented v)).notNull
  defaultValue := (c.defaultBefore (uncommented v)).map .ofList
  foreignKey := (c.markersBefore (uncommented v)).foreignKey? .mysql c.column.name

/-- A column line is read with what stands behind it. -/
theorem parseColumn?_before (h : c.Readable) (hv : IsTrail v) (hshuts : ∀ a ∈ c.attributes, a.Shuts v) :
    parseColumn? (c.text ++ v) = some (c.columnBefore v) := by
  obtain ⟨htrail, hcut⟩ := uncommented_attributes h.quiet h.settled hv hshuts
  obtain ⟨hdefault, hmarkers⟩ := c.read_others h.plain htrail
  have hread := parseColumn?_written c.name c.type h.closed (attributesText_starts c.attributes hv.optionsAhead) hcut
  have htext : c.text ++ v = c.name.text ++ ' ' :: (c.type.text ++ (attributesText c.attributes ++ v)) := by
    simp [text]
  have hvalue := congrArg (Option.map String.ofList) hdefault
  rw [Option.map_map] at hvalue
  rw [htext, hread, columnBefore, ← hvalue, ← hmarkers]
  rfl

def marksFound (v : Text) : Markers :=
  markersBehind ((c.attributes.map (·.kind)).contains .references) (c.restBehind (uncommented v))

def defaultFound (v : Text) : Option Text :=
  (defaultBehind ((c.attributes.map (·.kind)).contains (.option .default)) (uncommented v)).2

/-- The column of a line in front of more text is its own one, with what is found behind the line. -/
theorem columnBefore_eq (v : Text) : c.columnBefore v =
    { c.column with
      isPrimaryKey := c.column.isPrimaryKey || (c.marksFound v).primaryKey
      isNullable := c.column.isNullable && !(c.marksFound v).notNull
      defaultValue := c.column.defaultValue.or ((c.defaultFound v).map .ofList)
      foreignKey := c.column.foreignKey.or ((c.marksFound v).foreignKey? .mysql c.column.name) } := by
  have hvalue : (c.defaultBefore (uncommented v)).map String.ofList =
      c.column.defaultValue.or ((c.defaultFound v).map .ofList) := by
    rw [defaultBefore, column, defaultFound]
    cases c.attributes.findSome? (·.value?) <;> rfl
  have hkey : (c.markersBefore (uncommented v)).foreignKey? .mysql c.column.name =
      c.column.foreignKey.or ((c.marksFound v).foreignKey? .mysql c.column.name) := by
    simp only [markersBefore, marksFound, merge_eq, column, Markers.foreignKey?, markersOf]
    cases c.attributes.findSome? (·.reference?) with
    | none => rfl
    | some r => simp [ColumnReference.inline]
  rw [columnBefore, hvalue, hkey, markersBefore, merge_eq, Bool.not_or]
  rfl

/-- Where nothing is found behind it, a line defines its own column. -/
theorem columnBefore_of_mute (h : IsMute v) : c.columnBefore v = c.column := by
  have hsilent : ∀ p : SqlPattern, p.occursIn (uncommented v) = false → p.Silent none (uncommented v) [] := by
    intro p hp
    rw [silent_iff]
    intro x y hxy _
    rw [List.append_nil]
    exact occursIn_eq_false_iff.mp hp x y hxy
  have hdefault : ∀ defaulted, defaultBehind defaulted (uncommented v) = (uncommented v, none) := fun defaulted => by
    have hnone := find?_eq_none_of_silent (consumes_of_not_nullable rfl) (hsilent _ h.noDefault)
    cases defaulted
    · rw [defaultBehind, if_neg Bool.false_ne_true, hnone]
    · rfl
  have hreference : ∀ referred, referenceBehind referred (uncommented v) = (uncommented v, none) := fun referred => by
    cases referred
    · rw [referenceBehind, if_neg Bool.false_ne_true, Markers.takeReference,
        topLevel_of_silent (hsilent _ h.noReference)]
    · rfl
  have hprimary := takeAll_of_silent (hsilent _ h.noPrimaryKey)
  have hnull := takeAll_of_silent (hsilent _ h.noNotNull)
  have hmarks : c.marksFound v = {} := by
    rw [marksFound, restBehind, hdefault, markersBehind, hreference]
    simp only [hprimary, hnull]
  rw [columnBefore_eq, hmarks, defaultFound, hdefault]
  simp [Markers.foreignKey?]

theorem columnBefore_nil : c.columnBefore [] = c.column := c.columnBefore_of_mute (by decide)

theorem parseColumn?_text (h : c.Readable) : parseColumn? c.text = some c.column := by
  have hread := c.parseColumn?_before h isTrail_nil fun a _ l _ => .inr List.not_mem_nil
  rwa [List.append_nil, c.columnBefore_nil] at hread

end AttributeLine

namespace OptionLine

variable (c : OptionLine)

theorem noEarlyDefault_options {options : List ColumnOption} (h : ∀ o ∈ options, o.kind ≠ .comment) :
    NoEarlyDefault (options.map .option) := by
  refine noEarlyDefault_of_forall fun a ha => ?_
  obtain ⟨o, ho, rfl⟩ := List.mem_map.mp ha
  cases o with
  | default => exact .inl rfl
  | comment => exact absurd rfl (h _ ho)
  | _ => exact .inr (by decide)

theorem readable_line (h : c.Readable) : c.line.Readable where
  closed := h.closed
  quiet a ha := by
    obtain ⟨o, -, rfl⟩ := List.mem_map.mp ha
    rfl
  settled := by
    refine List.pairwise_map.mpr ((h.settled.and (List.pairwise_map.mp c.distinct)).imp ?_)
    rintro o next ⟨hallows, hkind⟩
    cases o with
    | default d =>
        cases d with
        | bare => rfl
        | literal l =>
            cases next with
            | default => exact absurd rfl hkind
            | comment => exact Bool.or_eq_true_iff.mpr (.inl hallows)
            | _ => exact Bool.or_eq_true_iff.mpr (.inr (by decide))
    | _ => rfl
  plain := by
    have hothers : c.line.others = (c.options.filter fun o => o.kind ≠ .comment).map .option := by
      rw [AttributeLine.others, line, List.filter_map]
      refine congrArg _ (List.filter_congr fun o _ => ?_)
      simp [Attribute.kind]
    rw [hothers]
    exact noEarlyDefault_options fun o ho => of_decide_eq_true (List.mem_filter.mp ho).2

theorem endsSolid_text : EndsSolid c.text := c.text_line ▸ c.line.endsSolid_text

theorem parseColumn?_text (h : c.Readable) : parseColumn? c.text = some c.column := by
  rw [← c.text_line, c.line.parseColumn?_text (c.readable_line h), c.column_line]

end OptionLine

theorem FreeLine.endsSolid_text (c : FreeLine) : EndsSolid c.text := c.text_line ▸ c.line.endsSolid_text

theorem FreeLine.parseColumn?_text (c : FreeLine) : parseColumn? c.text = some c.column := by
  rw [← c.text_line, c.line.parseColumn?_text c.readable_line, c.column_line]

namespace ColumnLine

variable (c : ColumnLine)

/-- The column that a line defines, as long as no key of the table takes it. -/
def column : Column where
  name := c.name.string
  declaredType := .ofList c.type.text
  isNullable := !c.notNull
  defaultValue := c.default.map fun d => .ofList d.value

theorem free_column : c.free.column = c.column := by
  have hdefault : (c.default.map (·.free)).map (fun d => String.ofList d.value) =
      c.default.map fun d => .ofList d.value := by
    rw [Option.map_map]
    refine Option.map_congr fun d _ => ?_
    cases d <;> rfl
  rw [FreeLine.column, column, ← hdefault]
  rfl

theorem endsSolid_text : EndsSolid c.text := c.free_text ▸ c.free.endsSolid_text

theorem parseColumn?_text : parseColumn? c.text = some c.column := by
  rw [← c.free_text, c.free.parseColumn?_text, c.free_column]

end ColumnLine

end SchemaDump.MySQL
