import SchemaDump.Proofs.Definition.DefinedTable
import SchemaDump.Proofs.MySQL.Body
/- Expressions in parentheses as defaults. An expression is read up to the parenthesis that closes it as long as
parentheses stand in pairs of one depth in it, those in literals included, and otherwise up to the next blank or
comma. A column has its default whole and its marks right if and only if this takes all of the expression. -/
namespace SchemaDump.MySQL
open SqlPattern Pattern

variable {before : Option Char} {u v : Text}

/-- An expression that is read to its end, by what stands in its parentheses: pairs of parentheses with no pair
within another; or else neither a blank nor a comma, and no parenthesis that closes the expression early. -/
def IsTakenWhole (inner : Text) : Prop :=
  Shallow inner ∨
    (∀ c ∈ inner, isBlank c = false ∧ c ≠ ',') ∧ ∀ u v, Shallow u → inner ++ [')'] ≠ u ++ ')' :: v

/-- The beginning of an expression that is read as a default. -/
structure ReadsBeginning (inner value rest : Text) : Prop where
  text : '(' :: (inner ++ [')']) = '(' :: (value ++ rest)
  solid : ∀ c ∈ ('(' :: value).getLast?, isBlank c = false
  reads : defaultValue.Reads ('(' :: value) rest []

variable {inner : Text}

theorem readsBeginning_group (hu : Shallow u) (htext : inner ++ [')'] = u ++ ')' :: v) :
    ReadsBeginning inner (u ++ [')']) v where
  text := by
    rw [htext]
    simp
  solid := by
    rw [← List.cons_append, List.getLast?_concat]
    exact fun c hc => Option.some.inj hc ▸ by decide
  reads := reads_defaultValue_group hu v

theorem isTakenWhole_iff_of_group (hu : Shallow u) (htext : inner ++ [')'] = u ++ ')' :: v) :
    IsTakenWhole inner ↔ v = [] := by
  constructor
  · rintro (hinner | ⟨-, hnone⟩)
    · exact (hinner.eq_of_closes hu htext).2.symm
    · exact absurd htext (hnone u v hu)
  · rintro rfl
    exact .inl (List.append_cancel_right htext ▸ hu)

/-- The default goes on to the next blank or comma. -/
theorem readsBeginning_run (h : ∀ u v, Shallow u → inner ++ [')'] ≠ u ++ ')' :: v) :
    ReadsBeginning inner ((inner ++ [')']).takeWhile isDefaultChar) ((inner ++ [')']).dropWhile isDefaultChar) := by
  have hchars : ∀ c ∈ '(' :: (inner ++ [')']).takeWhile isDefaultChar, isDefaultChar c := by
    intro c hc
    rcases List.mem_cons.mp hc with rfl | hc
    · decide
    · exact List.mem_takeWhile_imp hc
  have hstops : Stops isDefaultChar ((inner ++ [')']).dropWhile isDefaultChar) := by
    intro c hc
    have hhead := List.head?_dropWhile_not isDefaultChar (inner ++ [')'])
    rw [hc] at hhead
    exact hhead
  have hgroup : (literal "(" ++ shallowText ++ literal ")" : SqlPattern).Rejects
      ('(' :: (inner ++ [')']).takeWhile isDefaultChar ++ (inner ++ [')']).dropWhile isDefaultChar) := by
    rw [List.cons_append, List.takeWhile_append_dropWhile]
    exact rejects_group fun u v hu heq => h u v hu (List.cons.inj heq).2
  exact ⟨by rw [List.takeWhile_append_dropWhile],
    fun c hc => (isDefaultChar_iff.mp (hchars c (List.mem_of_getLast? hc))).1,
    reads_defaultValue_run (by decide) hgroup hchars hstops⟩

theorem isTakenWhole_iff_of_no_group (h : ∀ u v, Shallow u → inner ++ [')'] ≠ u ++ ')' :: v) :
    IsTakenWhole inner ↔ (inner ++ [')']).dropWhile isDefaultChar = [] := by
  rw [List.dropWhile_eq_nil_iff]
  constructor
  · rintro (hinner | ⟨hsolid, -⟩)
    · exact absurd rfl (h inner [] hinner)
    · intro c hc
      rcases List.mem_append.mp hc with hc | hc
      · exact isDefaultChar_iff.mpr (hsolid c hc)
      · exact List.mem_singleton.mp hc ▸ by decide
  · exact fun hall => .inr ⟨fun c hc => isDefaultChar_iff.mp (hall c (List.mem_append_left _ hc)), h⟩

/-- Of every expression a beginning is read, and it is all of the expression if and only if that is taken whole. -/
theorem exists_readsBeginning (inner : Text) :
    ∃ value rest, ReadsBeginning inner value rest ∧ (IsTakenWhole inner ↔ rest = []) := by
  by_cases hgroup : ∃ u v, Shallow u ∧ inner ++ [')'] = u ++ ')' :: v
  · obtain ⟨u, v, hu, htext⟩ := hgroup
    exact ⟨_, v, readsBeginning_group hu htext, isTakenWhole_iff_of_group hu htext⟩
  · have hnone : ∀ u v, Shallow u → inner ++ [')'] ≠ u ++ ')' :: v := fun u v hu htext => hgroup ⟨u, v, hu, htext⟩
    exact ⟨_, _, readsBeginning_run hnone, isTakenWhole_iff_of_no_group hnone⟩

/-- A column with an expression as its default, which may be marked `NOT NULL` and may have a comment. The word
`COMMENT` does not stand in the expression. -/
structure ExpressionLine where
  name : QuotedName
  type : DataType
  closed : ∀ l ∈ type.contents, ')' ∉ l.text
  notNull : Bool
  inner : Text
  quiet : hasWord "COMMENT" inner = false
  comment : Option Content

namespace ExpressionLine

variable (c : ExpressionLine)

def expression : Text := '(' :: (c.inner ++ [')'])

def marks : List Attribute := if c.notNull then [.option .notNull] else []

def comments : List Attribute := c.comment.toList.map fun l => .option (.comment l)

def plainOptions : Text := attributesText c.marks ++ ' ' :: ("DEFAULT".toList ++ ' ' :: c.expression)

def text : Text := c.name.quoted ++ ' ' :: (c.type.text ++ (c.plainOptions ++ attributesText c.comments))

/-- The column that a line is meant to define. -/
def column : Column where
  name := .ofList (unquote c.name.text)
  declaredType := .ofList c.type.text
  isNullable := !c.notNull
  defaultValue := some (.ofList c.expression)

theorem optionsAhead : OptionsAhead (c.plainOptions ++ attributesText c.comments) := by
  have hmarks : attributesText c.marks = [] ∨ ∃ u, attributesText c.marks = ' ' :: 'N' :: u := by
    rw [marks]
    cases c.notNull with
    | false => exact .inl rfl
    | true => exact .inr ⟨_, rfl⟩
  rcases hmarks with h | ⟨u, h⟩
  · rw [plainOptions, h]
    exact .inr (.inr ⟨'D', _, rfl, by decide⟩)
  · rw [plainOptions, h]
    exact .inr (.inr ⟨'N', _, rfl, by decide⟩)

theorem plainOptions_eq : c.plainOptions = (attributesText c.marks ++ " DEFAULT (".toList) ++ (c.inner ++ [')']) := by
  simp [plainOptions, expression]

theorem endsSolid_plainOptions : EndsSolid c.plainOptions := by
  have hclose : EndsSolid [')'] := by decide
  rw [plainOptions_eq, ← List.append_assoc]
  exact hclose.behind (List.cons_ne_nil _ _) _

theorem silent_plainOptions (v : Text) : commentClause.Silent before c.plainOptions v := by
  have hfront : hasWord "COMMENT" (attributesText c.marks ++ " DEFAULT (".toList) = false := by
    rw [marks]
    cases c.notNull <;> decide
  have hlast : (attributesText c.marks ++ " DEFAULT (".toList).getLast? = some '(' := by
    rw [List.getLast?_append]
    rfl
  have hblank : ∀ c, isBlank c → isWordChar c = false := fun _ => isWordChar_eq_false_of_isBlank
  rw [plainOptions_eq]
  refine Silent.append ?_ (Silent.append ?_ (silent_of_starts rfl (by decide)))
  · refine silent_of_hasWord encloses_commentClause (by decide) (by decide) hblank hfront (.inr fun k hk => ?_)
      (.inr fun k hk => ?_)
    · exact Option.some.inj (hlast.symm.trans hk) ▸ by decide
    · exact Option.some.inj (hlast.symm.trans hk) ▸ by decide
  · exact silent_of_hasWord encloses_commentClause (by decide) (by decide) hblank c.quiet
      (.inl (stops_cons.mpr (by decide))) (.inl (stops_cons.mpr (by decide)))

theorem cut_comments : cut (c.plainOptions ++ attributesText c.comments)
    ((commentClause.occurrences (c.plainOptions ++ attributesText c.comments)).map (·.toSpan)) = c.plainOptions := by
  cases hcomment : c.comment with
  | none =>
      have hnone : attributesText c.comments = [] := by rw [comments, hcomment]; rfl
      rw [hnone, List.append_nil]
      exact cut_of_silent (c.silent_plainOptions [])
  | some l =>
      have hsome : attributesText c.comments = (Attribute.option (.comment l)).text ++ [] := by
        rw [comments, hcomment]
        rfl
      have hend : ∀ before, commentClause.Silent before [] [] := fun _ => silent_nil []
      have hcut := cut_at_comment l (c.silent_plainOptions _) (.inl rfl) hend
      rwa [← hsome, List.append_nil] at hcut

theorem exists_find? {value rest : Text} (h : ReadsBeginning c.inner value rest) :
    ∃ o, defaultClause.find? c.plainOptions = some o ∧ DefaultValue.clean false (o.part .default) = '(' :: value ∧
      o.before = attributesText c.marks ++ [' '] ∧ o.after = rest := by
  have hsplit : c.plainOptions =
      (attributesText c.marks ++ [' ']) ++ (("DEFAULT".toList ++ ' ' :: '(' :: value) ++ rest) := by
    rw [plainOptions, expression, h.text]
    simp
  have hmarks : (∀ d ∈ (attributesText c.marks).head?, isWordChar d = false) ∧
      defaultOpening.occursIn (attributesText c.marks ++ [' ']) = false := by
    rw [marks]
    cases c.notNull <;> decide
  have hsilent : defaultClause.Silent none (attributesText c.marks ++ [' '])
      (("DEFAULT".toList ++ ' ' :: '(' :: value) ++ rest) :=
    Silent.append (silent_defaultClause hmarks.1 (stops_cons.mpr (by decide)) hmarks.2)
      (silent_of_starts rfl (by decide))
  have hread := read?_defaultClause (t := '(' :: value) (v := rest) (stops_cons.mpr (by decide)) h.reads
  have hlast : lastOf none (attributesText c.marks ++ [' ']) = some ' ' := by
    rw [lastOf_append]
    rfl
  rw [← hlast] at hread
  obtain ⟨o, ho, hreading, hbefore⟩ := find?_of_silent hsilent hread
  have hpart : o.part .default = '(' :: value := by
    rw [Occurrence.part_eq, hreading]
    rfl
  refine ⟨o, hsplit ▸ ho, ?_, hbefore, congrArg Match.rest hreading⟩
  rw [hpart]
  exact clean_of_no_quote (by decide) (by decide) h.solid

theorem trim_text : c.text.trim = c.text := by
  have hcomments : EndsSolid (attributesText c.comments) := endsSolid_flatMap (fun a => a.endsSolid) _
  have hne : c.plainOptions ++ attributesText c.comments ≠ [] :=
    List.append_ne_nil_of_left_ne_nil (List.append_ne_nil_of_right_ne_nil _ (List.cons_ne_nil _ _)) _
  have hend := (c.endsSolid_plainOptions.append hcomments).behind hne (c.name.quoted ++ ' ' :: c.type.text)
  have htext : c.text =
      (c.name.quoted ++ ' ' :: c.type.text) ++ (c.plainOptions ++ attributesText c.comments) := by
    simp [text]
  rw [htext]
  exact (hend.trimmed fun d hd => Option.some.inj hd ▸ by decide).trim_eq

theorem take_marks :
    (Markers.take true ((attributesText c.marks ++ [' ']) ++ [])).2 = { notNull := c.notNull } := by
  have hsingle : ((c.marks ++ []).map Attribute.kind).count AttributeKind.references ≤ 1 := by
    rw [marks]
    cases c.notNull <;> decide
  have hmarks : ∀ a ∈ c.marks ++ [], a.isMark := by
    rw [marks]
    cases c.notNull <;> decide
  have htake := take_attributes hsingle hmarks true isTrail_nil
  have hmarkers : markersOf (c.marks ++ []) = { notNull := c.notNull } := by
    rw [marks]
    cases c.notNull <;> rfl
  rw [hmarkers, markersBehind_nil, merge_empty] at htake
  rwa [List.append_assoc]

/-- A line defines the column that it is meant to if and only if its default is taken whole. -/
theorem definesColumn_iff : DefinesColumn .mysql parseColumn? c.text c.column ↔ IsTakenWhole c.inner := by
  obtain ⟨value, rest, hread, hwhole⟩ := exists_readsBeginning c.inner
  obtain ⟨o, hfound, hclean, hbefore, hafter⟩ := c.exists_find? hread
  have htext : c.text = (ColumnName.quoted c.name).text ++
      ' ' :: (c.type.text ++ (c.plainOptions ++ attributesText c.comments)) := rfl
  have hparse := parseColumn?_written (.quoted c.name) c.type c.closed c.optionsAhead c.cut_comments
  simp only [hfound, Option.map_some, hclean] at hparse
  rw [hwhole]
  constructor
  · intro h
    have hsame := h.parses
    rw [c.trim_text, htext, hparse] at hsame
    have hvalue : some (String.ofList ('(' :: value)) = some (String.ofList c.expression) :=
      congrArg Column.defaultValue (Option.some.inj hsame)
    have hall : '(' :: value = '(' :: (value ++ rest) := by
      rw [← hread.text]
      exact String.ofList_injective (Option.some.inj hvalue)
    exact (List.append_right_eq_self.mp (List.cons.inj hall).2.symm)
  · rintro rfl
    refine ⟨by rw [c.trim_text]; exact opensConstraint_quoted c.name _, ?_⟩
    have hmarkers : markersBesideDefault c.plainOptions = { notNull := c.notNull } := by
      rw [markersBesideDefault, hfound]
      simp only [hbefore, hafter]
      exact c.take_marks
    have hexpression : '(' :: value = c.expression := by rw [expression, hread.text, List.append_nil]
    rw [c.trim_text, htext, hparse, hmarkers, hexpression]
    rfl

end ExpressionLine

end SchemaDump.MySQL
