import SchemaDump.Proofs.Definition.BodyContext
import SchemaDump.Proofs.MySQL.CommentedTable
/- A literal is exchanged for another one. The text around the line is any dump, comments in the bodies of
its tables included; all that changes is the default that the literal stands for, and nothing at all if the
literal is a comment. -/
namespace SchemaDump.MySQL
open SqlPattern Pattern

namespace AttributeLine

variable {c : AttributeLine}

/-- A line that a table holds as its column: no statement and no body ends in a text that may say anything. -/
def Fits (c : AttributeLine) : Prop := ∀ t ∈ c.opaqueTexts, Inert t

instance (c : AttributeLine) : Decidable c.Fits := inferInstanceAs (Decidable (∀ t ∈ c.opaqueTexts, Inert t))

theorem Fits.unbroken (h : c.Fits) : Unbroken c.text :=
  unbroken_attributeLine c fun t ht => (h t ht).noSemicolon

theorem text_ne_nil (c : AttributeLine) : c.text ≠ [] :=
  List.append_ne_nil_of_right_ne_nil _ (List.cons_ne_nil _ _)

/-- A column may be named like an engine, but no sign follows its name. -/
theorem rejects_engine (c : AttributeLine) : (keyword "ENGINE" ++ (gap ++ literal "=") : SqlPattern).Rejects c.text := by
  have hsign : ∀ d, isWordChar d → (gap ++ literal "=" : SqlPattern).starts d = false := fun d hd => by
    simp [append_eq_seq, gap, literal, starts, nullable, isBlank_eq_false_of_isWordChar hd,
      ne_of_isWordChar (d := '=') (by decide) hd]
  have hblank : ∀ d, isBlank d → (literal "=" : SqlPattern).starts d = false := fun d hd => by
    have hne : d ≠ '=' := by
      rintro rfl
      exact absurd hd (by decide)
    simpa [literal] using hne
  have hgap : (gap ++ literal "=" : SqlPattern).Rejects ([' '] ++ (c.type.text ++ attributesText c.attributes)) :=
    .gap (by decide) (stops_typeText c.type _) rfl hblank (.of_starts rfl
      (c.type.stops (fun d hd => by simp [literal, ne_of_isWordChar (d := '=') (by decide) hd]) _))
  rw [text]
  cases c.name with
  | quoted name =>
      exact Rejects.seq (.of_starts rfl (stops_cons.mpr (starts_keyword_eq_false (by decide) (by decide)))) _
  | bare word =>
      exact read?_keyword_seq_eq_none (by decide) (by decide) (endsWord_of_starts rfl hsign) word.chars
        (stops_cons.mpr (by decide)) (.inr hgap)

theorem Fits.isDefinition (h : c.Fits) : IsDefinition c.text where
  unbroken hmem := (h.unbroken _ hmem).2 rfl
  opens := by
    obtain ⟨d, rest, htext⟩ := List.exists_cons_of_ne_nil c.text_ne_nil
    have hopens : Stops (fun d => isBlank d || d == '-') c.text := c.name.stops (by decide) (fun d hd => by
      simp [isBlank_eq_false_of_isWordChar hd, ne_of_isWordChar (d := '-') (by decide) hd]) _
    rw [htext, stops_cons, Bool.or_eq_false_iff, beq_eq_false_iff_ne] at hopens
    exact ⟨d, rest, htext, hopens⟩
  noSemicolon hmem := (h.unbroken _ hmem).1 rfl
  noEnd := occursIn_eq_false_of_silent (consumes_of_not_nullable rfl)
    (silent_attributeLine c (fun t ht => (h t ht).noEnd) (stops_nil _) (stops_nil _))
  endsSolid := c.endsSolid_text
  starts := c.name.stops (by decide) (fun d hd => by simp [ne_of_isWordChar (d := '=') (by decide) hd]) _
  noEngine := at?_eq_none_iff.mpr (c.rejects_engine none)

theorem Readable.definesColumn (h : c.Readable) : DefinesColumn .mysql parseColumn? c.text c.column where
  opensNone := by rw [c.trim_text, opensConstraint_attributeLine]
  parses := by rw [c.trim_text, c.parseColumn?_text h]

end AttributeLine

namespace OptionLine

variable {c : OptionLine}

/-- A line that a table holds as its column: no statement and no body ends in its name or in a literal. -/
structure Fits (c : OptionLine) : Prop where
  name : Inert c.name.text
  contents : ∀ l ∈ c.contents, Inert l.text

theorem Fits.fits_line (h : c.Fits) : c.line.Fits := by
  intro t ht
  rcases c.mem_opaqueTexts_line.mp ht with rfl | ⟨l, hl, rfl⟩
  · exact h.name
  · exact h.contents l hl

theorem Fits.isDefinition (h : c.Fits) : IsDefinition c.text := c.text_line ▸ h.fits_line.isDefinition

theorem Readable.definesColumn (h : c.Readable) : DefinesColumn .mysql parseColumn? c.text c.column :=
  c.text_line ▸ c.column_line ▸ (c.readable_line h).definesColumn

end OptionLine

namespace FreeLine

variable (c : FreeLine)

theorem isDefinition (hc : ∀ l, c.Holds l → Inert l.text) : IsDefinition c.text := by
  have hname : Inert c.line.name.text := ⟨c.name.not_mem (by decide) (by decide), c.name.no_bodyEnd⟩
  have hfits : c.line.Fits := ⟨hname, fun l hl => hc l (c.mem_contents_line.mp hl)⟩
  exact c.text_line ▸ hfits.isDefinition

theorem definesColumn : DefinesColumn .mysql parseColumn? c.text c.column :=
  c.text_line ▸ c.column_line ▸ c.readable_line.definesColumn

end FreeLine

/-- What may stand between quotes where no statement and no body ends. -/
structure InertContent extends Content where
  inert : Inert text

/-- A column line up to the literal that is its default. -/
structure DefaultPlace where
  name : Name
  type : ColumnType
  notNull : Bool
  autoIncrement : Bool
  comment : Option InertContent

/-- A literal for the place. In front of a comment it does not end with the opening of one. -/
structure DefaultPlace.Filling (c : DefaultPlace) extends InertContent where
  settled : c.comment ≠ none → (commentOpening ++ textEnd).occursIn text = false

namespace DefaultPlace

variable (c : DefaultPlace)

def line (l : c.Filling) : FreeLine where
  name := c.name
  type := c.type
  notNull := c.notNull
  autoIncrement := c.autoIncrement
  default := some (.literal l.toContent)
  comment := c.comment.map (·.toContent)
  settled hcomment content hcontent := by
    obtain rfl := FreeDefault.literal.inj (Option.some.inj hcontent)
    exact l.settled (mt Option.map_eq_none_iff.mpr hcomment)

theorem isDefinition (l : c.Filling) : IsDefinition (c.line l).text := by
  refine (c.line l).isDefinition fun content hcontent => ?_
  rcases hcontent with h | h
  · obtain rfl := FreeDefault.literal.inj (Option.some.inj h)
    exact l.inert
  · obtain ⟨comment, -, rfl⟩ := Option.map_eq_some_iff.mp h
    exact comment.inert

end DefaultPlace

/-- A column line up to the literal that is its comment. -/
structure CommentPlace where
  name : Name
  type : ColumnType
  notNull : Bool
  autoIncrement : Bool
  default : Option FreeDefault
  inert : ∀ l, default = some (.literal l) → Inert l.text
  settled : ∀ l, default = some (.literal l) → (commentOpening ++ textEnd).occursIn l.text = false

namespace CommentPlace

variable (c : CommentPlace)

def line (l : InertContent) : FreeLine where
  name := c.name
  type := c.type
  notNull := c.notNull
  autoIncrement := c.autoIncrement
  default := c.default
  comment := some l.toContent
  settled _ := c.settled

theorem isDefinition (l : InertContent) : IsDefinition (c.line l).text := by
  refine (c.line l).isDefinition fun content hcontent => ?_
  rcases hcontent with h | h
  · exact c.inert content h
  · obtain rfl := Option.some.inj h
    exact l.inert

end CommentPlace

/-- What stands in a table around one of its definitions. -/
structure TableContext where
  temporary : Bool
  ifNotExists : Bool
  name : Name
  body : BodyContext
  definitions : ∀ d ∈ body.definitionsAbove ++ body.definitionsBelow, IsDefinition d
  comments : ∀ c ∈ body.allComments, Inert c.text
  options : Text
  optionsPlain : hasSpelling "CREATE" options = false

namespace TableContext

variable (t : TableContext) {line : Text} (h : IsDefinition line)

def fill : CommentedTable where
  temporary := t.temporary
  ifNotExists := t.ifNotExists
  name := t.name
  body := t.body.fill line
  definitions := fun d hd => (t.body.mem_definitions_fill hd).elim (fun heq => heq ▸ h) (t.definitions d)
  comments := fun c hc => t.comments c (t.body.allComments_fill line ▸ hc)
  options := t.options
  optionsPlain := t.optionsPlain

/-- The position of the column that is defined in the place. -/
def column : Nat := (definedColumns .mysql parseColumn? t.body.definitionsAbove).length

theorem tableOf_fill : tableOf (t.fill h).parts = definedTable .mysql parseColumn?
    (Dialect.mysql.normalizeName t.name.quoted)
    (t.body.definitionsAbove ++ line :: t.body.definitionsBelow) := by
  rw [CommentedTable.tableOf_parts, ← t.body.definitions_fill]
  rfl

/-- The table with one default is the one with another default up to its value. -/
theorem tableOf_withDefault (c : DefaultPlace) (l m : c.Filling) :
    tableOf (t.fill (c.isDefinition m)).parts =
      (tableOf (t.fill (c.isDefinition l)).parts).withDefault t.column (.ofList m.text) := by
  rw [tableOf_fill, tableOf_fill]
  exact definedTable_withDefault (c.line l).definesColumn (c.line m).definesColumn

theorem tableOf_withComment (c : CommentPlace) (l m : InertContent) :
    tableOf (t.fill (c.isDefinition m)).parts = tableOf (t.fill (c.isDefinition l)).parts := by
  rw [tableOf_fill, tableOf_fill]
  exact definedTable_congr (c.line l).definesColumn (c.line m).definesColumn

end TableContext

def definedTables (statements : List (Filler × CommentedTable)) : List Table :=
  statements.map fun s => tableOf s.2.parts

theorem CommentedDump.parse_text (d : CommentedDump) : parse d.text = ⟨definedTables d.statements⟩ := by
  have hparse : ∀ sql, parse sql = ⟨(parse sql).tables⟩ := fun _ => rfl
  rw [hparse, tables_text, definedTables]

/-- What stands in a dump around one definition in one of its tables. -/
structure DumpContext where
  front : List (Filler × CommentedTable)
  filler : Filler
  table : TableContext
  back : List (Filler × CommentedTable)
  trailer : Filler

namespace DumpContext

variable (d : DumpContext) {line : Text} (h : IsDefinition line)

def fill : CommentedDump where
  statements := d.front ++ (d.filler, d.table.fill h) :: d.back
  trailer := d.trailer

def position : Nat := (definedTables d.front).length

theorem parse_fill : parse (d.fill h).text =
    ⟨definedTables d.front ++ tableOf (d.table.fill h).parts :: definedTables d.back⟩ := by
  rw [CommentedDump.parse_text, definedTables, fill, List.map_append]
  rfl

theorem parse_withDefault (c : DefaultPlace) (l m : c.Filling) :
    parse (d.fill (c.isDefinition m)).text =
      (parse (d.fill (c.isDefinition l)).text).withDefault d.position d.table.column (.ofList m.text) := by
  rw [parse_fill, parse_fill, d.table.tableOf_withDefault c l m, Schema.withDefault, position,
    modify_length_append]

theorem parse_withComment (c : CommentPlace) (l m : InertContent) :
    parse (d.fill (c.isDefinition m)).text = parse (d.fill (c.isDefinition l)).text := by
  rw [parse_fill, parse_fill, d.table.tableOf_withComment c l m]

end DumpContext

/-- What stands in a dump around a literal in the options of one of its tables. -/
structure OptionContext where
  front : List (Filler × CommentedTable)
  filler : Filler
  table : CommentedTable
  optionsAbove : Text
  optionsBelow : Text
  back : List (Filler × CommentedTable)
  trailer : Filler

/-- A literal for the place. With it the options still open no statement. -/
structure OptionContext.Filling (d : OptionContext) extends Content where
  plain : hasSpelling "CREATE" (d.optionsAbove ++ (toContent.quoted ++ d.optionsBelow)) = false

namespace OptionContext

variable (d : OptionContext)

def tableWith (l : d.Filling) : CommentedTable :=
  { d.table with
    options := d.optionsAbove ++ (l.quoted ++ d.optionsBelow)
    optionsPlain := l.plain }

def fill (l : d.Filling) : CommentedDump where
  statements := d.front ++ (d.filler, d.tableWith l) :: d.back
  trailer := d.trailer

theorem parse_withOption (l m : d.Filling) : parse (d.fill m).text = parse (d.fill l).text := by
  have hparts : (d.tableWith m).parts = (d.tableWith l).parts := rfl
  rw [CommentedDump.parse_text, CommentedDump.parse_text, fill, fill, definedTables, definedTables]
  simp only [List.map_append, List.map_cons, hparts]

end OptionContext

end SchemaDump.MySQL
