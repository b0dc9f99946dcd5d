import SchemaDump.Proofs.MySQL.FreeLine
/- Column lines with options in any order, each kind of them at most once. A literal, be it an argument of the
type, the default or the comment, may hold any text that neither a quote nor a backslash ends. -/
namespace SchemaDump.MySQL
open SqlPattern Pattern

/-- Any name on one line. -/
structure QuotedName where
  text : Text
  nonempty : text ≠ []
  chars : ∀ c ∈ text, c ≠ backQuote ∧ c ≠ '\n'

def QuotedName.quoted (n : QuotedName) : Text := backQuote :: (n.text ++ [backQuote])

/-- The arguments of a type: numbers and the like, or literals. -/
inductive Arguments
  | plain (text : Text) (chars : ∀ c ∈ text, c ≠ ')' ∧ c ≠ ';' ∧ c ≠ '\n')
  | literals (spaced : Bool) (first : Content) (more : List Content)

namespace Arguments

def text : Arguments → Text
  | plain text _ => text
  | literals spaced first more => commaJoin spaced ((first :: more).map (·.quoted))

def contents : Arguments → List Content
  | plain _ _ => []
  | literals _ first more => first :: more

end Arguments

/-- A type whose arguments may be literals. -/
structure DataType where
  word : Text
  wordNonempty : word ≠ []
  wordChars : ∀ c ∈ word, isWordChar c
  arguments : Option Arguments
  modifiers : List Modifier

namespace DataType

variable (t : DataType)

def argumentText : Text :=
  match t.arguments with
  | some a => '(' :: (a.text ++ [')'])
  | none => []

def text : Text := t.word ++ (t.argumentText ++ ColumnType.modifierText t.modifiers)

def contents : List Content := t.arguments.toList.flatMap (·.contents)

variable {t}

theorem mem_contents {a : Arguments} {l : Content} (ha : t.arguments = some a) (hl : l ∈ a.contents) :
    l ∈ t.contents :=
  List.mem_flatMap.mpr ⟨a, Option.mem_toList.mpr ha, hl⟩

end DataType

inductive ColumnOption
  | notNull
  | primaryKey
  | autoIncrement
  | default (value : FreeDefault)
  | comment (content : Content)

inductive OptionKind
  | notNull
  | primaryKey
  | autoIncrement
  | default
  | comment
  deriving DecidableEq

namespace ColumnOption

def kind : ColumnOption → OptionKind
  | notNull => .notNull
  | primaryKey => .primaryKey
  | autoIncrement => .autoIncrement
  | default _ => .default
  | comment _ => .comment

def text : ColumnOption → Text
  | notNull => ' ' :: spacedWords ["NOT", "NULL"]
  | primaryKey => ' ' :: spacedWords ["PRIMARY", "KEY"]
  | autoIncrement => ' ' :: "AUTO_INCREMENT".toList
  | default d => ' ' :: ("DEFAULT".toList ++ ' ' :: d.text)
  | comment l => ' ' :: ("COMMENT".toList ++ ' ' :: l.quoted)

def default? : ColumnOption → Option FreeDefault
  | default d => some d
  | _ => none

def contents : ColumnOption → List Content
  | default (.literal l) => [l]
  | comment l => [l]
  | _ => []

/-- A default in front of a comment does not end with the opening of one. -/
def allows : ColumnOption → ColumnOption → Bool
  | default (.literal l), comment _ => !(commentOpening ++ textEnd).occursIn l.text
  | _, _ => true

end ColumnOption

def optionsText (options : List ColumnOption) : Text := options.flatMap (·.text)

structure OptionLine where
  name : QuotedName
  type : DataType
  options : List ColumnOption
  distinct : (options.map (·.kind)).Nodup

namespace OptionLine

variable (c : OptionLine)

def text : Text := c.name.quoted ++ ' ' :: (c.type.text ++ optionsText c.options)

def contents : List Content := c.type.contents ++ c.options.flatMap (·.contents)

/-- The column that a line defines, as long as no key of the table takes it. -/
def column : Column where
  name := .ofList (unquote c.name.text)
  declaredType := .ofList c.type.text
  isPrimaryKey := (c.options.map (·.kind)).contains .primaryKey
  isNullable := !(c.options.map (·.kind)).contains .notNull
  defaultValue := (c.options.findSome? (·.default?)).map fun d => .ofList d.value

/-- A line whose literals are read as such: none among the arguments holds the parenthesis that would end them,
and no default takes the opening of a comment with it. -/
structure Readable : Prop where
  closed : ∀ l ∈ c.type.contents, ')' ∉ l.text
  settled : c.options.Pairwise fun option next => option.allows next

end OptionLine

/-- Arguments that are no literals. -/
def ColumnType.dataType (t : ColumnType) : DataType where
  word := t.word
  wordNonempty := t.wordNonempty
  wordChars := t.wordChars
  arguments := t.arguments.pmap .plain t.argumentChars
  modifiers := t.modifiers

theorem ColumnType.text_dataType (t : ColumnType) : t.dataType.text = t.text := by
  obtain ⟨word, hne, hword, arguments, harguments, modifiers⟩ := t
  cases arguments <;> rfl

theorem ColumnType.contents_dataType (t : ColumnType) : t.dataType.contents = [] := by
  obtain ⟨word, hne, hword, arguments, harguments, modifiers⟩ := t
  cases arguments <;> rfl

def Name.any (n : Name) : QuotedName where
  text := n.text
  nonempty := n.nonempty
  chars d hd := ⟨fun h => n.not_mem (by decide) (by decide) (h ▸ hd), fun h => n.not_mem (by decide) (by decide) (h ▸ hd)⟩

namespace FreeLine

variable (c : FreeLine)

def markOptions (notNull autoIncrement : Bool) : List ColumnOption :=
  (if notNull then [.notNull] else []) ++ if autoIncrement then [.autoIncrement] else []

def options : List ColumnOption :=
  markOptions c.notNull c.autoIncrement ++ (c.default.toList.map .default ++ c.comment.toList.map .comment)

theorem kinds_options : c.options.map (·.kind) = (markOptions c.notNull c.autoIncrement).map (·.kind) ++
    (c.default.toList.map (fun _ => .default) ++ c.comment.toList.map fun _ => .comment) := by
  simp only [options, List.map_append, List.map_map, Function.comp_def, ColumnOption.kind]

/-- The line as one with options in any order. -/
def line : OptionLine where
  name := c.name.any
  type := c.type.dataType
  options := c.options
  distinct := by
    rw [kinds_options]
    cases c.notNull <;> cases c.autoIncrement <;> cases c.default <;> cases c.comment <;>
      simp [markOptions, ColumnOption.kind]

theorem optionsText_options : optionsText c.options = c.optionText := by
  have hmarks : optionsText (markOptions c.notNull c.autoIncrement) =
      ColumnLine.markText c.notNull c.autoIncrement := by
    cases c.notNull <;> cases c.autoIncrement <;> rfl
  have hdefault : optionsText (c.default.toList.map .default) = defaultText c.default := by
    cases c.default <;> simp [optionsText, ColumnOption.text, defaultText]
  have hcomment : optionsText (c.comment.toList.map .comment) = commentText c.comment := by
    cases c.comment <;> simp [optionsText, ColumnOption.text, commentText]
  rw [optionText, ← hmarks, ← hdefault, ← hcomment]
  simp only [options, optionsText, List.flatMap_append]

theorem text_line : c.line.text = c.text := by
  rw [OptionLine.text, line, ColumnType.text_dataType, optionsText_options]
  rfl

theorem mem_contents_line {l : Content} : l ∈ c.line.contents ↔ c.Holds l := by
  have hmarks : (markOptions c.notNull c.autoIncrement).flatMap (·.contents) = [] := by
    cases c.notNull <;> cases c.autoIncrement <;> rfl
  have hcontents : c.line.contents = c.options.flatMap (·.contents) := by
    rw [OptionLine.contents, line, ColumnType.contents_dataType, List.nil_append]
  rw [hcontents, options, List.flatMap_append, hmarks, Holds]
  cases hd : c.default with
  | none => simp [ColumnOption.contents, List.flatMap_map, Option.mem_toList]
  | some d => cases d <;> simp [ColumnOption.contents, List.flatMap_map, eq_comm]

theorem column_line : c.line.column = c.column := by
  have hname : unquote c.line.name.text = c.name.text := c.name.unquote_eq
  have hoptions : c.line.options = c.options := rfl
  have hdefault : c.options.findSome? (·.default?) = c.default := by
    have hmarks : (markOptions c.notNull c.autoIncrement).findSome? (·.default?) = none := by
      cases c.notNull <;> cases c.autoIncrement <;> rfl
    rw [options, List.findSome?_append, hmarks, Option.none_or]
    cases c.default <;> cases c.comment <;> rfl
  have hkinds : (c.options.map (·.kind)).contains .primaryKey = false ∧
      (c.options.map (·.kind)).contains .notNull = c.notNull := by
    rw [kinds_options]
    cases c.notNull <;> cases c.autoIncrement <;> cases c.default <;> cases c.comment <;> exact ⟨rfl, rfl⟩
  rw [OptionLine.column, hname, hoptions, hdefault, hkinds.1, hkinds.2, line, ColumnType.text_dataType]
  rfl

theorem readable_line : c.line.Readable where
  closed l hl := by
    rw [line, ColumnType.contents_dataType] at hl
    cases hl
  settled := by
    have hmarks : ∀ a ∈ markOptions c.notNull c.autoIncrement, ∀ b, a.allows b := by
      cases c.notNull <;> cases c.autoIncrement <;> simp [markOptions, ColumnOption.allows]
    have hsingle : ∀ {α : Type} (f : α → ColumnOption) (a : Option α),
        (a.toList.map f).Pairwise fun option next => option.allows next := by
      intro α f a
      cases a <;> simp
    refine List.pairwise_append.mpr ⟨?_, List.pairwise_append.mpr ⟨hsingle _ _, hsingle _ _, ?_⟩,
      fun a ha b _ => hmarks a ha b⟩
    · exact List.Pairwise.imp_of_mem (fun ha _ _ => hmarks _ ha _) (List.pairwise_of_forall fun _ _ => trivial)
    · rintro a ha b hb
      obtain ⟨d, hd, rfl⟩ := List.mem_map.mp ha
      obtain ⟨l, hl, rfl⟩ := List.mem_map.mp hb
      rw [Option.mem_toList] at hd hl
      cases d with
      | bare => rfl
      | literal content =>
          have hnone := c.settled (by rw [hl]; exact Option.some_ne_none l) content hd
          rw [ColumnOption.allows, hnone]
          rfl

end FreeLine

end SchemaDump.MySQL
