import SchemaDump.Dump.MySQL
import SchemaDump.Proofs.Definition.KeyDefinition
import SchemaDump.Proofs.Schema.Draft
/- Dumps as MySQL writes them: what a dump declares, its text and the schema it stands for. The
types admit what a dump can hold and nothing else. -/
namespace SchemaDump.MySQL

/-- A name, which is always written in back quotes. -/
structure Name where
  text : Text
  nonempty : text ≠ []
  chars : ∀ c ∈ text, isWordChar c ∨ c = ' '
  trimmed : Trimmed text

namespace Name

def quoted (n : Name) : Text := backQuote :: (n.text ++ [backQuote])

def string (n : Name) : String := .ofList n.text

theorem not_mem (n : Name) {c : Char} (hc : isWordChar c = false) (hblank : c ≠ ' ') :
    c ∉ n.text := by
  intro h
  rcases n.chars c h with h | h
  · rw [hc] at h
    cases h
  · exact hblank h

theorem not_mem_quoted (n : Name) {c : Char} (hc : isWordChar c = false) (hblank : c ≠ ' ')
    (hquote : c ≠ backQuote) : c ∉ n.quoted := by
  rw [Name.quoted, List.mem_cons, List.mem_append, List.mem_singleton]
  rintro (h | h | h)
  · exact hquote h
  · exact n.not_mem hc hblank h
  · exact hquote h

theorem filter_eq (n : Name) : n.text.filter (fun c => c != '"' && c != backQuote) = n.text := by
  rw [List.filter_eq_self]
  intro c hc
  have hdouble : c ≠ '"' := fun h => n.not_mem (by decide) (by decide) (h ▸ hc)
  have hback : c ≠ backQuote := fun h => n.not_mem (by decide) (by decide) (h ▸ hc)
  simp [hdouble, hback]

theorem unquote_eq (n : Name) : unquote n.text = n.text := by
  rw [unquote, n.trimmed.trim_eq, n.filter_eq]

theorem trimmed_quoted (n : Name) : Trimmed n.quoted := by
  have hquote : EndsSolid [backQuote] := by decide
  exact (hquote.behind (by decide) (backQuote :: n.text)).trimmed
    fun c hc => Option.some.inj hc ▸ by decide

theorem unquote_quoted (n : Name) : unquote n.quoted = n.text := by
  rw [unquote, n.trimmed_quoted.trim_eq, Name.quoted]
  simp [List.filter_append, n.filter_eq]

end Name

inductive Modifier
  | unsigned
  | signed
  | zerofill

def Modifier.word : Modifier → String
  | unsigned => "unsigned"
  | signed => "signed"
  | zerofill => "zerofill"

/-- A type: a word, its arguments in parentheses, and modifiers. -/
structure ColumnType where
  word : Text
  wordNonempty : word ≠ []
  wordChars : ∀ c ∈ word, isWordChar c
  arguments : Option Text
  argumentChars : ∀ a ∈ arguments, ∀ c ∈ a, c ≠ ')' ∧ c ≠ ';' ∧ c ≠ '\n'
  modifiers : List Modifier

namespace ColumnType

def argumentText (t : ColumnType) : Text :=
  match t.arguments with
  | some a => '(' :: (a ++ [')'])
  | none => []

def modifierText (modifiers : List Modifier) : Text :=
  modifiers.flatMap fun m => ' ' :: m.word.toList

def text (t : ColumnType) : Text := t.word ++ (t.argumentText ++ modifierText t.modifiers)

end ColumnType

/-- The content of a quoted literal. -/
structure Literal where
  text : Text
  chars : ∀ c ∈ text, c ≠ '\'' ∧ c ≠ '\\' ∧ c ≠ ';' ∧ c ≠ '\n'
  noComment : hasWord "COMMENT" text = false
  noEngine : hasWord "ENGINE" text = false

def Literal.quoted (l : Literal) : Text := '\'' :: (l.text ++ ['\''])

/-- A default: a quoted literal, or a number or `NULL` as it stands. -/
inductive Default
  | literal (content : Literal)
  | bare (token : Text) (nonempty : token ≠ [])
      (chars : ∀ c ∈ token, isWordChar c ∨ c = '.' ∨ c = '+' ∨ c = '-')

namespace Default

def text : Default → Text
  | literal content => content.quoted
  | bare token _ _ => token

def value : Default → Text
  | literal content => content.text
  | bare token _ _ => token

end Default

structure ColumnLine where
  name : Name
  type : ColumnType
  notNull : Bool
  autoIncrement : Bool
  default : Option Default
  comment : Option Literal

namespace ColumnLine

/-- What is marked on a column in front of its default. -/
def markText (notNull autoIncrement : Bool) : Text :=
  (if notNull then " NOT NULL".toList else []) ++
    if autoIncrement then " AUTO_INCREMENT".toList else []

def defaultText : Option Default → Text
  | some d => ' ' :: ("DEFAULT".toList ++ ' ' :: d.text)
  | none => []

def commentText : Option Literal → Text
  | some l => ' ' :: ("COMMENT".toList ++ ' ' :: l.quoted)
  | none => []

def optionText (c : ColumnLine) : Text :=
  markText c.notNull c.autoIncrement ++ (defaultText c.default ++ commentText c.comment)

def text (c : ColumnLine) : Text := c.name.quoted ++ ' ' :: (c.type.text ++ c.optionText)

end ColumnLine

/-- A column in a primary key, with the length of the prefix that is indexed. -/
structure IndexedName where
  name : Name
  length : Option Text
  lengthDigits : ∀ l ∈ length, ∀ c ∈ l, c.isDigit

def IndexedName.text (i : IndexedName) : Text :=
  i.name.quoted ++ match i.length with
    | some l => '(' :: (l ++ [')'])
    | none => []

/-- What opens a definition that is neither a column nor a key of the schema. -/
inductive InertOpening
  | key
  | uniqueKey
  | fulltextKey
  | spatialKey
  | check

def InertOpening.words : InertOpening → List String
  | key => ["KEY"]
  | uniqueKey => ["UNIQUE", "KEY"]
  | fulltextKey => ["FULLTEXT", "KEY"]
  | spatialKey => ["SPATIAL", "KEY"]
  | check => ["CHECK"]

inductive Trigger
  | onDelete
  | onUpdate

def Trigger.words : Trigger → List String
  | onDelete => ["ON", "DELETE"]
  | onUpdate => ["ON", "UPDATE"]

inductive Effect
  | cascade
  | restrict
  | noAction
  | setNull
  | setDefault

def Effect.words : Effect → List String
  | cascade => ["CASCADE"]
  | restrict => ["RESTRICT"]
  | noAction => ["NO", "ACTION"]
  | setNull => ["SET", "NULL"]
  | setDefault => ["SET", "DEFAULT"]

/-- A foreign key: its columns with the columns they refer to, in this order. -/
structure ForeignKeyLine where
  constraint : Option Name
  table : Name
  pairs : List (Name × Name)
  nonempty : pairs ≠ []
  actions : List (Trigger × Effect)
  spaced : Bool

namespace ForeignKeyLine

def actionText (actions : List (Trigger × Effect)) : Text :=
  actions.flatMap fun a => ' ' :: (spacedWords a.1.words ++ ' ' :: spacedWords a.2.words)

def columnText (k : ForeignKeyLine) : Text := commaJoin k.spaced (k.pairs.map (·.1.quoted))

def referenceText (k : ForeignKeyLine) : Text := commaJoin k.spaced (k.pairs.map (·.2.quoted))

def text (k : ForeignKeyLine) : Text :=
  foreignKeyText (k.constraint.map (·.quoted)) k.columnText k.table.quoted [' '] k.referenceText ++
    actionText k.actions

end ForeignKeyLine

/-- A line behind the columns of a table. -/
inductive KeyLine
  | primaryKey (spaced : Bool) (columns : List IndexedName) (nonempty : columns ≠ [])
  | foreignKey (key : ForeignKeyLine)
  | inert (opening : InertOpening) (rest : Text)
      (chars : ∀ c ∈ rest, c ≠ ';' ∧ c ≠ '\n' ∧ c ≠ '\r') (noEngine : hasWord "ENGINE" rest = false)

namespace KeyLine

def text : KeyLine → Text
  | primaryKey spaced columns _ => primaryKeyText none (commaJoin spaced (columns.map (·.text)))
  | foreignKey key => key.text
  | inert opening rest _ _ => spacedWords opening.words ++ ' ' :: rest

/-- The columns that a line puts into the primary key. -/
def primaryColumns : KeyLine → List String
  | primaryKey _ columns _ => columns.map (·.name.string)
  | foreignKey _ | inert _ _ _ _ => []

/-- The foreign keys that a line gives to single columns. -/
def foreignKeys : KeyLine → List ForeignKey
  | foreignKey key => key.pairs.map fun p => ⟨p.1.string, key.table.string, p.2.string⟩
  | primaryKey _ _ _ | inert _ _ _ _ => []

end KeyLine

/-- Blanks that set lines apart. -/
structure Indent where
  text : Text
  blank : ∀ c ∈ text, isBlank c

theorem Indent.not_mem (i : Indent) {c : Char} (hc : isBlank c = false) : c ∉ i.text := by
  intro hmem
  rw [i.blank c hmem] at hc
  cases hc

/-- A statement that creates a table, from `CREATE` to its semicolon. -/
structure TableStatement where
  temporary : Bool
  ifNotExists : Bool
  name : Name
  columns : List ColumnLine
  nonempty : columns ≠ []
  distinct : (columns.map (·.name.string)).Nodup
  keys : List KeyLine
  first : Indent
  indent : Indent
  options : Text
  optionsPlain : hasSpelling "CREATE" options = false

namespace TableStatement

def lines (t : TableStatement) : List Text := t.columns.map (·.text) ++ t.keys.map (·.text)

/-- Lines of a body, each but the last with a comma and a line break behind it. -/
def joinLines (indent : Text) : List Text → Text
  | [] => []
  | [line] => line
  | line :: lines => line ++ ',' :: '\n' :: (indent ++ joinLines indent lines)

def body (t : TableStatement) : Text :=
  t.first.text ++ (joinLines t.indent.text t.lines ++ ['\n'])

def temporaryText (temporary : Bool) : Text := if temporary then "TEMPORARY".toList ++ [' '] else []

def existsText (ifNotExists : Bool) : Text :=
  if ifNotExists then spacedWords ["IF", "NOT", "EXISTS"] ++ [' '] else []

def opening (t : TableStatement) : Text :=
  "CREATE".toList ++ ([' '] ++ (temporaryText t.temporary ++ ("TABLE".toList ++ ([' '] ++
    existsText t.ifNotExists))))

theorem opening_eq (t : TableStatement) : t.opening = "CREATE".toList ++ ([' '] ++
    (temporaryText t.temporary ++ ("TABLE".toList ++ ([' '] ++ existsText t.ifNotExists)))) := rfl

def header (t : TableStatement) : Text := t.opening ++ (t.name.quoted ++ " (".toList)

def text (t : TableStatement) : Text :=
  t.header ++ (t.body ++ (") ENGINE=".toList ++ ("InnoDB".toList ++ (t.options ++ [';']))))

/-- The table that the statement creates. -/
def table (t : TableStatement) : Table where
  name := t.name.string
  columns := t.columns.map fun c => {
    name := c.name.string
    declaredType := .ofList c.type.text
    isPrimaryKey := (t.keys.flatMap (·.primaryColumns)).contains c.name.string
    isNullable := !c.notNull
    defaultValue := c.default.map fun d => .ofList d.value
    foreignKey := lastForeignKey (t.keys.flatMap (·.foreignKeys)) c.name.string }

end TableStatement

/-- Text between statements. -/
structure Filler where
  text : Text
  plain : hasSpelling "CREATE" text = false
  detached : ∀ c ∈ text.getLast?, isWordChar c = false

/-- A dump: statements with a text in front of each, and a text behind the last. -/
structure Dump where
  statements : List (Filler × TableStatement)
  trailer : Filler

namespace Dump

def text (d : Dump) : Text :=
  d.statements.flatMap (fun s => s.1.text ++ s.2.text) ++ d.trailer.text

def schema (d : Dump) : Schema := ⟨d.statements.map (·.2.table)⟩

end Dump

end SchemaDump.MySQL
