import SchemaDump.Dump.PostgreSQL
import SchemaDump.Proofs.Definition.KeyDefinition
import SchemaDump.Proofs.Schema.Draft
/- Dumps as PostgreSQL writes them: what a dump declares, its text and the schema it stands for. The
types admit what a dump can hold and nothing else. -/
namespace SchemaDump.PostgreSQL
open SqlPattern Pattern

/-- A word, which may stand without quotes. -/
structure Word where
  text : Text
  nonempty : text ≠ []
  chars : ∀ c ∈ text, isWordChar c

/-- Whether a word is one of some keywords, in any letter case. -/
def Word.isOneOf (w : Word) (keywords : List String) : Bool :=
  keywords.any fun keyword => spells sameLetter keyword.toList w.text

theorem Word.stops (w : Word) {accepts : Char → Bool} (h : ∀ c, isWordChar c → accepts c = false)
    (v : Text) : Stops accepts (w.text ++ v) := by
  obtain ⟨c, rest, hw⟩ := List.exists_cons_of_ne_nil w.nonempty
  rw [hw]
  exact stops_cons.mpr (h c (w.chars c (by rw [hw]; exact List.mem_cons_self)))

/-- A name as it stands in a dump. -/
inductive Name
  | bare (word : Word)
  | quoted (text : Text) (nonempty : text ≠ []) (chars : ∀ c ∈ text, isWordChar c ∨ c = ' ')
      (trimmed : Trimmed text)

namespace Name

def content : Name → Text
  | bare word => word.text
  | quoted text _ _ _ => text

def text : Name → Text
  | bare word => word.text
  | quoted text _ _ _ => '"' :: (text ++ ['"'])

def string (n : Name) : String := .ofList n.content

/-- Whether a name stands without quotes and is one of some keywords. -/
def isOneOf (n : Name) (keywords : List String) : Bool :=
  match n with
  | bare word => word.isOneOf keywords
  | quoted _ _ _ _ => false

end Name

/-- A table as a statement names it, with or without the schema that it is in. -/
structure Target where
  qualified : Bool
  name : Name

def Target.text (t : Target) : Text :=
  (if t.qualified then "public".toList ++ ['.'] else []) ++ t.name.text

def reservedWords : List String :=
  ["DEFAULT", "NOT", "NULL", "PRIMARY", "REFERENCES", "CONSTRAINT", "CHECK", "TABLE"]

structure TypeWord extends Word where
  plain : toWord.isOneOf reservedWords = false

structure Digits where
  text : Text
  nonempty : text ≠ []
  chars : ∀ c ∈ text, c.isDigit

/-- What may stand behind a word of a type: one or two numbers, and dimensions of an array. -/
structure Extent where
  numbers : Option (Digits × Option Digits)
  dimensions : Nat

namespace Extent

def numberText : Option (Digits × Option Digits) → Text
  | .none => []
  | some (length, .none) => '(' :: (length.text ++ [')'])
  | some (precision, some scale) => '(' :: (precision.text ++ ',' :: (scale.text ++ [')']))

def dimensionText : Nat → Text
  | 0 => []
  | n + 1 => '[' :: ']' :: dimensionText n

def text (e : Extent) : Text := numberText e.numbers ++ dimensionText e.dimensions

def none : Extent := ⟨.none, 0⟩

end Extent

/-- A type: words with a blank between them. -/
structure ColumnType where
  first : TypeWord × Extent
  more : List (TypeWord × Extent)

namespace ColumnType

def wordText (w : TypeWord × Extent) : Text := w.1.text ++ w.2.text

def text (t : ColumnType) : Text := wordText t.first ++ t.more.flatMap fun w => ' ' :: wordText w

end ColumnType

/-- The opening of a list of parent tables behind a closing parenthesis. -/
def parentsOpening : SqlPattern := literal ")" ++ (gap ++ (keyword "INHERITS" ++ gap))

/-- A list of parent tables that is not closed. -/
def openParents : SqlPattern :=
  parentsOpening ++ (literal "(" ++ (run (· != ')') .longest ++ textEnd))

/-- The words that open a statement which alters a table. -/
def alterOpening : SqlPattern := keyword "ALTER" ++ (blanks ++ (keyword "TABLE" ++ blanks))

/-- The words that may stand between `CREATE` and `TABLE`. -/
def tableKind : SqlPattern :=
  anyOf [keyword "UNLOGGED", keyword "TEMPORARY", keyword "TEMP"] ++ blanks

/-- The words that open a statement which creates a table. -/
def createOpening : SqlPattern :=
  keyword "CREATE" ++ (blanks ++ (maybe tableKind ++ (keyword "TABLE" ++ blanks)))

/-- The content of a quoted literal. -/
structure Literal where
  text : Text
  chars : ∀ c ∈ text, c ≠ '\'' ∧ c ≠ ';' ∧ c ≠ '\n'
  noAlteration : alterOpening.occursIn text = false
  noParents : openParents.occursIn text = false

def Literal.quoted (l : Literal) : Text := '\'' :: (l.text ++ ['\''])

/-- A cast to a type, in which only the last word may have something behind it. -/
structure Cast where
  first : TypeWord
  more : List TypeWord
  extent : Extent

namespace Cast

def words (c : Cast) : ColumnType := ⟨(c.first, .none), c.more.map (·, .none)⟩

def text (c : Cast) : Text := ':' :: ':' :: (c.words.text ++ c.extent.text)

end Cast

/-- A default: a quoted literal with casts behind it. -/
structure Default where
  literal : Literal
  casts : List Cast

def Default.text (d : Default) : Text := d.literal.quoted ++ d.casts.flatMap (·.text)

/-- What may be marked on a column behind its type. -/
inductive Mark
  | notNull
  | primaryKey
  | references (qualified : Bool) (table column : Word)

inductive MarkKind
  | notNull
  | primaryKey
  | reference
  deriving DecidableEq

namespace Mark

def kind : Mark → MarkKind
  | notNull => .notNull
  | primaryKey => .primaryKey
  | references _ _ _ => .reference

def text : Mark → Text
  | notNull => ' ' :: spacedWords ["NOT", "NULL"]
  | primaryKey => ' ' :: spacedWords ["PRIMARY", "KEY"]
  | references qualified table column =>
      ' ' :: ("REFERENCES".toList ++ ' ' :: ((Target.mk qualified (.bare table)).text ++
        '(' :: (column.text ++ [')'])))

/-- The constraint on a column that a mark stands for. -/
def constraint? (column : String) : Mark → Option Constraint
  | notNull => none
  | primaryKey => some (.primaryKey [column])
  | references _ table target =>
      some (.foreignKey ⟨[column], .ofList table.text, [.ofList target.text]⟩)

end Mark

/-- The words that open a constraint, none of which is the name of a column without quotes. -/
def columnExclusions : List String := constraintWords ++ ["EXCLUDE"]

/-- A line that defines a column: its name and type, marks in any order, a default, and `NOT NULL`
at its end. -/
structure ColumnLine where
  name : Name
  nameFree : name.isOneOf columnExclusions = false
  type : ColumnType
  marks : List Mark
  distinct : (marks.map (·.kind)).Nodup
  default : Option Default
  notNull : Bool
  settled : default = none → notNull = false → marks.getLast? ≠ some .notNull

namespace ColumnLine

def markText (marks : List Mark) : Text := marks.flatMap (·.text)

def defaultText : Option Default → Text
  | some d => ' ' :: ("DEFAULT".toList ++ ' ' :: d.text)
  | none => []

def notNullText (notNull : Bool) : Text :=
  if notNull then ' ' :: spacedWords ["NOT", "NULL"] else []

def text (c : ColumnLine) : Text :=
  c.name.text ++ ' ' :: ((c.type.text ++ markText c.marks) ++
    (defaultText c.default ++ notNullText c.notNull))

/-- The column that a line defines, as long as no key takes it. -/
def definition (c : ColumnLine) : Column where
  name := c.name.string
  declaredType := .ofList c.type.text
  isNullable := !(c.notNull || (c.marks.map (·.kind)).contains .notNull)
  defaultValue := c.default.map fun d => .ofList d.literal.text

def constraints (c : ColumnLine) : List Constraint :=
  c.marks.filterMap (·.constraint? c.name.string)

end ColumnLine

/-- What is said behind a foreign key, such as its actions. -/
structure Suffix where
  text : Text
  chars : ∀ c ∈ text, isWordChar c ∨ c = ' '
  solid : EndsSolid text
  noCreate : hasSpelling "CREATE" text = false
  noAlter : hasSpelling "ALTER" text = false

inductive Key
  | primaryKey (spaced : Bool) (columns : List Name) (nonempty : columns ≠ [])
  | foreignKey (spaced : Bool) (columns : List Name) (nonempty : columns ≠ []) (table : Target)
      (space : Bool) (references : List Name) (referencesNonempty : references ≠ []) (suffix : Suffix)

/-- A key with the name that its constraint may have. -/
structure KeyClause where
  constraintName : Option Name
  key : Key

namespace KeyClause

def nameList (spaced : Bool) (names : List Name) : Text := commaJoin spaced (names.map (·.text))

def spaceText (space : Bool) : Text := if space then [' '] else []

/-- The clause up to its last parenthesis. -/
def keyText (k : KeyClause) : Text :=
  match k.key with
  | .primaryKey spaced columns _ =>
      primaryKeyText (k.constraintName.map (·.text)) (nameList spaced columns)
  | .foreignKey spaced columns _ table space references _ _ =>
      foreignKeyText (k.constraintName.map (·.text)) (nameList spaced columns) table.text
        (spaceText space) (nameList spaced references)

def suffixText (k : KeyClause) : Text :=
  match k.key with
  | .primaryKey _ _ _ => []
  | .foreignKey _ _ _ _ _ _ _ suffix => suffix.text

def text (k : KeyClause) : Text := k.keyText ++ k.suffixText

/-- The constraint that a clause declares. -/
def constraint (k : KeyClause) : Constraint :=
  match k.key with
  | .primaryKey _ columns _ => .primaryKey (columns.map (·.string))
  | .foreignKey _ columns _ table _ references _ _ =>
      .foreignKey ⟨columns.map (·.string), table.name.string, references.map (·.string)⟩

end KeyClause

/-- Blanks that set lines or words apart. -/
structure Indent where
  text : Text
  blank : ∀ c ∈ text, isBlank c

/-- A line break, and a number of spaces behind it. -/
def Indent.newLine (width : Nat) : Indent where
  text := '\n' :: List.replicate width ' '
  blank := by
    rintro c (_ | ⟨_, hc⟩)
    · rfl
    · rw [List.eq_of_mem_replicate hc]
      rfl

inductive TableKind
  | permanent
  | unlogged
  | temporary
  | temp

def TableKind.text : TableKind → Text
  | permanent => []
  | unlogged => "UNLOGGED".toList ++ [' ']
  | temporary => "TEMPORARY".toList ++ [' ']
  | temp => "TEMP".toList ++ [' ']

/-- A statement that creates a table, from `CREATE` to its semicolon. -/
structure TableStatement where
  kind : TableKind
  ifNotExists : Bool
  target : Target
  columns : List ColumnLine
  nonempty : columns ≠ []
  distinct : (columns.map (·.name.string)).Nodup
  clauses : List KeyClause
  first : Indent
  indent : Indent

namespace TableStatement

/-- Lines of a body, each but the last with a comma and a line break behind it. -/
def joinLines (indent : Text) : List Text → Text
  | [] => []
  | [line] => line
  | line :: lines => line ++ ',' :: '\n' :: (indent ++ joinLines indent lines)

def body (t : TableStatement) : Text :=
  t.first.text ++ (joinLines t.indent.text (t.columns.map (·.text) ++ t.clauses.map (·.text)) ++ ['\n'])

def existsText (ifNotExists : Bool) : Text :=
  if ifNotExists then spacedWords ["IF", "NOT", "EXISTS"] ++ [' '] else []

def opening (t : TableStatement) : Text :=
  "CREATE".toList ++ ' ' :: (t.kind.text ++ ("TABLE".toList ++ ' ' :: existsText t.ifNotExists))

def text (t : TableStatement) : Text :=
  t.opening ++ (t.target.text ++ ' ' :: '(' :: (t.body ++ [')', ';']))

/-- The table that the statement creates, as long as no key takes its columns. -/
def definition (t : TableStatement) : Table where
  name := t.target.name.string
  columns := t.columns.map (·.definition)

/-- The keys that are declared within the statement, those on columns first. -/
def constraints (t : TableStatement) : List Constraint :=
  t.columns.flatMap (·.constraints) ++ t.clauses.map (·.constraint)

end TableStatement

/-- A statement that adds a key to a table. -/
structure Alteration where
  ifExists : Bool
  only : Bool
  target : Target
  space : Indent
  spaceNonempty : space.text ≠ []
  clause : KeyClause

namespace Alteration

def existsText (ifExists : Bool) : Text :=
  if ifExists then spacedWords ["IF", "EXISTS"] ++ [' '] else []

def onlyText (only : Bool) : Text := if only then "ONLY".toList ++ [' '] else []

def opening (a : Alteration) : Text :=
  spacedWords ["ALTER", "TABLE"] ++ ' ' :: (existsText a.ifExists ++ (onlyText a.only ++
    (a.target.text ++ (a.space.text ++ ("ADD".toList ++ [' '])))))

def text (a : Alteration) : Text := a.opening ++ (a.clause.text ++ [';'])

/-- The table with the constraint that is added to it. -/
def addition (a : Alteration) : String × Constraint := (a.target.name.string, a.clause.constraint)

end Alteration

inductive Statement
  | table (statement : TableStatement)
  | alteration (statement : Alteration)

namespace Statement

def text : Statement → Text
  | table statement => statement.text
  | alteration statement => statement.text

def table? : Statement → Option TableStatement
  | table statement => some statement
  | alteration _ => none

def alteration? : Statement → Option Alteration
  | table _ => none
  | alteration statement => some statement

end Statement

/-- Text between statements. -/
structure Filler where
  text : Text
  noCreation : createOpening.occursIn text = false
  noAlteration : alterOpening.occursIn text = false
  detached : ∀ c ∈ text.getLast?, isWordChar c = false

def Filler.nothing : Filler := ⟨[], by decide +kernel, by decide +kernel, by decide⟩

def Filler.lineBreak : Filler := ⟨['\n'], by decide +kernel, by decide +kernel, by decide⟩

/-- A dump: statements in any order with a text in front of each, and a text behind the last. -/
structure Dump where
  statements : List (Filler × Statement)
  trailer : Filler
  distinct : ((statements.filterMap (·.2.table?)).map (·.target.name.string)).Nodup

namespace Dump

def text (d : Dump) : Text :=
  d.statements.flatMap (fun s => s.1.text ++ s.2.text) ++ d.trailer.text

def tables (d : Dump) : List TableStatement := d.statements.filterMap (·.2.table?)

def alterations (d : Dump) : List Alteration := d.statements.filterMap (·.2.alteration?)

def definitions (d : Dump) : List Table := d.tables.map (·.definition)

/-- The keys of a dump with the tables they belong to, wherever they are declared: those within
the tables first. -/
def keys (d : Dump) : List (String × Constraint) :=
  (d.tables.flatMap fun t => t.constraints.map (t.target.name.string, ·)) ++
    d.alterations.map (·.addition)

def schema (d : Dump) : Schema :=
  ⟨d.definitions.map (Table.under (SchemaDraft.alterationsOf d.keys))⟩

end Dump

end SchemaDump.PostgreSQL
