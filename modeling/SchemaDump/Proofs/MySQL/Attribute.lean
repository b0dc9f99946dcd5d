import SchemaDump.Proofs.Definition.DistinctKinds
import SchemaDump.Proofs.Definition.ReferentialAction
import SchemaDump.Proofs.MySQL.DefaultValue
import SchemaDump.Proofs.PostgreSQL.Rendering
/- Column lines with any attributes: the options, a collation, a reference with its actions and a default at most once
each, and `NULL` any number of times. The names in a reference and the default may be any text, so that they can hold
what the search for a comment or a default looks for. -/
namespace SchemaDump.MySQL
open SqlPattern Pattern
open PostgreSQL (Word)

/-- A table or a column as it is named: in back quotes, or by a word. -/
inductive TargetName
  | quoted (name : QuotedName)
  | bare (word : Word)

namespace TargetName

def content : TargetName → Text
  | quoted name => name.text
  | bare word => word.text

def text : TargetName → Text
  | quoted name => name.quoted
  | bare word => word.text

end TargetName

def constraintWords : List String :=
  ["PRIMARY", "UNIQUE", "KEY", "CONSTRAINT", "FOREIGN", "CHECK", "INDEX", "FULLTEXT", "SPATIAL"]

/-- The name that a column line starts with: in back quotes, or a word that opens no constraint. -/
inductive ColumnName
  | quoted (name : QuotedName)
  | bare (word : Word) (plain : word.isOneOf constraintWords = false)

namespace ColumnName

def target : ColumnName → TargetName
  | quoted name => .quoted name
  | bare word _ => .bare word

def content (n : ColumnName) : Text := n.target.content

def text (n : ColumnName) : Text := n.target.text

end ColumnName

/-- A reference that is declared on a column. A comma would end the column in the list, and a parenthesis the list. -/
structure ColumnReference where
  table : TargetName
  spaced : Bool
  column : TargetName
  listed : ∀ c ∈ column.text, c ≠ ',' ∧ c ≠ ')'
  actions : List ReferentialAction

namespace ColumnReference

variable (r : ColumnReference)

/-- The reference up to the parenthesis that closes its list. -/
def front : Text :=
  "REFERENCES".toList ++ ' ' :: (r.table.text ++ ((if r.spaced then [' '] else []) ++ '(' :: (r.column.text ++ [')'])))

def text : Text := r.front ++ actionText r.actions

def withoutActions : ColumnReference := { r with actions := [] }

end ColumnReference

/-- The words that a column line is searched for. -/
def attributeWords : List String := ["COMMENT", "CONSTRAINT", "DEFAULT", "NOT", "NULL", "PRIMARY", "REFERENCES"]

inductive Attribute
  | option (option : ColumnOption)
  | null
  | collate (word : Word) (plain : word.isOneOf attributeWords = false)
  | references (reference : ColumnReference)
  | default (value : WholeDefault)

inductive AttributeKind
  | option (kind : OptionKind)
  | null
  | collate
  | references
  deriving DecidableEq

/-- What stands in front of the content of a comment. -/
def commentQuote : SqlPattern := commentOpening ++ literal "'"

def defaultOpening : SqlPattern := wordEdge ++ keyword "DEFAULT" ++ one isBlank

namespace Attribute

def kind : Attribute → AttributeKind
  | option o => .option o.kind
  | null => .null
  | collate _ _ => .collate
  | references _ => .references
  | default _ => .option .default

def text : Attribute → Text
  | option o => o.text
  | null => ' ' :: "NULL".toList
  | collate word _ => ' ' :: ("COLLATE".toList ++ ' ' :: word.text)
  | references r => ' ' :: r.text
  | default d => ' ' :: ("DEFAULT".toList ++ ' ' :: d.text)

/-- The value of an attribute that is a default. -/
def value? : Attribute → Option Text
  | option o => o.default?.map (·.value)
  | default d => some d.value
  | _ => none

def reference? : Attribute → Option ColumnReference
  | references r => some r
  | _ => none

/-- The texts in an attribute that may say anything. -/
def opaqueTexts : Attribute → List Text
  | option o => o.contents.map (·.text)
  | references r => [r.table.content, r.column.content]
  | default d => [d.text]
  | _ => []

/-- The attribute without the actions of a reference. -/
def withoutActions : Attribute → Attribute
  | references r => .references r.withoutActions
  | a => a

/-- No comment opens in a name or in a default. -/
def isQuiet : Attribute → Bool
  | references r => !commentQuote.occursIn (references r).text
  | default d => !commentQuote.occursIn (default d).text
  | _ => true

/-- A default in front of another quote does not end with the opening of a comment. -/
def allows : Attribute → Attribute → Bool
  | option (.default (.literal l)), next => !(commentOpening ++ textEnd).occursIn l.text || !next.text.contains '\''
  | _, _ => true

end Attribute

def attributesText (attributes : List Attribute) : Text := attributes.flatMap (·.text)

/-- In front of a default, and in all attributes if there is none, `DEFAULT` does not stand in front of a blank. -/
def NoEarlyDefault : List Attribute → Prop
  | [] => True
  | a :: attributes => a.kind = .option .default ∨
      (defaultOpening.occursIn (a.text ++ (attributesText attributes).take 1) = false ∧ NoEarlyDefault attributes)

instance decidableNoEarlyDefault : (attributes : List Attribute) → Decidable (NoEarlyDefault attributes)
  | [] => inferInstanceAs (Decidable True)
  | _ :: attributes =>
      have := decidableNoEarlyDefault attributes
      inferInstanceAs (Decidable (_ ∨ _))

/-- A column line on which no two attributes say the same of the column. A null says nothing, so there may be any. -/
structure AttributeLine where
  name : ColumnName
  type : DataType
  attributes : List Attribute
  distinct : ((attributes.map (·.kind)).filter (· ≠ .null)).Nodup

namespace AttributeLine

variable (c : AttributeLine)

def text : Text := c.name.text ++ ' ' :: (c.type.text ++ attributesText c.attributes)

def opaqueTexts : List Text :=
  c.name.content :: (c.type.contents.map (·.text) ++ c.attributes.flatMap (·.opaqueTexts))

def others : List Attribute := c.attributes.filter fun a => a.kind ≠ .option .comment

/-- The column that a line defines, as long as no key of the table takes it. -/
def column : Column where
  name := .ofList (unquote c.name.content)
  declaredType := .ofList c.type.text
  isPrimaryKey := (c.attributes.map (·.kind)).contains (.option .primaryKey)
  isNullable := !(c.attributes.map (·.kind)).contains (.option .notNull)
  defaultValue := (c.attributes.findSome? (·.value?)).map .ofList
  foreignKey := (c.attributes.findSome? (·.reference?)).map fun r =>
    ⟨.ofList (unquote c.name.content), Dialect.mysql.normalizeName r.table.text, .ofList r.column.content⟩

/-- A line whose attributes are read one by one: no literal among the arguments of the type holds the parenthesis
that would end them, no comment and no default opens in another attribute. -/
structure Readable : Prop where
  closed : ∀ l ∈ c.type.contents, ')' ∉ l.text
  quiet : ∀ a ∈ c.attributes, a.isQuiet
  settled : c.attributes.Pairwise fun a next => a.allows next
  plain : NoEarlyDefault c.others

end AttributeLine

namespace OptionLine

variable (c : OptionLine)

def line : AttributeLine where
  name := .quoted c.name
  type := c.type
  attributes := c.options.map .option
  distinct := by
    have hkinds : (c.options.map Attribute.option).map (·.kind) = (c.options.map (·.kind)).map .option := by
      simp only [List.map_map]
      rfl
    rw [hkinds]
    exact (List.Nodup.map (fun _ _ => AttributeKind.option.inj) c.distinct).filter _

theorem attributesText_options (options : List ColumnOption) :
    attributesText (options.map .option) = optionsText options := by
  rw [attributesText, List.flatMap_map]
  rfl

theorem text_line : c.line.text = c.text := by
  rw [AttributeLine.text, line, attributesText_options]
  rfl

theorem mem_opaqueTexts_line {t : Text} :
    t ∈ c.line.opaqueTexts ↔ t = c.name.text ∨ ∃ l ∈ c.contents, l.text = t := by
  simp only [AttributeLine.opaqueTexts, line, ColumnName.content, ColumnName.target, TargetName.content, List.flatMap_map, Attribute.opaqueTexts, contents, List.mem_cons,
    List.mem_append, List.mem_flatMap, List.mem_map]
  grind

theorem contains_kind (kind : OptionKind) :
    (c.line.attributes.map (·.kind)).contains (.option kind) = (c.options.map (·.kind)).contains kind := by
  apply Bool.eq_iff_iff.mpr
  simp [line, Attribute.kind]

theorem column_line : c.line.column = c.column := by
  have hvalue : c.line.attributes.findSome? (·.value?) = (c.options.findSome? (·.default?)).map (·.value) := by
    rw [List.map_findSome?, line, List.findSome?_map]
    rfl
  have hreference : c.line.attributes.findSome? (·.reference?) = none := by
    simp [line, Attribute.reference?]
  rw [AttributeLine.column, contains_kind, contains_kind, hvalue, hreference, Option.map_map]
  rfl

end OptionLine

end SchemaDump.MySQL
