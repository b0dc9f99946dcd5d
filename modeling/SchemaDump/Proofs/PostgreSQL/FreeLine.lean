import SchemaDump.Proofs.PostgreSQL.Rendering
/- Column lines with any literal in the default. How such a line is read does not depend on what the
literal says; where the statement around the line ends does, so a dump does not admit all of them. -/
namespace SchemaDump.PostgreSQL

/-- What may stand between quotes on a line. -/
structure Content where
  text : Text
  chars : ∀ c ∈ text, c ≠ '\'' ∧ c ≠ '\n'

def Content.quoted (l : Content) : Text := '\'' :: (l.text ++ ['\''])

/-- A default with any content. -/
structure FreeDefault where
  content : Content
  casts : List Cast

def FreeDefault.text (d : FreeDefault) : Text := d.content.quoted ++ d.casts.flatMap (·.text)

/-- A line that defines a column, with any content in the default. -/
structure FreeLine where
  name : Name
  nameFree : name.isOneOf columnExclusions = false
  type : ColumnType
  marks : List Mark
  distinct : (marks.map (·.kind)).Nodup
  default : Option FreeDefault
  notNull : Bool
  settled : default = none → notNull = false → marks.getLast? ≠ some .notNull

namespace FreeLine

def defaultText : Option FreeDefault → Text
  | some d => ' ' :: ("DEFAULT".toList ++ ' ' :: d.text)
  | none => []

def text (c : FreeLine) : Text :=
  c.name.text ++ ' ' :: ((c.type.text ++ ColumnLine.markText c.marks) ++
    (defaultText c.default ++ ColumnLine.notNullText c.notNull))

/-- The column that a line defines, as long as no key takes it. -/
def definition (c : FreeLine) : Column where
  name := c.name.string
  declaredType := .ofList c.type.text
  isNullable := !(c.notNull || (c.marks.map (·.kind)).contains .notNull)
  defaultValue := c.default.map fun d => .ofList d.content.text

def constraints (c : FreeLine) : List Constraint := c.marks.filterMap (·.constraint? c.name.string)

end FreeLine

def Literal.content (l : Literal) : Content := ⟨l.text, fun c hc => ⟨(l.chars c hc).1, (l.chars c hc).2.2⟩⟩

def Default.free (d : Default) : FreeDefault := ⟨d.literal.content, d.casts⟩

namespace ColumnLine

variable (c : ColumnLine)

def free : FreeLine where
  name := c.name
  nameFree := c.nameFree
  type := c.type
  marks := c.marks
  distinct := c.distinct
  default := c.default.map (·.free)
  notNull := c.notNull
  settled := fun h => c.settled (Option.map_eq_none_iff.mp h)

theorem free_text : c.free.text = c.text := by
  have hdefault : FreeLine.defaultText (c.default.map (·.free)) = defaultText c.default := by
    cases c.default <;> rfl
  rw [FreeLine.text, text, ← hdefault]
  rfl

theorem free_definition : c.free.definition = c.definition := by
  rw [FreeLine.definition, definition, free, Option.map_map]
  rfl

end ColumnLine

end SchemaDump.PostgreSQL
