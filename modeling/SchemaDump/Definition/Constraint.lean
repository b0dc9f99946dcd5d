import SchemaDump.Definition.Identifier
import SchemaDump.Schema.Constraint
/- Primary and foreign keys written as definitions of their own. -/
namespace SchemaDump

namespace SqlPattern
open Pattern

/-- Anything but parentheses, or such text in one pair of them. -/
def shallowText : SqlPattern :=
  many (alt (one (noneOf ['(', ')']))
    (literal "(" ++ run (noneOf ['(', ')']) .longest ++ literal ")"))

def primaryKeyDefinition : SqlPattern :=
  constraintName ++ phrase ["PRIMARY", "KEY"] ++ gap ++
    maybe (keyword "USING" ++ blanks ++ run1 isWordChar .longest ++ gap) ++
    literal "(" ++ part .columns shallowText ++ literal ")"

def foreignKeyDefinition : SqlPattern :=
  constraintName ++ phrase ["FOREIGN", "KEY"] ++ gap ++ maybe (identifier ++ gap) ++
    literal "(" ++ part .columns (run1 (· != ')') .longest) ++ literal ")" ++ gap ++
    keyword "REFERENCES" ++ blanks ++ part .table qualified ++ gap ++
    literal "(" ++ part .references (run1 (· != ')') .longest) ++ literal ")"

end SqlPattern

/-- The key that a fragment declares. Constraints of other kinds declare none, and neither does
a key without columns. -/
def Constraint.parse? (d : Dialect) (fragment : Text) : Option Constraint :=
  let fragment := fragment.trim
  match SqlPattern.primaryKeyDefinition.opening? fragment with
  | some o =>
      match splitIdentifiers (o.part .columns) with
      | [] => none
      | columns => some (.primaryKey columns)
  | none =>
      match SqlPattern.foreignKeyDefinition.opening? fragment with
      | none => none
      | some o =>
          match splitIdentifiers (o.part .columns), splitIdentifiers (o.part .references) with
          | [], _ => none
          | _, [] => none
          | columns, references =>
              some (.foreignKey ⟨columns, d.normalizeName (o.part .table), references⟩)

end SchemaDump
