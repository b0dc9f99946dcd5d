import SchemaDump.Definition.Identifier
/- Default values of columns. -/
namespace SchemaDump

namespace SqlPattern
open Pattern

/-- A cast to a type at the end of a value. -/
def trailingCast : SqlPattern :=
  literal "::" ++ gap ++ run1 (fun c => isWordChar c || isBlank c || c == '.' || c == '"') .longest ++
    maybe (literal "(" ++ gap ++ run1 isDecimalDigit .longest ++
      maybe (gap ++ literal "," ++ gap ++ run1 isDecimalDigit .longest) ++ gap ++ literal ")") ++
    many (literal "[]") ++ gap ++ textEnd

end SqlPattern

namespace DefaultValue

/-- Removes casts from the end of a value until none is left. Each removal shortens the value,
which bounds their number. -/
def dropCastsWithin : (bound value : Text) → Text
  | [], value => value
  | _ :: bound, value =>
      match SqlPattern.trailingCast.find? value with
      | none => value
      | some o => dropCastsWithin bound (Text.trimEnd o.before)

def dropCasts (value : Text) : Text := dropCastsWithin value value

/-- The text between a quote at the start and one at the end. -/
def between? (quote : Char) : Text → Option Text
  | [] => none
  | c :: rest => if c = quote && rest.getLast? = some quote then some rest.dropLast else none

/-- Removes one pair of quotes around a value. -/
def unquoteLiteral (value : Text) : Text :=
  match between? '\'' value with
  | some inner => inner
  | none => (between? '"' value).getD value

/-- The value meant by a default as written: without casts, if the dialect has them, and without
the quotes around it. -/
def clean (casts : Bool) (raw : Text) : Text :=
  let value := raw.trim
  unquoteLiteral (if casts then dropCasts value else value)

end DefaultValue
end SchemaDump
