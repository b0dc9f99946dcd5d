import SchemaDump.Text.Basic
/- JSON values. Members of an object keep their order and may repeat a key. -/
namespace SchemaDump

/-- A JSON value. A string is `none` if its escapes stand for no text: such a string can be
passed over, but not read. Numbers are kept as written. -/
inductive Json
  | null
  | bool (value : Bool)
  | number (digits : Text)
  | string (value : Option String)
  | array (elements : List Json)
  | object (members : List (Option String × Json))

namespace Json

def text (s : String) : Json := .string (some s)

def ofNat (n : Nat) : Json := .number (Nat.repr n).toList

/-- An object with the given keys. -/
def record (members : List (String × Json)) : Json :=
  .object (members.map fun (key, value) => (some key, value))

/-- A value or `null`. -/
def ofOption : Option Json → Json
  | none => .null
  | some value => value

end Json
end SchemaDump
