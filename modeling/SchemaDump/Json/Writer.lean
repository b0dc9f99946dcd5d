import SchemaDump.Json.Basic
/- Written JSON: on one line, or with one member or element on each line. -/
namespace SchemaDump.Json

def hexDigit (n : Nat) : Char :=
  if n < 10 then .ofNat ('0'.toNat + n) else .ofNat ('a'.toNat + (n - 10))

/-- A character inside a string. Only quotes, backslashes and control characters are escaped. -/
def escapeChar (c : Char) : Text :=
  if c = '"' then ['\\', '"']
  else if c = '\\' then ['\\', '\\']
  else if c = '\n' then ['\\', 'n']
  else if c = '\r' then ['\\', 'r']
  else if c = '\t' then ['\\', 't']
  else if c = '\x08' then ['\\', 'b']
  else if c = '\x0c' then ['\\', 'f']
  else if c.toNat < 0x20 then ['\\', 'u', '0', '0', hexDigit (c.toNat / 16), hexDigit (c.toNat % 16)]
  else [c]

def writeString : Option String → Text
  | some s => '"' :: s.toList.flatMap escapeChar ++ ['"']
  | none => "\"\\ud800\"".toList

mutual

/-- A value on one line, without blanks. -/
def compact : Json → Text
  | .null => "null".toList
  | .bool true => "true".toList
  | .bool false => "false".toList
  | .number digits => digits
  | .string value => writeString value
  | .array [] => ['[', ']']
  | .array (value :: values) => '[' :: compact value ++ compactElements values
  | .object [] => ['\x7b', '\x7d']
  | .object ((key, value) :: members) =>
      '\x7b' :: writeString key ++ ':' :: compact value ++ compactMembers members

def compactElements : List Json → Text
  | [] => [']']
  | value :: values => ',' :: compact value ++ compactElements values

def compactMembers : List (Option String × Json) → Text
  | [] => ['\x7d']
  | (key, value) :: members =>
      ',' :: writeString key ++ ':' :: compact value ++ compactMembers members

end

/-- A new line at a depth, two blanks for each level. -/
def lineAt (depth : Nat) : Text := '\n' :: List.replicate (2 * depth) ' '

mutual

/-- A value over several lines, as it stands at a depth. -/
def prettyAt (depth : Nat) : Json → Text
  | .null => "null".toList
  | .bool true => "true".toList
  | .bool false => "false".toList
  | .number digits => digits
  | .string value => writeString value
  | .array [] => ['[', ']']
  | .array (value :: values) =>
      '[' :: lineAt (depth + 1) ++ prettyAt (depth + 1) value ++ prettyElements depth values
  | .object [] => ['\x7b', '\x7d']
  | .object ((key, value) :: members) =>
      '\x7b' :: lineAt (depth + 1) ++ writeString key ++ ':' :: ' ' ::
        prettyAt (depth + 1) value ++ prettyMembers depth members

def prettyElements (depth : Nat) : List Json → Text
  | [] => lineAt depth ++ [']']
  | value :: values =>
      ',' :: lineAt (depth + 1) ++ prettyAt (depth + 1) value ++ prettyElements depth values

def prettyMembers (depth : Nat) : List (Option String × Json) → Text
  | [] => lineAt depth ++ ['\x7d']
  | (key, value) :: members =>
      ',' :: lineAt (depth + 1) ++ writeString key ++ ':' :: ' ' ::
        prettyAt (depth + 1) value ++ prettyMembers depth members

end

/-- A value over several lines. -/
def pretty (value : Json) : String := .ofList (prettyAt 0 value)

end SchemaDump.Json
