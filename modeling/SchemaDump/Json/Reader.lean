import SchemaDump.Json.Basic
/- Reading JSON. -/
namespace SchemaDump.Json

def isSpace (c : Char) : Bool := c == ' ' || c == '\n' || c == '\t' || c == '\r'

def skipSpace (t : Text) : Text := t.dropWhile isSpace

def hexValue? (c : Char) : Option Nat :=
  if c.isDigit then some (c.toNat - '0'.toNat)
  else if 'a' ≤ c && c ≤ 'f' then some (c.toNat - 'a'.toNat + 10)
  else if 'A' ≤ c && c ≤ 'F' then some (c.toNat - 'A'.toNat + 10)
  else none

/-- The number that four hexadecimal digits stand for. -/
def hexQuad? (a b c d : Char) : Option Nat := do
  return (((← hexValue? a) * 16 + (← hexValue? b)) * 16 + (← hexValue? c)) * 16 + (← hexValue? d)

/-- What stands in a string: a character, or one half of an escaped pair. -/
inductive StringPiece
  | char (c : Char)
  | leading (unit : Nat)
  | trailing (unit : Nat)

def StringPiece.ofUnit (unit : Nat) : StringPiece :=
  if 0xd800 ≤ unit && unit < 0xdc00 then .leading unit
  else if 0xdc00 ≤ unit && unit < 0xe000 then .trailing unit
  else .char (.ofNat unit)

/-- The text of a string, if every half of a pair stands next to its other half. -/
def joinPieces : List StringPiece → Option Text
  | [] => some []
  | .char c :: pieces => (joinPieces pieces).map (c :: ·)
  | .leading high :: .trailing low :: pieces =>
      (joinPieces pieces).map (.ofNat (0x10000 + (high - 0xd800) * 0x400 + (low - 0xdc00)) :: ·)
  | _ => none

def simpleEscape? (c : Char) : Option Char :=
  if c = '"' then some '"'
  else if c = '\\' then some '\\'
  else if c = '/' then some '/'
  else if c = 'b' then some '\x08'
  else if c = 'f' then some '\x0c'
  else if c = 'n' then some '\n'
  else if c = 'r' then some '\r'
  else if c = 't' then some '\t'
  else none

/-- Reads a string behind its opening quote, with the text that follows the closing one. -/
def readPieces? : Text → Option (List StringPiece × Text)
  | [] => none
  | '"' :: rest => some ([], rest)
  | '\\' :: 'u' :: a :: b :: c :: d :: rest => do
      let unit ← hexQuad? a b c d
      let (pieces, rest) ← readPieces? rest
      return (.ofUnit unit :: pieces, rest)
  | '\\' :: e :: rest => do
      let c ← simpleEscape? e
      let (pieces, rest) ← readPieces? rest
      return (.char c :: pieces, rest)
  | c :: rest => do
      if c = '\\' || c.toNat < 0x20 then none
      let (pieces, rest) ← readPieces? rest
      return (.char c :: pieces, rest)

def readString? (t : Text) : Option (Option String × Text) :=
  (readPieces? t).map fun (pieces, rest) => ((joinPieces pieces).map .ofList, rest)

/-- One or more digits. -/
def readDigits? (t : Text) : Option (Text × Text) :=
  match t.takeWhile Char.isDigit with
  | [] => none
  | digits => some (digits, t.dropWhile Char.isDigit)

/-- Digits without a leading zero. -/
def readWhole? : Text → Option (Text × Text)
  | '0' :: rest => if rest.head?.any Char.isDigit then none else some (['0'], rest)
  | t => readDigits? t

def readFraction? : Text → Option (Text × Text)
  | '.' :: rest => (readDigits? rest).map fun (digits, rest) => ('.' :: digits, rest)
  | t => some ([], t)

def readExponent? : Text → Option (Text × Text)
  | e :: rest =>
      if e = 'e' || e = 'E' then
        match rest with
        | sign :: digits =>
            if sign = '+' || sign = '-' then
              (readDigits? digits).map fun (digits, rest) => (e :: sign :: digits, rest)
            else (readDigits? rest).map fun (digits, rest) => (e :: digits, rest)
        | [] => none
      else some ([], e :: rest)
  | [] => some ([], [])

def readNumber? (t : Text) : Option (Text × Text) := do
  let (sign, rest) := match t with
    | '-' :: rest => (['-'], rest)
    | t => ([], t)
  let (whole, rest) ← readWhole? rest
  let (fraction, rest) ← readFraction? rest
  let (exponent, rest) ← readExponent? rest
  return (sign ++ whole ++ fraction ++ exponent, rest)

mutual

/-- Reads a value, with the text that follows it. The bound limits the nesting. -/
def readValue? : Nat → Text → Option (Json × Text)
  | 0, _ => none
  | bound + 1, t =>
      match skipSpace t with
      | 'n' :: 'u' :: 'l' :: 'l' :: rest => some (.null, rest)
      | 't' :: 'r' :: 'u' :: 'e' :: rest => some (.bool true, rest)
      | 'f' :: 'a' :: 'l' :: 's' :: 'e' :: rest => some (.bool false, rest)
      | '"' :: rest => (readString? rest).map fun (value, rest) => (.string value, rest)
      | '[' :: rest =>
          match skipSpace rest with
          | ']' :: rest => some (.array [], rest)
          | rest => (readElements? bound rest).map fun (values, rest) => (.array values, rest)
      | '\x7b' :: rest =>
          match skipSpace rest with
          | '\x7d' :: rest => some (.object [], rest)
          | rest => (readMembers? bound rest).map fun (members, rest) => (.object members, rest)
      | t => (readNumber? t).map fun (digits, rest) => (.number digits, rest)

/-- Reads at least one element and the end of the array. -/
def readElements? : Nat → Text → Option (List Json × Text)
  | 0, _ => none
  | bound + 1, t => do
      let (value, rest) ← readValue? bound t
      match skipSpace rest with
      | ',' :: rest =>
          let (values, rest) ← readElements? bound rest
          return (value :: values, rest)
      | ']' :: rest => return ([value], rest)
      | _ => none

/-- Reads at least one member and the end of the object. -/
def readMembers? : Nat → Text → Option (List (Option String × Json) × Text)
  | 0, _ => none
  | bound + 1, t =>
      match skipSpace t with
      | '"' :: rest => do
          let (key, rest) ← readString? rest
          match skipSpace rest with
          | ':' :: rest =>
              let (value, rest) ← readValue? bound rest
              match skipSpace rest with
              | ',' :: rest =>
                  let (members, rest) ← readMembers? bound rest
                  return ((key, value) :: members, rest)
              | '\x7d' :: rest => return ([(key, value)], rest)
              | _ => none
          | _ => none
      | _ => none

end

/-- Reads a text that holds one value and nothing else. Every step inwards reads a character or
is followed by one that does, so twice the length bounds them. -/
def parse? (t : Text) : Option Json := do
  let (value, rest) ← readValue? (2 * t.length + 2) t
  if (skipSpace rest).isEmpty then some value else none

end SchemaDump.Json
