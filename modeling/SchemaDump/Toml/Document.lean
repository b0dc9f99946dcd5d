import SchemaDump.Toml.Table
import SchemaDump.Toml.Quoted
/- Documents of TOML. -/
namespace SchemaDump.Toml

def skipWhite (t : Text) : Text := t.dropWhile isWhite

/-- Removes a comment, which may not hold control characters. -/
def skipComment : Text → Text
  | '#' :: rest => rest.dropWhile isPlainChar
  | t => t

/-- Removes blanks, line breaks and comments. Every round reads a character. -/
def skipLines : (bound text : Text) → Text
  | [], t => t
  | _ :: bound, t =>
      match skipWhite t with
      | '#' :: rest => skipLines bound (skipComment ('#' :: rest))
      | t =>
          match dropBreak? t with
          | some rest => skipLines bound rest
          | none => t

def skipAll (t : Text) : Text := skipLines t t

/-- Reads the end of a line: blanks and a comment, then a break or the end of the text. -/
def endLine? (t : Text) : Option Text :=
  match skipComment (skipWhite t) with
  | [] => some []
  | t => dropBreak? t

def isBareKeyChar (c : Char) : Bool := c.isAlphanum || c == '_' || c == '-'

def readSimpleKey? (t : Text) : Option (String × Text) :=
  match t with
  | [] => none
  | c :: rest =>
      if c = '"' || c = '\'' then
        (readLine? c rest rest).map fun (key, rest) => (.ofList key, rest)
      else match t.takeWhile isBareKeyChar with
        | [] => none
        | key => some (.ofList key, t.dropWhile isBareKeyChar)

/-- Reads the parts of a key, with blanks around each. -/
def readKeyParts? : (bound text : Text) → Option (List String × Text)
  | [], _ => none
  | _ :: bound, t => do
      let (key, rest) ← readSimpleKey? (skipWhite t)
      match skipWhite rest with
      | '.' :: rest =>
          let (keys, rest) ← readKeyParts? bound rest
          return (key :: keys, rest)
      | rest => return ([key], rest)

/-- How deep keys and values may be nested. -/
def nestingLimit : Nat := 80

/-- Reads a key as the path before its last part, and that part. -/
def readKey? (t : Text) : Option (List String × String × Text) := do
  let (parts, rest) ← readKeyParts? t t
  let last ← parts.getLast?
  if parts.length < nestingLimit then some (parts.dropLast, last, rest) else none

/-- Reads the elements of an array and its end. -/
def readElements? (read : Text → Option (Value × Text)) :
    (bound text : Text) → Option (List Value × Text)
  | [], _ => none
  | _ :: bound, t =>
      match skipAll t with
      | ']' :: rest => some ([], rest)
      | t => do
          let (v, rest) ← read t
          match skipAll rest with
          | ',' :: rest =>
              let (vs, rest) ← readElements? read bound rest
              return (v :: vs, rest)
          | ']' :: rest => return ([v], rest)
          | _ => none

/-- Reads a key with its value. -/
def readDefinition? (read : Text → Option (Value × Text)) (t : Text) :
    Option (List String × String × Value × Text) := do
  let (path, key, rest) ← readKey? t
  match rest with
  | '=' :: rest =>
      let (v, rest) ← read (skipWhite rest)
      return (path, key, v, rest)
  | _ => none

/-- Reads at least one definition of an inline table and the end of the table. -/
def readInline? (read : Text → Option (Value × Text)) :
    (bound text : Text) → Entries → Option Text
  | [], _, _ => none
  | _ :: bound, t, entries => do
      let (path, key, v, rest) ← readDefinition? read t
      let entries ← entries.defineDotted path key v
      match skipWhite rest with
      | ',' :: rest => readInline? read bound rest entries
      | '\x7d' :: rest => return rest
      | _ => none

/-- Reads a value, which may be nested to a depth. -/
def readValue? : (depth : Nat) → Text → Option (Value × Text)
  | 0, t =>
      match readQuoted? t with
      | some (s, rest) => some (.string (.ofList s), rest)
      | none => (readScalar? t).map (.other, ·)
  | depth + 1, t =>
      match t with
      | '[' :: rest =>
          (readElements? (readValue? depth) rest rest).map fun (vs, rest) => (.array vs, rest)
      | '\x7b' :: rest =>
          match skipWhite rest with
          | '\x7d' :: rest => some (.other, rest)
          | _ => (readInline? (readValue? depth) rest rest []).map (.other, ·)
      | t =>
          match readQuoted? t with
          | some (s, rest) => some (.string (.ofList s), rest)
          | none => (readScalar? t).map (.other, ·)

/-- A document as far as it is read: its entries and the path of the table at hand. -/
structure Draft where
  root : Entries
  here : List String

/-- Reads one line that holds more than blanks and comments, with the lines it goes on to. -/
def readExpression? (draft : Draft) (t : Text) : Option (Draft × Text) :=
  match t with
  | '[' :: '[' :: rest => do
      let (path, key, rest) ← readKey? rest
      match rest with
      | ']' :: ']' :: rest =>
          return ({ root := ← draft.root.openElement path key, here := path ++ [key] },
            ← endLine? rest)
      | _ => none
  | '[' :: rest => do
      let (path, key, rest) ← readKey? rest
      match rest with
      | ']' :: rest =>
          return ({ root := ← draft.root.openTable path key, here := path ++ [key] },
            ← endLine? rest)
      | _ => none
  | t => do
      let (path, key, v, rest) ← readDefinition? (readValue? (nestingLimit - 1)) t
      let root ← draft.root.within false (fun _ => Entries.defineDotted path key v) draft.here .header
      return ({ draft with root }, ← endLine? rest)

def readExpressions? : (bound text : Text) → Draft → Option Entries
  | bound, t, draft =>
      match skipAll t, bound with
      | [], _ => some draft.root
      | _, [] => none
      | t, _ :: bound => do
          let (draft, rest) ← readExpression? draft t
          readExpressions? bound rest draft

/-- Reads a document, before which a byte order mark may stand. -/
def read? (t : Text) : Option Entries :=
  let t := match t with
    | '\ufeff' :: rest => rest
    | t => t
  readExpressions? t t ⟨[], []⟩

end SchemaDump.Toml
