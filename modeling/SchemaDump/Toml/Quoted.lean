import SchemaDump.Toml.Scalar
/- Strings of TOML: with escapes or literal, on one line or over several. -/
namespace SchemaDump.Toml

def isWhite (c : Char) : Bool := c == ' ' || c == '\t'

/-- What may stand in a string or comment: no control characters but tabs. -/
def isPlainChar (c : Char) : Bool :=
  c == '\t' || (0x20 ≤ c.toNat && c.toNat != 0x7f)

/-- Removes a line break. -/
def dropBreak? : Text → Option Text
  | '\n' :: rest => some rest
  | '\r' :: '\n' :: rest => some rest
  | _ => none

/-- Removes blanks and line breaks. -/
def dropWhites : Text → Text
  | '\r' :: '\n' :: rest => dropWhites rest
  | c :: rest => if isWhite c || c = '\n' then dropWhites rest else c :: rest
  | [] => []

/-- The character that a number of hexadecimal digits stands for. -/
def codePoint? (digits : Text) : Option Char :=
  let n := numberIn 16 digits
  if digits.all isHexDigit && n.isValidChar then some (.ofNat n) else none

/-- Reads an escape behind its backslash. -/
def readEscape? : Text → Option (Char × Text)
  | 'u' :: a :: b :: c :: d :: rest => (codePoint? [a, b, c, d]).map (·, rest)
  | 'U' :: a :: b :: c :: d :: e :: f :: g :: h :: rest =>
      (codePoint? [a, b, c, d, e, f, g, h]).map (·, rest)
  | e :: rest =>
      if e = 'b' then some ('\x08', rest)
      else if e = 't' then some ('\t', rest)
      else if e = 'n' then some ('\n', rest)
      else if e = 'f' then some ('\x0c', rest)
      else if e = 'r' then some ('\r', rest)
      else if e = '"' then some ('"', rest)
      else if e = '\\' then some ('\\', rest)
      else none
  | [] => none

/-- Reads a string on one line behind its opening quote. Every round reads a character, so the
bound suffices if it is as long as the text. -/
def readLine? (quote : Char) : (bound text : Text) → Option (Text × Text)
  | [], _ => none
  | _, [] => none
  | _ :: bound, c :: rest =>
      if c = quote then some ([], rest)
      else if c = '\\' && quote = '"' then do
        let (c, rest) ← readEscape? rest
        let (inner, rest) ← readLine? quote bound rest
        return (c :: inner, rest)
      else if isPlainChar c then (readLine? quote bound rest).map fun (inner, rest) => (c :: inner, rest)
      else none

/-- Reads a string over several lines behind its opening quotes and the line break after them.
Up to two quotes may stand before the closing three. -/
def readLines? (quote : Char) : (bound text : Text) → Option (Text × Text)
  | [], _ => none
  | _, [] => none
  | _ :: bound, c :: rest =>
      if c = quote then
        match rest with
        | d :: e :: after =>
            if d = quote && e = quote then
              let more := after.takeWhile (· == quote)
              if more.length ≤ 2 then some (more, after.dropWhile (· == quote)) else none
            else (readLines? quote bound rest).map fun (inner, rest) => (c :: inner, rest)
        | _ => none
      else if c = '\\' && quote = '"' then
        match dropBreak? (rest.dropWhile isWhite) with
        | some rest => readLines? quote bound (dropWhites rest)
        | none => do
            let (c, rest) ← readEscape? rest
            let (inner, rest) ← readLines? quote bound rest
            return (c :: inner, rest)
      else match dropBreak? (c :: rest) with
        | some rest => (readLines? quote bound rest).map fun (inner, rest) => ('\n' :: inner, rest)
        | none =>
            if isPlainChar c then
              (readLines? quote bound rest).map fun (inner, rest) => (c :: inner, rest)
            else none

/-- Reads a string of any form. -/
def readQuoted? : Text → Option (Text × Text)
  | [] => none
  | quote :: rest =>
      if quote ≠ '"' && quote ≠ '\'' then none
      else match rest with
        | d :: e :: after =>
            if d = quote && e = quote then
              let body := (dropBreak? after).getD after
              readLines? quote body body
            else readLine? quote rest rest
        | _ => readLine? quote rest rest

end SchemaDump.Toml
