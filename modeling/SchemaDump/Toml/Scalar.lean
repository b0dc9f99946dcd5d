import SchemaDump.Text.Basic
/- Numbers, truth values and dates of TOML. Only their form is checked. -/
namespace SchemaDump.Toml

/-- The characters that numbers, truth values and dates are made of. -/
def isScalarChar (c : Char) : Bool :=
  c.isAlphanum || c == '_' || c == '+' || c == '-' || c == '.' || c == ':'

/-- Reads digits with single underscores between them, and tells what follows. -/
def readDigits? (isDigit : Char → Bool) : Text → Option (Text × Text)
  | [] => none
  | [c] => if isDigit c then some ([c], []) else none
  | c :: '_' :: rest =>
      if isDigit c then (readDigits? isDigit rest).map fun (digits, rest) => (c :: digits, rest)
      else none
  | c :: d :: rest =>
      if !isDigit c then none
      else if !isDigit d then some ([c], d :: rest)
      else (readDigits? isDigit (d :: rest)).map fun (digits, rest) => (c :: digits, rest)

def digitValue (c : Char) : Nat :=
  if c.isDigit then c.toNat - '0'.toNat
  else if c.isUpper then c.toNat - 'A'.toNat + 10
  else c.toNat - 'a'.toNat + 10

def numberIn (base : Nat) (digits : Text) : Nat :=
  digits.foldl (fun n c => n * base + digitValue c) 0

def isHexDigit (c : Char) : Bool := c.isDigit || ('a' ≤ c && c ≤ 'f') || ('A' ≤ c && c ≤ 'F')

/-- Removes a sign and tells whether it was a minus. -/
def readSign : Text → Bool × Text
  | '-' :: rest => (true, rest)
  | '+' :: rest => (false, rest)
  | t => (false, t)

/-- Reads decimal digits without a leading zero. -/
def readWhole? : Text → Option (Text × Text)
  | '0' :: rest => some (['0'], rest)
  | t => readDigits? Char.isDigit t

/-- Integers have to fit 64 bits. -/
def isInteger (t : Text) : Bool :=
  let based (base : Nat) (isDigit : Char → Bool) (t : Text) : Bool :=
    match readDigits? isDigit t with
    | some (digits, []) => numberIn base digits < Nat.pow 2 63
    | _ => false
  match t with
  | '0' :: 'x' :: rest => based 16 isHexDigit rest
  | '0' :: 'o' :: rest => based 8 (fun c => '0' ≤ c && c ≤ '7') rest
  | '0' :: 'b' :: rest => based 2 (fun c => c == '0' || c == '1') rest
  | t =>
      let (negative, digits) := readSign t
      match readWhole? digits with
      | some (digits, []) => numberIn 10 digits < Nat.pow 2 63 + (if negative then 1 else 0)
      | _ => false

/-- Reads an exponent with its sign. -/
def readExponent? : Text → Option (Int × Text)
  | e :: rest =>
      if e = 'e' || e = 'E' then
        let (negative, rest) := readSign rest
        (readDigits? Char.isDigit rest).map fun (digits, rest) =>
          let n : Int := numberIn 10 digits
          (if negative then -n else n, rest)
      else none
  | [] => none

/-- Whether a decimal number is rounded to infinity as a double. -/
def isTooLarge (digits : Text) (exponent : Int) : Bool :=
  let mantissa := numberIn 10 digits
  let limit := Nat.pow 2 1024 - Nat.pow 2 970
  if mantissa = 0 then false
  else match exponent with
    | .ofNat n => n > 400 || limit ≤ mantissa * Nat.pow 10 n
    | .negSucc n => n + 1 < digits.length && limit * Nat.pow 10 (n + 1) ≤ mantissa

/-- Floats have a fraction or an exponent. A positive one has to be finite. -/
def isFloat (t : Text) : Bool :=
  let (negative, t) := readSign t
  if t = "inf".toList || t = "nan".toList then true
  else match readWhole? t with
    | none => false
    | some (whole, '.' :: rest) =>
        match readDigits? Char.isDigit rest with
        | none => false
        | some (fraction, rest) =>
            let shift : Int := fraction.length
            match rest, readExponent? rest with
            | [], _ => negative || !isTooLarge (whole ++ fraction) (-shift)
            | _, some (exponent, []) =>
                negative || !isTooLarge (whole ++ fraction) (exponent - shift)
            | _, _ => false
    | some (whole, rest) =>
        match readExponent? rest with
        | some (exponent, []) => negative || !isTooLarge whole exponent
        | _ => false

/-- A number of exactly two digits. -/
def twoDigits? (a b : Char) : Option Nat :=
  if a.isDigit && b.isDigit then some (numberIn 10 [a, b]) else none

def isLeapYear (year : Nat) : Bool := year % 4 == 0 && (year % 100 != 0 || year % 400 == 0)

def daysIn (year month : Nat) : Nat :=
  if month = 2 then if isLeapYear year then 29 else 28
  else if month = 4 || month = 6 || month = 9 || month = 11 then 30
  else 31

/-- Reads a date, and tells what follows. -/
def readDate? : Text → Option Text
  | a :: b :: c :: d :: '-' :: e :: f :: '-' :: g :: h :: rest => do
      let century ← twoDigits? a b
      let year ← twoDigits? c d
      let month ← twoDigits? e f
      let day ← twoDigits? g h
      if 1 ≤ month && month ≤ 12 && 1 ≤ day && day ≤ daysIn (century * 100 + year) month then
        some rest
      else none
  | _ => none

/-- Reads a time of day, and tells what follows. Its seconds may have a fraction. -/
def readTime? : Text → Option Text
  | a :: b :: ':' :: c :: d :: ':' :: e :: f :: rest => do
      let hour ← twoDigits? a b
      let minute ← twoDigits? c d
      let second ← twoDigits? e f
      if hour ≤ 23 && minute ≤ 59 && second ≤ 60 then
        match rest with
        | '.' :: rest =>
            if rest.head?.any Char.isDigit then some (rest.dropWhile Char.isDigit) else none
        | rest => some rest
      else none
  | _ => none

def isOffset : Text → Bool
  | [] => true
  | [z] => z == 'Z' || z == 'z'
  | [sign, a, b, ':', c, d] =>
      (sign == '+' || sign == '-') &&
        (twoDigits? a b).any (· ≤ 23) && (twoDigits? c d).any (· ≤ 59)
  | _ => false

/-- A time of day, after which an offset may stand if it belongs to a date. -/
def isTime (offset : Bool) (t : Text) : Bool :=
  match readTime? t with
  | some rest => if offset then isOffset rest else rest.isEmpty
  | none => false

/-- A date, a time, or both with the letter T between them. -/
def isDateOrTime (t : Text) : Bool :=
  match readDate? t with
  | some [] => true
  | some (c :: rest) => (c == 'T' || c == 't') && isTime true rest
  | none => isTime false t

def isScalar (t : Text) : Bool :=
  t = "true".toList || t = "false".toList || isInteger t || isFloat t || isDateOrTime t

/-- Reads a number, a truth value or a date. Date and time may also be set apart by a blank. -/
def readScalar? (t : Text) : Option Text :=
  let token := t.takeWhile isScalarChar
  let rest := t.dropWhile isScalarChar
  if readDate? token = some [] then
    match rest with
    | ' ' :: more =>
        if more.head?.any Char.isDigit then
          if isTime true (more.takeWhile isScalarChar) then some (more.dropWhile isScalarChar)
          else none
        else some rest
    | _ => some rest
  else if isScalar token then some rest
  else none

end SchemaDump.Toml
