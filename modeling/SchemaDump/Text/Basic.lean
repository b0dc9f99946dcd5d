/- Texts as lists of characters: blanks, trimming and lines. -/
namespace SchemaDump

/-- A text under analysis, one Unicode character at a time. -/
abbrev Text := List Char

/-- The characters with the Unicode property `White_Space`. -/
def isBlank (c : Char) : Bool :=
  let n := c.toNat
  (0x9 ≤ n && n ≤ 0xd) || n == 0x20 || n == 0x85 || n == 0xa0 || n == 0x1680 ||
    (0x2000 ≤ n && n ≤ 0x200a) || n == 0x2028 || n == 0x2029 || n == 0x202f ||
    n == 0x205f || n == 0x3000

namespace Text

def trimStart (t : Text) : Text := t.dropWhile isBlank

def trimEnd (t : Text) : Text := (t.reverse.dropWhile isBlank).reverse

/-- The text without the blanks at its two ends. -/
def trim (t : Text) : Text := trimEnd (trimStart t)

/-- The parts of a text between the occurrences of a character; there is always at least one. -/
def splitAtChar (separator : Char) : Text → List Text
  | [] => [[]]
  | c :: rest =>
      if c = separator then [] :: splitAtChar separator rest
      else match splitAtChar separator rest with
        | [] => [[c]]
        | part :: parts => (c :: part) :: parts

/-- A line break may be written with a carriage return before it. -/
def dropReturn (line : Text) : Text :=
  if line.getLast? = some '\r' then line.dropLast else line

/-- The lines of a split text: a carriage return belongs to the break after it, and a break at
the very end opens no further line. -/
def closeLines : List Text → List Text
  | [] => []
  | [last] => if last.isEmpty then [] else [last]
  | line :: lines => dropReturn line :: closeLines lines

def lines (t : Text) : List Text := closeLines (t.splitAtChar '\n')

/-- Joins lines with single line feeds. -/
def unlines : List Text → Text
  | [] => []
  | [line] => line
  | line :: lines => line ++ '\n' :: unlines lines

/-- What follows `start` in a text that begins with it. -/
def dropPrefix? : (start t : Text) → Option Text
  | [], t => some t
  | _ :: _, [] => none
  | c :: start, d :: t => if c = d then dropPrefix? start t else none

end Text
end SchemaDump
