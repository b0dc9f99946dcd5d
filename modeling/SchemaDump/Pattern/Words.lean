import SchemaDump.Pattern.Search
/- Patterns for keywords, literal text and blanks. -/
namespace SchemaDump

/-- Whether two characters are the same letter up to case. The long s and the Kelvin sign are
the letters beyond ASCII that fold to an ASCII letter. -/
def sameLetter (letter c : Char) : Bool :=
  c == letter || c.toLower == letter.toLower ||
    (c == 'ſ' && letter.toLower == 's') || (c == '\u212a' && letter.toLower == 'k')

namespace Pattern

variable {ι : Type}

def spelled (accepts : Char → Char → Bool) : Text → Pattern ι
  | [] => empty
  | c :: cs => one (accepts c) ++ spelled accepts cs

/-- A text in any letter case. -/
def keyword (text : String) : Pattern ι := spelled sameLetter text.toList

/-- A text character for character. -/
def literal (text : String) : Pattern ι := spelled (fun expected c => c == expected) text.toList

/-- Keywords with blanks between them. -/
def phrase : List String → Pattern ι
  | [] => empty
  | [word] => keyword word
  | word :: words => keyword word ++ run1 isBlank .longest ++ phrase words

/-- Blanks that may be missing. -/
def gap : Pattern ι := run isBlank .longest

/-- At least one blank. -/
def blanks : Pattern ι := run1 isBlank .longest

/-- Any character but the given ones. -/
def noneOf (excluded : Text) (c : Char) : Bool := !excluded.contains c

end Pattern
end SchemaDump
