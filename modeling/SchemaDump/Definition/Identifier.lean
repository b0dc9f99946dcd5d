import SchemaDump.Pattern.Words
import SchemaDump.Dialect.Basic
/- Identifiers in definitions, and lists of them. -/
namespace SchemaDump

/-- The parts of a statement or definition that are of interest. -/
inductive Part
  | name
  | quotedName
  | body
  | type
  | options
  | default
  | notNull
  | table
  | columns
  | references
  | constraint
  deriving DecidableEq

/-- A pattern over statements and definitions. -/
abbrev SqlPattern := Pattern Part

namespace SqlPattern
open Pattern

/-- The characters of a bare identifier. -/
def isBareChar (c : Char) : Bool := isWordChar c || c == '$'

/-- Text within a pair of equal quotes, at least one character long. -/
def within (quote : Char) (inner : SqlPattern) : SqlPattern :=
  one (· == quote) ++ inner ++ one (· == quote)

/-- At least one character other than a quote. -/
def unquotedRun (quote : Char) : SqlPattern := run1 (· != quote) .longest

def quotedIdentifier (quote : Char) : SqlPattern := within quote (unquotedRun quote)

/-- One identifier: in double quotes, in back quotes, or bare. -/
def identifier : SqlPattern :=
  anyOf [quotedIdentifier '"', quotedIdentifier backQuote, run1 isBareChar .longest]

/-- An identifier that may be qualified by a schema. -/
def qualified : SqlPattern :=
  identifier ++ maybe (one (· == '.') ++ identifier)

/-- A constraint may be given a name. -/
def constraintName : SqlPattern :=
  maybe (keyword "CONSTRAINT" ++ blanks ++ identifier ++ blanks)

end SqlPattern

/-- The identifier at the start of a list item. What follows it, such as a length or a sort
order, is left out. -/
def leadingIdentifier : Text → Text
  | [] => []
  | c :: rest =>
      if c = '"' || c = backQuote then rest.takeWhile (· != c)
      else (c :: rest).takeWhile fun d => !(isBlank d || d == '(')

/-- The names in a list of identifiers separated by commas; items without a name are skipped. -/
def splitIdentifiers (list : Text) : List String :=
  (list.splitAtChar ',').filterMap fun item =>
    match leadingIdentifier item.trim with
    | [] => none
    | c :: name => some (.ofList (c :: name))

end SchemaDump
