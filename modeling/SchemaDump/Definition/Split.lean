import SchemaDump.Definition.Identifier
/- The definitions in the body of a table: one fragment for each column or constraint. -/
namespace SchemaDump

/-- The parts of a body between its separators, which are commas at the end of a line. -/
def splitAtSeparators : Text → List Text
  | [] => [[]]
  | ',' :: '\n' :: rest => [] :: splitAtSeparators rest
  | ',' :: '\r' :: '\n' :: rest => [] :: splitAtSeparators rest
  | c :: rest =>
      match splitAtSeparators rest with
      | [] => [[c]]
      | part :: parts => (c :: part) :: parts

/-- A line that holds nothing but a comment. -/
def isCommentLine (line : Text) : Bool := ['-', '-'].isPrefixOf line.trimStart

/-- A fragment without its comment lines and the blanks around it. -/
def cleanFragment (fragment : Text) : Text :=
  (Text.unlines (fragment.lines.filter fun line => !isCommentLine line)).trim

/-- The definitions of a body. One that is written over several lines stays in one piece. -/
def splitDefinitions (body : Text) : List Text :=
  ((splitAtSeparators body).map cleanFragment).filter fun fragment => !fragment.isEmpty

open Pattern in
/-- The words that open a constraint. PostgreSQL takes some of them as column names too, so
there `EXCLUDE` counts only in front of its own continuation. -/
def constraintOpening : Dialect → SqlPattern
  | .mysql =>
      anyOf (["PRIMARY", "UNIQUE", "KEY", "CONSTRAINT", "FOREIGN", "CHECK", "INDEX", "FULLTEXT",
        "SPATIAL"].map keyword) ++ wordEdge
  | .postgresql =>
      alt (anyOf (["PRIMARY", "UNIQUE", "KEY", "CONSTRAINT", "FOREIGN", "CHECK"].map keyword) ++
          wordEdge)
        (keyword "EXCLUDE" ++ gap ++ alt (keyword "USING" ++ wordEdge) (literal "("))

/-- Whether a fragment opens a constraint of the table rather than a column. -/
def opensConstraint (d : Dialect) (fragment : Text) : Bool :=
  ((constraintOpening d).opening? fragment.trimStart).isSome

end SchemaDump
