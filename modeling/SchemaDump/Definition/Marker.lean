import SchemaDump.Definition.Identifier
import SchemaDump.Schema.Basic
/- Markers written on a column itself: keys, references and nullability. They count only
outside quoted literals and parentheses. -/
namespace SchemaDump

/-- The target of a key written on a column, with the table as written. -/
structure InlineReference where
  table : String
  columns : List String
  deriving DecidableEq

/-- What is marked on a column. -/
structure Markers where
  primaryKey : Bool := false
  notNull : Bool := false
  reference : Option InlineReference := none
  deriving DecidableEq

namespace SqlPattern
open Pattern

/-- A marker of a key may be named as a constraint. -/
def markerName : SqlPattern :=
  maybe (wordEdge ++ keyword "CONSTRAINT" ++ blanks ++ identifier ++ blanks)

def primaryKeyMarker : SqlPattern :=
  gap ++ markerName ++ wordEdge ++ phrase ["PRIMARY", "KEY"] ++ wordEdge

/-- What a reference says on deletion and update. -/
def referenceAction : SqlPattern :=
  blanks ++ keyword "ON" ++ blanks ++ anyOf [keyword "DELETE", keyword "UPDATE"] ++ blanks ++
    anyOf [keyword "CASCADE", keyword "RESTRICT", phrase ["NO", "ACTION"], phrase ["SET", "NULL"],
      phrase ["SET", "DEFAULT"]]

def referenceMarker : SqlPattern :=
  gap ++ markerName ++ wordEdge ++ keyword "REFERENCES" ++ blanks ++ part .table qualified ++
    gap ++ literal "(" ++ part .columns (run (· != ')') .longest) ++ literal ")" ++
    maybe (blanks ++ keyword "MATCH" ++ blanks ++
      anyOf [keyword "FULL", keyword "PARTIAL", keyword "SIMPLE"]) ++
    many referenceAction

def notNullMarker : SqlPattern := gap ++ wordEdge ++ phrase ["NOT", "NULL"] ++ wordEdge

def nullMarker : SqlPattern := gap ++ wordEdge ++ keyword "NULL" ++ wordEdge

end SqlPattern

/-- How deep a place lies: inside a quoted literal or not, and in how many parentheses. -/
structure Nesting where
  inLiteral : Bool
  depth : Nat
  deriving DecidableEq

namespace Nesting

def outermost : Nesting := ⟨false, 0⟩

/-- The nesting after one more character. Parentheses in a literal do not count. -/
def next (n : Nesting) (c : Char) : Nesting :=
  if c = '\'' then { n with inLiteral := !n.inLiteral }
  else if n.inLiteral then n
  else if c = '(' then { n with depth := n.depth + 1 }
  else if c = ')' then { n with depth := n.depth - 1 }
  else n

/-- The nesting at the end of a text. -/
def after (text : Text) : Nesting := text.foldl next outermost

end Nesting

/-- Whether a stretch starts outside quoted literals and parentheses. -/
def Span.isTopLevel (s : Span) : Bool := Nesting.after s.before == .outermost

/-- The top-level occurrences of a pattern in a text. -/
def SqlPattern.topLevel (p : SqlPattern) (text : Text) : List (Occurrence Part) :=
  (p.occurrences text).filter fun o => o.isTopLevel

namespace Markers

/-- Removes every top-level occurrence of a marker and tells whether there was one. -/
def takeAll (marker : SqlPattern) (text : Text) : Text × Bool :=
  let found := marker.topLevel text
  (cut text (found.map (·.toSpan)), !found.isEmpty)

/-- Removes the first top-level reference. One without columns is removed but not reported. -/
def takeReference (text : Text) : Text × Option InlineReference :=
  match SqlPattern.referenceMarker.topLevel text with
  | [] => (text, none)
  | o :: _ =>
      (o.before ++ o.after,
        match splitIdentifiers (o.part .columns) with
        | [] => none
        | columns => some ⟨.ofList (o.part .table), columns⟩)

/-- Separates the markers in a fragment from the rest of it. -/
def take (bareNull : Bool) (fragment : Text) : Text × Markers :=
  let (text, reference) := takeReference fragment
  let (text, primaryKey) := takeAll .primaryKeyMarker text
  let (text, notNull) := takeAll .notNullMarker text
  let text := if bareNull then (takeAll .nullMarker text).1 else text
  (text.trim, { primaryKey, notNull, reference })

/-- The markers of two fragments of one column; of two references the first counts. -/
def merge (a b : Markers) : Markers where
  primaryKey := a.primaryKey || b.primaryKey
  notNull := a.notNull || b.notNull
  reference := a.reference <|> b.reference

/-- Markers in the type of a column and in its default. A bare `NULL` is a marker only in the
type, since as a default it is a value. -/
def ofColumn (type : Text) (default : Option Text) : Text × Option Text × Markers :=
  let (type, markers) := take true type
  match default with
  | none => (type, none, markers)
  | some raw =>
      let (value, more) := take false raw
      (type, some value, markers.merge more)

/-- The foreign key that a reference on a column declares: its first referenced column. -/
def foreignKey? (m : Markers) (d : Dialect) (column : String) : Option ForeignKey :=
  match m.reference with
  | some ⟨table, target :: _⟩ => some ⟨column, d.normalizeName table.toList, target⟩
  | _ => none

end Markers
end SchemaDump
