import SchemaDump.Pattern.Basic
/- Where a pattern occurs in a text: the leftmost place first, and in each place the preferred
end. Occurrences do not overlap. -/
namespace SchemaDump

/-- An occurrence of a pattern with the stretches of its labelled parts. -/
structure Occurrence (ι : Type) extends Span where
  parts : List (ι × Span)

/-- The text of a labelled part, if the occurrence has one. -/
def Occurrence.part? {ι : Type} [DecidableEq ι] (o : Occurrence ι) (label : ι) :
    Option (Text) :=
  (o.parts.find? fun part => part.1 = label).map fun part => part.2.text

/-- The text of a labelled part; empty if there is none. -/
def Occurrence.part {ι : Type} [DecidableEq ι] (o : Occurrence ι) (label : ι) : Text :=
  (o.part? label).getD []

namespace Pattern

variable {ι : Type}

/-- The preferred occurrence that starts at a place. -/
def at? (p : Pattern ι) (place : Cursor) : Option (Occurrence ι) :=
  p.offerEnds ⟨place, []⟩ fun s => some { start := place, stop := s.place, parts := s.parts }

/-- The preferred occurrence at the start of a text. -/
def opening? (p : Pattern ι) (text : Text) : Option (Occurrence ι) :=
  p.at? (.atStart text)

def findFrom? (p : Pattern ι) (behind : Text) : Text → Option (Occurrence ι)
  | [] => p.at? ⟨behind, []⟩
  | c :: ahead =>
      match p.at? ⟨behind, c :: ahead⟩ with
      | some o => some o
      | none => p.findFrom? (c :: behind) ahead

/-- The leftmost occurrence in a text. -/
def find? (p : Pattern ι) (text : Text) : Option (Occurrence ι) := p.findFrom? [] text

def occursIn (p : Pattern ι) (text : Text) : Bool := (p.find? text).isSome

/-- Occurrences from a place on, each starting where the one before ended or later. Every step
reads a character, so the text ahead bounds their number. -/
def occurrencesFrom (p : Pattern ι) : Text → Cursor → List (Occurrence ι)
  | [], _ => []
  | _ :: bound, place =>
      match p.at? place with
      | some o => o :: p.occurrencesFrom bound o.stop
      | none =>
          match place.ahead with
          | [] => []
          | c :: ahead => p.occurrencesFrom bound ⟨c :: place.behind, ahead⟩

/-- All occurrences in a text, from left to right. -/
def occurrences (p : Pattern ι) (text : Text) : List (Occurrence ι) :=
  p.occurrencesFrom text (.atStart text)

end Pattern

/-- The text ahead of a place without the given stretches, which stand in order. -/
def cutFrom (place : Cursor) : List Span → Text
  | [] => place.ahead
  | span :: spans => (Span.mk place span.start).text ++ cutFrom span.stop spans

/-- A text without the given stretches of it, which stand in order. -/
def cut (text : Text) (spans : List Span) : Text := cutFrom (.atStart text) spans

end SchemaDump
