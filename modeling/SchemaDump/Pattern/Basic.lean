import SchemaDump.Text.Basic
import SchemaDump.Text.WordChar
/- Patterns over texts. A pattern can end in several places; they are offered in a fixed order
of preference and the first one that suits all that follows is taken. -/
namespace SchemaDump

/-- A place in a text: what lies before it, nearest character first, and what is still ahead. -/
structure Cursor where
  behind : Text
  ahead : Text
  deriving DecidableEq

namespace Cursor

def atStart (text : Text) : Cursor := ⟨[], text⟩

def text (c : Cursor) : Text := c.behind.reverse ++ c.ahead

/-- A place is at the edge of a word if a word character stands on exactly one side of it. -/
def atWordEdge (c : Cursor) : Bool :=
  c.behind.head?.any isWordChar != c.ahead.head?.any isWordChar

/-- The places reached through characters of a class, farthest first, put before `nearer`. -/
def reachOver (accepts : Char → Bool) (behind : Text) :
    Text → List Cursor → List Cursor
  | [], nearer => ⟨behind, []⟩ :: nearer
  | c :: ahead, nearer =>
      if accepts c then reachOver accepts (c :: behind) ahead (⟨behind, c :: ahead⟩ :: nearer)
      else ⟨behind, c :: ahead⟩ :: nearer

/-- Offers the places reached through characters of a class, nearest first. -/
def offerNearest {β : Type} (accepts : Char → Bool) (use : Cursor → Option β)
    (behind : Text) : Text → Option β
  | [] => use ⟨behind, []⟩
  | c :: ahead =>
      match use ⟨behind, c :: ahead⟩ with
      | some b => some b
      | none => if accepts c then offerNearest accepts use (c :: behind) ahead else none

end Cursor

/-- A stretch of a text, from one place to a later one. -/
structure Span where
  start : Cursor
  stop : Cursor
  deriving DecidableEq

namespace Span

/-- The characters of a stretch. -/
def text (s : Span) : Text :=
  s.start.ahead.take (s.start.ahead.length - s.stop.ahead.length)

/-- Everything before a stretch. -/
def before (s : Span) : Text := s.start.behind.reverse

/-- Everything after a stretch. -/
def after (s : Span) : Text := s.stop.ahead

end Span

/-- Which of the possible lengths of a run of characters is tried first. -/
inductive Preference
  | longest
  | shortest
  deriving DecidableEq

/-- A pattern whose parts of interest carry labels. -/
inductive Pattern (ι : Type) where
  | empty
  | one (accepts : Char → Bool)
  | run (accepts : Char → Bool) (preference : Preference)
  | wordEdge
  | textEnd
  | seq (first second : Pattern ι)
  | alt (preferred other : Pattern ι)
  | many (round : Pattern ι)
  | part (label : ι) (inner : Pattern ι)

/-- How far a pattern has been read, with the labelled parts met so far, the latest first. -/
structure Progress (ι : Type) where
  place : Cursor
  parts : List (ι × Span)

/-- Offers the ends of zero or more rounds, more rounds first. Each round reads something, so
the text ahead bounds their number. -/
def offerRounds {σ β : Type} (round : σ → (σ → Option β) → Option β) :
    Text → σ → (σ → Option β) → Option β
  | [], s, use => use s
  | _ :: bound, s, use =>
      match round s fun t => offerRounds round bound t use with
      | some b => some b
      | none => use s

namespace Pattern

variable {ι : Type}

instance : Append (Pattern ι) := ⟨seq⟩

/-- A part that may be missing but is read where it is present. -/
def maybe (p : Pattern ι) : Pattern ι := alt p empty

/-- A run of at least one character. -/
def run1 (accepts : Char → Bool) (preference : Preference) : Pattern ι :=
  one accepts ++ run accepts preference

/-- The first of several patterns that suits. -/
def anyOf : List (Pattern ι) → Pattern ι
  | [] => one fun _ => false
  | [p] => p
  | p :: ps => alt p (anyOf ps)

/-- Offers the ends of a pattern read from `s` to `use`, preferred ends first, and answers with
the first acceptance. -/
def offerEnds {β : Type} : Pattern ι → Progress ι → (Progress ι → Option β) → Option β
  | empty, s, use => use s
  | one accepts, s, use =>
      match s.place.ahead with
      | [] => none
      | c :: ahead => if accepts c then use { s with place := ⟨c :: s.place.behind, ahead⟩ } else none
  | run accepts .longest, s, use =>
      (Cursor.reachOver accepts s.place.behind s.place.ahead []).findSome?
        fun place => use { s with place }
  | run accepts .shortest, s, use =>
      Cursor.offerNearest accepts (fun place => use { s with place }) s.place.behind s.place.ahead
  | wordEdge, s, use => if s.place.atWordEdge then use s else none
  | textEnd, s, use => if s.place.ahead.isEmpty then use s else none
  | seq p q, s, use => p.offerEnds s fun t => q.offerEnds t use
  | alt p q, s, use =>
      match p.offerEnds s use with
      | some b => some b
      | none => q.offerEnds s use
  | many p, s, use => offerRounds p.offerEnds s.place.ahead s use
  | part label p, s, use =>
      p.offerEnds s fun t => use { t with parts := (label, ⟨s.place, t.place⟩) :: t.parts }

end Pattern
end SchemaDump
