import SchemaDump.Pattern.Words
/- What a pattern reads, told from texts alone. The readings of a pattern stand in the order in
which the matcher offers its ends, so the first of them is the one an occurrence takes. -/
namespace SchemaDump

variable {ι : Type}

/-- A stretch of text that a pattern reads, the texts of its labelled parts, the latest first,
and the text that is left. -/
structure Match (ι : Type) where
  read : Text
  parts : List (ι × Text)
  rest : Text
  deriving DecidableEq

namespace Match

/-- The reading `r` followed by the reading `q` of what `r` left. -/
def andThen (r q : Match ι) : Match ι := ⟨r.read ++ q.read, q.parts ++ r.parts, q.rest⟩

def labelled (label : ι) (r : Match ι) : Match ι :=
  { r with parts := (label, r.read) :: r.parts }

def part? [DecidableEq ι] (r : Match ι) (label : ι) : Option Text :=
  (r.parts.find? fun part => part.1 = label).map (·.2)

/-- The text of a labelled part; empty if there is none. -/
def part [DecidableEq ι] (r : Match ι) (label : ι) : Text := (r.part? label).getD []

@[simp] theorem andThen_read (r q : Match ι) : (r.andThen q).read = r.read ++ q.read := rfl
@[simp] theorem andThen_parts (r q : Match ι) : (r.andThen q).parts = q.parts ++ r.parts := rfl
@[simp] theorem andThen_rest (r q : Match ι) : (r.andThen q).rest = q.rest := rfl
@[simp] theorem labelled_read (l : ι) (r : Match ι) : (r.labelled l).read = r.read := rfl
@[simp] theorem labelled_rest (l : ι) (r : Match ι) : (r.labelled l).rest = r.rest := rfl
@[simp] theorem labelled_parts (l : ι) (r : Match ι) :
    (r.labelled l).parts = (l, r.read) :: r.parts := rfl

theorem andThen_assoc (r q s : Match ι) :
    (r.andThen q).andThen s = r.andThen (q.andThen s) := by
  simp only [andThen, List.append_assoc]

end Match

/-- The character before a place: the last one read, or the one before that if nothing is. -/
def lastOf : Option Char → Text → Option Char
  | before, [] => before
  | _, c :: t => lastOf (some c) t

@[simp] theorem lastOf_nil (before : Option Char) : lastOf before [] = before := rfl

@[simp] theorem lastOf_cons (before : Option Char) (c : Char) (t : Text) :
    lastOf before (c :: t) = lastOf (some c) t := rfl

@[simp] theorem lastOf_append (before : Option Char) (s t : Text) :
    lastOf before (s ++ t) = lastOf (lastOf before s) t := by
  induction s generalizing before with
  | nil => rfl
  | cons c s ih => exact ih (some c)

theorem lastOf_eq (before : Option Char) (t : Text) : lastOf before t = t.getLast?.or before := by
  induction t generalizing before with
  | nil => rfl
  | cons c t ih =>
      rw [lastOf_cons, ih, List.getLast?_cons]
      cases t.getLast? <;> rfl

theorem head?_reverse_append (s behind : Text) :
    (s.reverse ++ behind).head? = lastOf behind.head? s := by
  induction s generalizing behind with
  | nil => rfl
  | cons c s ih => simpa using ih (c :: behind)

/-- The ways to cut a text after characters of a class, nearest first. -/
def stretches (accepts : Char → Bool) : Text → List (Text × Text)
  | [] => [([], [])]
  | c :: t =>
      ([], c :: t) :: if accepts c then (stretches accepts t).map fun s => (c :: s.1, s.2) else []

theorem mem_stretches {accepts : Char → Bool} {t : Text} {s : Text × Text} :
    s ∈ stretches accepts t ↔ s.1 ++ s.2 = t ∧ ∀ c ∈ s.1, accepts c := by
  induction t generalizing s with
  | nil =>
      rcases s with ⟨a, b⟩
      simp only [stretches, List.mem_singleton, Prod.mk.injEq, List.append_eq_nil_iff]
      constructor
      · rintro ⟨rfl, rfl⟩; simp
      · exact fun h => h.1
  | cons c t ih =>
      rcases s with ⟨a, b⟩
      by_cases hc : accepts c
      · simp only [stretches, hc, if_true, List.mem_cons, List.mem_map, Prod.mk.injEq]
        constructor
        · rintro (⟨rfl, rfl⟩ | ⟨⟨a', b'⟩, hm, rfl, rfl⟩)
          · simp
          · obtain ⟨rfl, ha⟩ := ih.mp hm
            refine ⟨rfl, ?_⟩
            intro d hd
            rcases List.mem_cons.mp hd with rfl | hd
            · exact hc
            · exact ha d hd
        · rintro ⟨h, ha⟩
          cases a with
          | nil => exact .inl ⟨rfl, h⟩
          | cons d a =>
              simp only [List.cons_append, List.cons.injEq] at h
              obtain ⟨rfl, rfl⟩ := h
              exact .inr ⟨(a, b), ih.mpr ⟨rfl, fun e he => ha e (List.mem_cons_of_mem _ he)⟩, rfl, rfl⟩
      · simp only [stretches, hc, Bool.false_eq_true, if_false, List.mem_singleton, Prod.mk.injEq]
        constructor
        · rintro ⟨rfl, rfl⟩; simp
        · rintro ⟨h, ha⟩
          cases a with
          | nil => exact ⟨rfl, h⟩
          | cons d a =>
              simp only [List.cons_append, List.cons.injEq] at h
              obtain ⟨rfl, -⟩ := h
              exact absurd (ha d List.mem_cons_self) hc

namespace Cursor

theorem reachOver_eq (accepts : Char → Bool) (behind ahead : Text) (nearer : List Cursor) :
    reachOver accepts behind ahead nearer =
      ((stretches accepts ahead).reverse.map fun s => ⟨s.1.reverse ++ behind, s.2⟩) ++ nearer := by
  induction ahead generalizing behind nearer with
  | nil => rfl
  | cons c ahead ih =>
      by_cases hc : accepts c
      · simp [reachOver, stretches, hc, ih, List.map_reverse, Function.comp_def]
      · simp [reachOver, stretches, hc]

theorem offerNearest_eq {β : Type} (accepts : Char → Bool) (use : Cursor → Option β)
    (behind ahead : Text) :
    offerNearest accepts use behind ahead =
      (stretches accepts ahead).findSome? fun s => use ⟨s.1.reverse ++ behind, s.2⟩ := by
  induction ahead generalizing behind with
  | nil => cases h : use ⟨behind, []⟩ <;> simp [offerNearest, stretches, h]
  | cons c ahead ih =>
      cases h : use ⟨behind, c :: ahead⟩ with
      | some b => simp [offerNearest, stretches, h]
      | none =>
          by_cases hc : accepts c
          · simp [offerNearest, stretches, hc, h, ih, List.findSome?_map, Function.comp_def]
          · simp [offerNearest, stretches, hc, h]

end Cursor

namespace Pattern

/-- The readings of zero or more rounds, more rounds first. -/
def rounds (round : Option Char → Text → List (Match ι)) :
    Text → Option Char → Text → List (Match ι)
  | [], _, t => [⟨[], [], t⟩]
  | _ :: bound, before, t =>
      ((round before t).flatMap fun r =>
        (rounds round bound (lastOf before r.read) r.rest).map r.andThen) ++ [⟨[], [], t⟩]

/-- The readings of a pattern at the start of a text that stands behind a character, the
preferred one first. -/
def readings : Pattern ι → Option Char → Text → List (Match ι)
  | empty, _, t => [⟨[], [], t⟩]
  | one _, _, [] => []
  | one accepts, _, c :: t => if accepts c then [⟨[c], [], t⟩] else []
  | run accepts .longest, _, t =>
      (stretches accepts t).reverse.map fun s => ⟨s.1, [], s.2⟩
  | run accepts .shortest, _, t => (stretches accepts t).map fun s => ⟨s.1, [], s.2⟩
  | wordEdge, before, t =>
      if before.any isWordChar != t.head?.any isWordChar then [⟨[], [], t⟩] else []
  | textEnd, _, t => if t.isEmpty then [⟨[], [], t⟩] else []
  | seq p q, before, t =>
      (p.readings before t).flatMap fun r =>
        (q.readings (lastOf before r.read) r.rest).map r.andThen
  | alt p q, before, t => p.readings before t ++ q.readings before t
  | many p, before, t => rounds p.readings t before t
  | part label p, before, t => (p.readings before t).map (·.labelled label)

def read? (p : Pattern ι) (before : Option Char) (t : Text) : Option (Match ι) :=
  (p.readings before t).head?

theorem rounds_text {round : Option Char → Text → List (Match ι)}
    (h : ∀ before t, ∀ r ∈ round before t, r.read ++ r.rest = t) (bound : Text)
    (before : Option Char) (t : Text) :
    ∀ r ∈ rounds round bound before t, r.read ++ r.rest = t := by
  induction bound generalizing before t with
  | nil => simp [rounds]
  | cons _ bound ih =>
      intro r hr
      simp only [rounds, List.mem_append, List.mem_flatMap, List.mem_map, List.mem_singleton] at hr
      rcases hr with ⟨q, hq, s, hs, rfl⟩ | rfl
      · rw [Match.andThen_read, Match.andThen_rest, List.append_assoc, ih _ _ s hs, h _ _ q hq]
      · rfl

/-- What is read and what is left make up the text. -/
theorem readings_text (p : Pattern ι) (before : Option Char) (t : Text) :
    ∀ r ∈ p.readings before t, r.read ++ r.rest = t := by
  induction p generalizing before t with
  | empty => simp [readings]
  | one accepts =>
      cases t with
      | nil => simp [readings]
      | cons c t => by_cases hc : accepts c <;> simp [readings, hc]
  | run accepts preference =>
      intro r hr
      cases preference <;>
        simp only [readings, List.map_reverse, List.mem_reverse, List.mem_map] at hr <;>
        · obtain ⟨s, hs, rfl⟩ := hr
          exact (mem_stretches.mp hs).1
  | wordEdge => simp only [readings]; split <;> simp
  | textEnd => simp only [readings]; split <;> simp
  | seq p q ihp ihq =>
      intro r hr
      simp only [readings, List.mem_flatMap, List.mem_map] at hr
      obtain ⟨a, ha, b, hb, rfl⟩ := hr
      rw [Match.andThen_read, Match.andThen_rest, List.append_assoc, ihq _ _ b hb, ihp _ _ a ha]
  | alt p q ihp ihq =>
      intro r hr
      rcases List.mem_append.mp hr with h | h
      · exact ihp _ _ r h
      · exact ihq _ _ r h
  | many p ih => exact rounds_text (fun _ _ => ih _ _) t before t
  | part label p ih =>
      intro r hr
      simp only [readings, List.mem_map] at hr
      obtain ⟨a, ha, rfl⟩ := hr
      exact ih _ _ a ha

end Pattern
end SchemaDump
