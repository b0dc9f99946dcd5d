import SchemaDump.Pattern.Search
import SchemaDump.Proofs.Pattern.Reading
/- The matcher finds the readings: an occurrence is the preferred reading at the leftmost place
that has one, and the occurrences of a text are the readings met while scanning it. -/
namespace SchemaDump

variable {ι : Type}

namespace Progress

def texts (s : Progress ι) : List (ι × Text) := s.parts.map fun part => (part.1, part.2.text)

/-- What can be told of a reading's progress without looking at places. -/
def sight (s : Progress ι) : Text × Text × List (ι × Text) :=
  (s.place.behind, s.place.ahead, s.texts)

/-- The same for the progress that a reading makes from `s`. -/
def sightAfter (s : Progress ι) (r : Match ι) : Text × Text × List (ι × Text) :=
  (r.read.reverse ++ s.place.behind, r.rest, r.parts ++ s.texts)

end Progress

theorem Span.text_of_append {behind later read rest : Text} :
    (Span.mk ⟨behind, read ++ rest⟩ ⟨later, rest⟩).text = read := by
  simp [Span.text]

private theorem findSome?_congr_mem {α β : Type} {l : List α} {f g : α → Option β}
    (h : ∀ a ∈ l, f a = g a) : l.findSome? f = l.findSome? g := by
  induction l with
  | nil => rfl
  | cons a l ih =>
      simp only [List.findSome?_cons, h a List.mem_cons_self,
        ih fun b hb => h b (List.mem_cons_of_mem a hb)]

private theorem findSome?_flatMap_eq {α β γ : Type} (l : List α) (f : α → List β)
    (g : β → Option γ) :
    (l.flatMap f).findSome? g = l.findSome? fun a => (f a).findSome? g := by
  induction l with
  | nil => rfl
  | cons a l ih =>
      rw [List.flatMap_cons, List.findSome?_append, ih, List.findSome?_cons]
      cases (f a).findSome? g <;> rfl

namespace Pattern

variable {β : Type}

theorem offerRounds_eq {p : Pattern ι}
    (ih : ∀ (s : Progress ι) (use : Text × Text × List (ι × Text) → Option β),
      p.offerEnds s (fun t => use t.sight) =
        (p.readings s.place.behind.head? s.place.ahead).findSome? fun r => use (s.sightAfter r))
    (bound : Text) (s : Progress ι) (use : Text × Text × List (ι × Text) → Option β) :
    offerRounds p.offerEnds bound s (fun t => use t.sight) =
      (rounds p.readings bound s.place.behind.head? s.place.ahead).findSome? fun r =>
        use (s.sightAfter r) := by
  induction bound generalizing s with
  | nil => simp [offerRounds, rounds, Progress.sightAfter, Progress.sight]
  | cons c bound ihb =>
      -- the rest of the rounds depends on the progress of the first only through its sight
      have first := ih s fun v =>
        (rounds p.readings bound v.1.head? v.2.1).findSome? fun r =>
          use (r.read.reverse ++ v.1, r.rest, r.parts ++ v.2.2)
      have later : (fun t : Progress ι => offerRounds p.offerEnds bound t fun u => use u.sight) =
          fun t => (rounds p.readings bound t.sight.1.head? t.sight.2.1).findSome? fun r =>
            use (r.read.reverse ++ t.sight.1, r.rest, r.parts ++ t.sight.2.2) :=
        funext fun t => ihb t
      rw [offerRounds, later, first, rounds, List.findSome?_append, findSome?_flatMap_eq]
      simp only [Progress.sightAfter, List.findSome?_map, Function.comp_def, Match.andThen_read,
        Match.andThen_rest, Match.andThen_parts, List.reverse_append, List.append_assoc,
        head?_reverse_append, List.findSome?_cons, List.findSome?_nil, List.reverse_nil,
        List.nil_append]
      cases List.findSome? _ (p.readings s.place.behind.head? s.place.ahead) with
      | some b => rfl
      | none => cases h : use s.sight <;> simp only [Progress.sight] at h <;> simp [h]

/-- Offering the ends of a pattern is trying its readings in order. -/
theorem offerEnds_eq (p : Pattern ι) (s : Progress ι)
    (use : Text × Text × List (ι × Text) → Option β) :
    p.offerEnds s (fun t => use t.sight) =
      (p.readings s.place.behind.head? s.place.ahead).findSome? fun r => use (s.sightAfter r) := by
  induction p generalizing s use with
  | empty => simp [offerEnds, readings, Progress.sightAfter, Progress.sight]
  | one accepts =>
      rcases s with ⟨⟨behind, ahead⟩, parts⟩
      cases ahead with
      | nil => rfl
      | cons c ahead =>
          by_cases hc : accepts c <;>
            simp [offerEnds, readings, hc, Progress.sightAfter, Progress.sight, Progress.texts]
  | run accepts preference =>
      cases preference with
      | longest =>
          simp only [offerEnds, readings, Cursor.reachOver_eq, List.append_nil, List.findSome?_map,
            Function.comp_def]
          rfl
      | shortest =>
          simp only [offerEnds, readings, Cursor.offerNearest_eq, List.findSome?_map,
            Function.comp_def]
          rfl
  | wordEdge =>
      by_cases h : s.place.behind.head?.any isWordChar != s.place.ahead.head?.any isWordChar <;>
        simp [offerEnds, readings, Cursor.atWordEdge, h, Progress.sightAfter, Progress.sight]
  | textEnd =>
      by_cases h : s.place.ahead.isEmpty <;>
        simp [offerEnds, readings, h, Progress.sightAfter, Progress.sight]
  | seq p q ihp ihq =>
      have first := ihp s fun v =>
        (q.readings v.1.head? v.2.1).findSome? fun r =>
          use (r.read.reverse ++ v.1, r.rest, r.parts ++ v.2.2)
      have later : (fun t : Progress ι => q.offerEnds t fun u => use u.sight) =
          fun t => (q.readings t.sight.1.head? t.sight.2.1).findSome? fun r =>
            use (r.read.reverse ++ t.sight.1, r.rest, r.parts ++ t.sight.2.2) :=
        funext fun t => ihq t use
      rw [offerEnds, later, first, readings, findSome?_flatMap_eq]
      simp only [Progress.sightAfter, List.findSome?_map, Function.comp_def, Match.andThen_read,
        Match.andThen_rest, Match.andThen_parts, List.reverse_append, List.append_assoc,
        head?_reverse_append]
  | alt p q ihp ihq =>
      simp only [offerEnds, readings, ihp, ihq, List.findSome?_append]
      cases List.findSome? _ (p.readings s.place.behind.head? s.place.ahead) <;> rfl
  | many p ih => exact offerRounds_eq ih s.place.ahead s use
  | part label p ih =>
      have inner := ih s fun v =>
        use (v.1, v.2.1, (label, s.place.ahead.take (s.place.ahead.length - v.2.1.length)) :: v.2.2)
      have outer : (fun t : Progress ι =>
            use ({ t with parts := (label, ⟨s.place, t.place⟩) :: t.parts } : Progress ι).sight) =
          fun t => use (t.sight.1, t.sight.2.1,
            (label, s.place.ahead.take (s.place.ahead.length - t.sight.2.1.length)) ::
              t.sight.2.2) := rfl
      rw [offerEnds, outer, inner, readings, List.findSome?_map]
      apply findSome?_congr_mem
      intro r hr
      have ht := readings_text p _ _ r hr
      have hl : s.place.ahead.length - r.rest.length = r.read.length := by
        rw [← ht, List.length_append]; omega
      have hr : s.place.ahead.take r.read.length = r.read := by
        rw [← ht, List.take_left]
      simp only [Function.comp_apply, Progress.sightAfter, hl, hr, Match.labelled_read,
        Match.labelled_rest, Match.labelled_parts, List.cons_append]

theorem offerRounds_map {γ : Type} (f : β → γ) {p : Pattern ι}
    (ih : ∀ (s : Progress ι) (use : Progress ι → Option β),
      (p.offerEnds s use).map f = p.offerEnds s fun t => (use t).map f)
    (bound : Text) (s : Progress ι) (use : Progress ι → Option β) :
    (offerRounds p.offerEnds bound s use).map f =
      offerRounds p.offerEnds bound s fun t => (use t).map f := by
  induction bound generalizing s with
  | nil => rfl
  | cons c bound ihb =>
      simp only [offerRounds, ← ihb, ← ih]
      cases p.offerEnds s fun t => offerRounds p.offerEnds bound t use <;> rfl

/-- A function of the answer may as well be applied to each acceptance. -/
theorem offerEnds_map {γ : Type} (f : β → γ) (p : Pattern ι) (s : Progress ι)
    (use : Progress ι → Option β) :
    (p.offerEnds s use).map f = p.offerEnds s fun t => (use t).map f := by
  induction p generalizing s use with
  | empty => rfl
  | one accepts =>
      simp only [offerEnds]
      cases s.place.ahead with
      | nil => rfl
      | cons c ahead => by_cases hc : accepts c <;> simp [hc]
  | run accepts preference =>
      cases preference with
      | longest => simp only [offerEnds, List.map_findSome?, Function.comp_def]
      | shortest =>
          simp only [offerEnds, Cursor.offerNearest_eq, List.map_findSome?, Function.comp_def]
  | wordEdge => simp only [offerEnds]; split <;> rfl
  | textEnd => simp only [offerEnds]; split <;> rfl
  | seq p q ihp ihq => simp only [offerEnds, ihp, ihq]
  | alt p q ihp ihq =>
      simp only [offerEnds, ← ihp, ← ihq]
      cases p.offerEnds s use <;> rfl
  | many p ih => exact offerRounds_map f ih s.place.ahead s use
  | part label p ih => simp only [offerEnds, ih]

end Pattern

def Occurrence.reading (o : Occurrence ι) : Match ι :=
  ⟨o.toSpan.text, o.parts.map fun part => (part.1, part.2.text), o.stop.ahead⟩

theorem Occurrence.part?_eq [DecidableEq ι] (o : Occurrence ι) (label : ι) :
    o.part? label = o.reading.part? label := by
  simp only [Occurrence.part?, Match.part?, Occurrence.reading, List.find?_map, Option.map_map]
  rfl

theorem Occurrence.part_eq [DecidableEq ι] (o : Occurrence ι) (label : ι) :
    o.part label = o.reading.part label := by
  rw [Occurrence.part, Match.part, Occurrence.part?_eq]

namespace Pattern

theorem at?_map (p : Pattern ι) (place : Cursor) :
    ((p.at? place).map fun o => (o.start, o.stop, o.reading.parts)) =
      (p.read? place.behind.head? place.ahead).map fun r =>
        (place, ⟨r.read.reverse ++ place.behind, r.rest⟩, r.parts) := by
  have h := offerEnds_eq p ⟨place, []⟩ fun v => some (place, Cursor.mk v.1 v.2.1, v.2.2)
  rw [at?, offerEnds_map]
  refine h.trans ?_
  simp only [read?, Progress.sightAfter, Progress.texts, List.map_nil, List.append_nil]
  cases p.readings place.behind.head? place.ahead <;> rfl

theorem at?_eq_none_iff {p : Pattern ι} {place : Cursor} :
    p.at? place = none ↔ p.read? place.behind.head? place.ahead = none := by
  rw [← Option.map_eq_none_iff (f := fun o : Occurrence ι => (o.start, o.stop, o.reading.parts)),
    at?_map, Option.map_eq_none_iff]

theorem at?_eq_some {p : Pattern ι} {place : Cursor} {o : Occurrence ι}
    (h : p.at? place = some o) :
    p.read? place.behind.head? place.ahead = some o.reading ∧ o.start = place ∧
      o.stop = ⟨o.reading.read.reverse ++ place.behind, o.reading.rest⟩ := by
  have hm := at?_map p place
  rw [h, Option.map_some] at hm
  obtain ⟨r, hr, he⟩ := Option.map_eq_some_iff.mp hm.symm
  simp only [Prod.mk.injEq] at he
  obtain ⟨hstart, hstop, hparts⟩ := he
  have ht : r.read ++ r.rest = place.ahead := by
    apply readings_text p place.behind.head?
    exact List.mem_of_mem_head? hr
  have hspan : o.toSpan =
      ⟨⟨place.behind, r.read ++ r.rest⟩, ⟨r.read.reverse ++ place.behind, r.rest⟩⟩ := by
    rw [ht, hstop, hstart]
  have hreading : o.reading = r := by
    have hread : o.toSpan.text = r.read := by rw [hspan, Span.text_of_append]
    have hrest : o.stop.ahead = r.rest := by rw [← hstop]
    cases r
    simp only [Occurrence.reading, Match.mk.injEq]
    exact ⟨hread, hparts.symm, hrest⟩
  exact ⟨hreading ▸ hr, hstart.symm, hreading ▸ hstop.symm⟩

theorem exists_at?_of_read? {p : Pattern ι} {r : Match ι} (place : Cursor)
    (h : p.read? place.behind.head? place.ahead = some r) :
    ∃ o, p.at? place = some o ∧ o.reading = r := by
  cases ho : p.at? place with
  | none => rw [at?_eq_none_iff, h] at ho; cases ho
  | some o =>
      have hr := (at?_eq_some ho).1
      rw [h] at hr
      exact ⟨o, rfl, (Option.some.inj hr).symm⟩

/-- The readings met while a text is scanned from left to right. -/
def scan (p : Pattern ι) : Text → Option Char → Text → List (Match ι)
  | [], _, _ => []
  | _ :: bound, before, t =>
      match p.read? before t with
      | some r => r :: scan p bound (lastOf before r.read) r.rest
      | none =>
          match t with
          | [] => []
          | c :: t => scan p bound (some c) t

theorem occurrencesFrom_reading (p : Pattern ι) (bound : Text) (place : Cursor) :
    (p.occurrencesFrom bound place).map (·.reading) =
      p.scan bound place.behind.head? place.ahead := by
  induction bound generalizing place with
  | nil => rfl
  | cons _ bound ih =>
      cases ho : p.at? place with
      | none =>
          have hr := at?_eq_none_iff.mp ho
          rcases place with ⟨behind, ahead⟩
          cases ahead with
          | nil => simp [occurrencesFrom, scan, ho, hr]
          | cons c ahead => simp [occurrencesFrom, scan, ho, hr, ih]
      | some o =>
          obtain ⟨hr, -, hstop⟩ := at?_eq_some ho
          simp only [occurrencesFrom, scan, ho, hr, List.map_cons, ih, hstop, head?_reverse_append]

theorem occurrences_reading (p : Pattern ι) (text : Text) :
    (p.occurrences text).map (·.reading) = p.scan text none text :=
  occurrencesFrom_reading p text (.atStart text)

end Pattern
end SchemaDump
