import SchemaDump.Proofs.Definition.Marker
/- What is left of a text when a pattern is taken off wherever it is read, or wherever it is read at the top level.
Texts are gone through piece by piece, each with what follows it in sight, and what is left of them is put together
again. A text where the pattern cannot begin is gone through in the same way behind any other text. -/
namespace SchemaDump
open SqlPattern Pattern

variable {p : SqlPattern} {counts : Nesting → Bool} {n : Nesting} {before : Option Char} {t u v w x kept more : Text}
  {found also : Bool} {ps : List (Part × Text)}

def Nesting.isOutermost (n : Nesting) : Bool := n == .outermost

/-- In front of `v` a search goes through a text. What it reads at a place that counts is taken off, the rest is
kept. -/
inductive SqlPattern.Takes (p : SqlPattern) (counts : Nesting → Bool) (v : Text) :
    Nesting → Option Char → Text → Text → Bool → Prop
  | done {n : Nesting} {before : Option Char} : Takes p counts v n before [] [] false
  | character {n : Nesting} {before : Option Char} {c : Char} {u kept : Text} {found : Bool} :
      p.read? before (c :: (u ++ v)) = none → Takes p counts v (n.next c) (some c) u kept found →
        Takes p counts v n before (c :: u) (c :: kept) found
  | passed {n : Nesting} {before : Option Char} {w u kept : Text} {ps : List (Part × Text)} {found : Bool} :
      counts n = false → p.read? before (w ++ (u ++ v)) = some ⟨w, ps, u ++ v⟩ →
        Takes p counts v (w.foldl Nesting.next n) (lastOf before w) u kept found →
          Takes p counts v n before (w ++ u) (w ++ kept) found
  | taken {n : Nesting} {before : Option Char} {w u kept : Text} {ps : List (Part × Text)} {found : Bool} :
      counts n → p.read? before (w ++ (u ++ v)) = some ⟨w, ps, u ++ v⟩ →
        Takes p counts v (w.foldl Nesting.next n) (lastOf before w) u kept found →
          Takes p counts v n before (w ++ u) kept true

/-- In front of `v` nothing is read at the top level of a text, and nothing that is read in it goes on behind it. -/
def SqlPattern.Spares (p : SqlPattern) (u v : Text) : Prop :=
  p.ReadsWithin none u v ∧ ∀ i < u.length, (u.take i).foldl Nesting.next .outermost = .outermost →
    p.read? (lastOf none (u.take i)) (u.drop i ++ v) = none

instance (p : SqlPattern) (u v : Text) : Decidable (p.Spares u v) := inferInstanceAs (Decidable (_ ∧ _))

namespace SqlPattern

theorem Spares.passes (hp : p.Consumes) (h : p.Spares u v) : p.Passes v .outermost none u := by
  refine passes_of_readsWithin hp h.1 fun x y hxy hy hn => ?_
  have hpositive := List.length_pos_iff.mpr hy
  have hnone := h.2 x.length (by rw [hxy, List.length_append]; omega)
  rw [hxy, List.take_left, List.drop_left] at hnone
  exact hnone hn

theorem Passes.takes (h : p.Passes v n before u) : p.Takes Nesting.isOutermost v n before u u false := by
  induction h with
  | done => exact .done
  | character hnone _ ih => exact .character hnone ih
  | nested hdeep hread _ ih => exact .passed (beq_eq_false_iff_ne.mpr hdeep) hread ih

theorem takes_of_silent (h : p.Silent before u v) : p.Takes counts v n before u u false := by
  induction u generalizing n before with
  | nil => exact .done
  | cons c u ih => exact .character h.1 (ih h.2)

theorem takes_of_reads (hcounts : counts n) (h : p.Reads w v ps) : p.Takes counts v n before w [] true := by
  have hread : p.read? before (w ++ ([] ++ v)) = some ⟨w, ps, [] ++ v⟩ := h before
  have htaken := Takes.taken hcounts hread .done
  rwa [List.append_nil] at htaken

theorem Takes.append (hu : p.Takes counts (w ++ v) n before u kept found)
    (hw : p.Takes counts v (u.foldl Nesting.next n) (lastOf before u) w more also) :
    p.Takes counts v n before (u ++ w) (kept ++ more) (found || also) := by
  induction hu with
  | done => exact hw
  | @character n before c u kept found hnone _ ih =>
      have hstep : p.read? before (c :: ((u ++ w) ++ v)) = none := by rwa [List.append_assoc]
      exact .character hstep (ih hw)
  | @passed n before r u kept ps found hcounts hread _ ih =>
      have hstep : p.read? before (r ++ ((u ++ w) ++ v)) = some ⟨r, ps, (u ++ w) ++ v⟩ := by
        rwa [List.append_assoc]
      rw [List.foldl_append, lastOf_append] at hw
      rw [List.append_assoc, List.append_assoc]
      exact .passed hcounts hstep (ih hw)
  | @taken n before r u kept ps found hcounts hread _ ih =>
      have hstep : p.read? before (r ++ ((u ++ w) ++ v)) = some ⟨r, ps, (u ++ w) ++ v⟩ := by
        rwa [List.append_assoc]
      rw [List.foldl_append, lastOf_append] at hw
      rw [List.append_assoc, Bool.true_or]
      exact .taken hcounts hstep (ih hw)

theorem exists_takes (hp : p.Consumes) (counts : Nesting → Bool) (n : Nesting) (before : Option Char) (t : Text) :
    ∃ kept found, p.Takes counts [] n before t kept found := by
  -- on the length of the text, since a step may read several characters
  induction hlength : t.length using Nat.strongRecOn generalizing n before t with
  | _ length ih =>
    cases hread : p.read? before t with
    | none =>
        cases t with
        | nil => exact ⟨[], false, .done⟩
        | cons c u =>
            obtain ⟨kept, found, htakes⟩ := ih u.length (hlength ▸ Nat.lt_succ_self _) (n.next c) (some c) u rfl
            exact ⟨c :: kept, found, .character (by rwa [List.append_nil]) htakes⟩
    | some r =>
        have htext := read?_text hread
        have hpositive := List.length_pos_iff.mpr (hp _ _ _ (mem_of_read? hread))
        have hshort : r.rest.length < length := by
          rw [← hlength, ← htext, List.length_append]
          omega
        obtain ⟨kept, found, htakes⟩ := ih _ hshort (r.read.foldl Nesting.next n) (lastOf before r.read) r.rest rfl
        have hstep : p.read? before (r.read ++ (r.rest ++ [])) = some ⟨r.read, r.parts, r.rest ++ []⟩ := by
          rw [List.append_nil, htext, hread]
        rw [← htext]
        cases hcounts : counts n with
        | false => exact ⟨_, found, .passed hcounts hstep htakes⟩
        | true => exact ⟨kept, true, .taken hcounts hstep htakes⟩

theorem cutFrom_append (w behind later : Text) {spans : List Span} (h : ∀ s ∈ spans, s.start.ahead.length ≤ u.length) :
    cutFrom ⟨behind, w ++ u⟩ spans = w ++ cutFrom ⟨later, u⟩ spans := by
  cases spans with
  | nil => rfl
  | cons s spans =>
      have hle := h s List.mem_cons_self
      have htext : (Span.mk ⟨behind, w ++ u⟩ s.start).text = w ++ (Span.mk ⟨later, u⟩ s.start).text := by
        simp only [Span.text, List.length_append]
        rw [Nat.add_sub_assoc hle, List.take_length_add_append]
      rw [cutFrom, cutFrom, htext, List.append_assoc]

theorem length_ahead_le {bound : Text} {place : Cursor} {o : Occurrence Part} (h : o ∈ p.occurrencesFrom bound place) :
    o.start.ahead.length ≤ place.ahead.length := by
  induction bound generalizing place with
  | nil => cases h
  | cons _ bound ih =>
      rw [occurrencesFrom] at h
      cases hat : p.at? place with
      | some found =>
          obtain ⟨hread, hstart, hstop⟩ := at?_eq_some hat
          rw [hat] at h
          rcases List.mem_cons.mp h with rfl | h
          · rw [hstart]
          · have htext := congrArg List.length (read?_text hread)
            have hle := ih h
            rw [hstop] at hle
            rw [List.length_append] at htext
            exact Nat.le_trans hle (by simp only; omega)
      | none =>
          rw [hat] at h
          rcases place with ⟨behind, ahead⟩
          cases ahead with
          | nil => cases h
          | cons c ahead => exact Nat.le_succ_of_le (ih h)

/-- The stretches that are found from a place on and count. -/
def spansFrom (p : SqlPattern) (counts : Nesting → Bool) (bound : Text) (place : Cursor) : List Span :=
  ((p.occurrencesFrom bound place).filter fun o => counts (Nesting.after o.before)).map (·.toSpan)

theorem length_ahead_spansFrom (p : SqlPattern) (counts : Nesting → Bool) (bound : Text) (place : Cursor) :
    ∀ s ∈ p.spansFrom counts bound place, s.start.ahead.length ≤ place.ahead.length := by
  intro s hs
  obtain ⟨o, ho, rfl⟩ := List.mem_map.mp hs
  exact length_ahead_le (List.mem_filter.mp ho).1

theorem spansFrom_of_none (counts : Nesting → Bool) {c : Char} {bound : Text}
    (hnone : p.read? (lastOf none x) (c :: u) = none)
    (hbound : (c :: u).length ≤ bound.length) :
    ∃ rest : Text, u.length ≤ rest.length ∧
      p.spansFrom counts bound ⟨x.reverse, c :: u⟩ = p.spansFrom counts rest ⟨(x ++ [c]).reverse, u⟩ := by
  obtain ⟨d, rest, rfl⟩ := List.exists_cons_of_ne_nil (l := bound) (by rintro rfl; simp at hbound)
  have hhead : x.reverse.head? = lastOf none x := by rw [head?_eq_lastOf_reverse, List.reverse_reverse]
  have hat : p.at? ⟨x.reverse, c :: u⟩ = none := at?_eq_none_iff.mpr (by rwa [hhead])
  refine ⟨rest, by simpa using hbound, ?_⟩
  rw [spansFrom, occurrencesFrom, hat, List.reverse_concat]
  rfl

/-- What is read at a place is the next stretch, unless it lies too deep. -/
theorem spansFrom_of_read? (counts : Nesting → Bool) (hp : p.Consumes) {bound : Text}
    (hread : p.read? (lastOf none x) (w ++ u) = some ⟨w, ps, u⟩) (hbound : (w ++ u).length ≤ bound.length) :
    ∃ rest : Text, u.length ≤ rest.length ∧ p.spansFrom counts bound ⟨x.reverse, w ++ u⟩ =
      (if counts (Nesting.after x) then [⟨⟨x.reverse, w ++ u⟩, ⟨(x ++ w).reverse, u⟩⟩] else []) ++
        p.spansFrom counts rest ⟨(x ++ w).reverse, u⟩ := by
  have hhead : x.reverse.head? = lastOf none x := by rw [head?_eq_lastOf_reverse, List.reverse_reverse]
  obtain ⟨o, ho, hreading⟩ := exists_at?_of_read? ⟨x.reverse, w ++ u⟩ (by rw [hhead]; exact hread)
  obtain ⟨-, hstart, hstop⟩ := at?_eq_some ho
  have hw : 0 < w.length := List.length_pos_iff.mpr (hp _ _ _ (mem_of_read? hread))
  rw [List.length_append] at hbound
  obtain ⟨d, rest, rfl⟩ := List.exists_cons_of_ne_nil (List.length_pos_iff.mp (by omega : 0 < bound.length))
  rw [List.length_cons] at hbound
  have hstop : o.stop = ⟨(x ++ w).reverse, u⟩ := by rw [hstop, hreading, List.reverse_append]
  have hspan : o.toSpan = ⟨⟨x.reverse, w ++ u⟩, ⟨(x ++ w).reverse, u⟩⟩ := by rw [← hstart, ← hstop]
  have hnesting : Nesting.after o.before = Nesting.after x := by rw [Span.before, hstart, List.reverse_reverse]
  refine ⟨rest, by omega, ?_⟩
  rw [spansFrom, occurrencesFrom, ho, List.filter_cons, hnesting, ← hspan]
  simp only [hstop]
  split <;> rfl

/-- From a place on, what is cut out is what the search takes off, and what is left is what it keeps. -/
theorem Takes.cutFrom (hp : p.Consumes) (h : p.Takes counts [] n before u kept found) (hn : n = Nesting.after x)
    (hbefore : before = lastOf none x) {bound : Text} (hbound : u.length ≤ bound.length) :
    SchemaDump.cutFrom ⟨x.reverse, u⟩ (p.spansFrom counts bound ⟨x.reverse, u⟩) = kept ∧
      (!(p.spansFrom counts bound ⟨x.reverse, u⟩).isEmpty) = found := by
  induction h generalizing x bound with
  | done =>
      rw [spansFrom, occurrencesFrom_end hp]
      exact ⟨rfl, rfl⟩
  | @character n before c u kept found hnone _ ih =>
      rw [List.append_nil, hbefore] at hnone
      obtain ⟨rest, hrest, hspans⟩ := spansFrom_of_none counts hnone hbound
      obtain ⟨hcut, hfound⟩ := ih (x := x ++ [c]) (by rw [hn, Nesting.after, Nesting.after, List.foldl_append]; rfl)
        (by rw [lastOf_append]; rfl) hrest
      have hle := length_ahead_spansFrom p counts rest ⟨(x ++ [c]).reverse, u⟩
      have hstep := cutFrom_append [c] x.reverse (x ++ [c]).reverse hle
      rw [hspans]
      exact ⟨hstep.trans (congrArg (c :: ·) hcut), hfound⟩
  | @passed n before w u kept ps found hcounts hread _ ih =>
      rw [List.append_nil, hbefore] at hread
      obtain ⟨rest, hrest, hspans⟩ := spansFrom_of_read? counts hp hread hbound
      rw [if_neg (by rw [← hn, hcounts]; decide), List.nil_append] at hspans
      obtain ⟨hcut, hfound⟩ := ih (x := x ++ w) (by rw [hn, Nesting.after, Nesting.after, List.foldl_append])
        (by rw [lastOf_append, hbefore]) hrest
      have hle := length_ahead_spansFrom p counts rest ⟨(x ++ w).reverse, u⟩
      have hstep := cutFrom_append w x.reverse (x ++ w).reverse hle
      rw [hspans]
      exact ⟨hstep.trans (congrArg (w ++ ·) hcut), hfound⟩
  | @taken n before w u kept ps found hcounts hread _ ih =>
      rw [List.append_nil, hbefore] at hread
      obtain ⟨rest, hrest, hspans⟩ := spansFrom_of_read? counts hp hread hbound
      rw [if_pos (hn ▸ hcounts)] at hspans
      obtain ⟨hcut, -⟩ := ih (x := x ++ w) (by rw [hn, Nesting.after, Nesting.after, List.foldl_append])
        (by rw [lastOf_append, hbefore]) hrest
      rw [hspans, List.singleton_append, SchemaDump.cutFrom, hcut]
      exact ⟨by simp [Span.text], rfl⟩

end SqlPattern

theorem Markers.takeAll_of_takes (hp : p.Consumes) (h : p.Takes Nesting.isOutermost [] .outermost none t kept found) :
    Markers.takeAll p t = (kept, found) := by
  obtain ⟨hcut, hfound⟩ := h.cutFrom hp (x := []) rfl rfl (Nat.le_refl _)
  rw [spansFrom, List.isEmpty_map] at hfound
  exact Prod.ext hcut hfound

theorem cut_of_takes (hp : p.Consumes) (h : p.Takes (fun _ => true) [] .outermost none t kept found) :
    cut t ((p.occurrences t).map (·.toSpan)) = kept := by
  have hcut := (h.cutFrom hp (x := []) rfl rfl (Nat.le_refl _)).1
  rwa [spansFrom, List.filter_eq_self.mpr fun _ _ => rfl] at hcut

theorem exists_takes_anew (hp : p.Consumes) (ht : p.Rejects t) (counts : Nesting → Bool) (n : Nesting) :
    ∃ kept found, kept.head? = t.head? ∧ ∀ before, p.Takes counts [] n before t kept found := by
  cases t with
  | nil => exact ⟨[], false, rfl, fun _ => .done⟩
  | cons c u =>
      obtain ⟨kept, found, htakes⟩ := exists_takes hp counts (n.next c) (some c) u
      exact ⟨c :: kept, found, rfl, fun before => .character (by rw [List.append_nil, ht]) htakes⟩

theorem Markers.takeAll_append (hp : p.Consumes) (ht : p.Rejects t)
    (hu : p.Takes Nesting.isOutermost t .outermost none u kept found) (hlevel : Nesting.after u = .outermost) :
    (Markers.takeAll p t).1.head? = t.head? ∧ Markers.takeAll p (u ++ t) =
      (kept ++ (Markers.takeAll p t).1, found || (Markers.takeAll p t).2) := by
  have hlevel : u.foldl Nesting.next .outermost = .outermost := hlevel
  obtain ⟨more, also, hhead, htakes⟩ := exists_takes_anew hp ht Nesting.isOutermost .outermost
  rw [takeAll_of_takes hp (htakes none)]
  refine ⟨hhead, takeAll_of_takes hp (Takes.append (by rwa [List.append_nil]) ?_)⟩
  rw [hlevel]
  exact htakes _

theorem SqlPattern.Takes.level (h : p.Takes (fun _ => true) v n before u kept found) (m : Nesting) :
    p.Takes (fun _ => true) v m before u kept found := by
  induction h generalizing m with
  | done => exact .done
  | character hnone _ ih => exact .character hnone (ih _)
  | passed hcounts => cases hcounts
  | taken _ hread _ ih => exact .taken rfl hread (ih _)

theorem cut_append (hp : p.Consumes) (ht : p.Rejects t) (hu : p.Takes (fun _ => true) t .outermost none u kept found) :
    (cut t ((p.occurrences t).map (·.toSpan))).head? = t.head? ∧
      cut (u ++ t) ((p.occurrences (u ++ t)).map (·.toSpan)) = kept ++ cut t ((p.occurrences t).map (·.toSpan)) := by
  obtain ⟨more, also, hhead, htakes⟩ := exists_takes_anew hp ht (fun _ => true) .outermost
  have hu : p.Takes (fun _ => true) (t ++ []) .outermost none u kept found := by rwa [List.append_nil]
  rw [cut_of_takes hp (htakes none)]
  exact ⟨hhead, cut_of_takes hp (hu.append ((htakes _).level _))⟩

/-- A reference is taken off such a text behind another one that holds none. -/
theorem Markers.takeReference_append (ht : referenceMarker.Rejects t) (hu : referenceMarker.Passes t .outermost none u)
    (hlevel : Nesting.after u = .outermost) :
    (Markers.takeReference t).1.head? = t.head? ∧
      Markers.takeReference (u ++ t) = (u ++ (Markers.takeReference t).1, (Markers.takeReference t).2) := by
  have hp : referenceMarker.Consumes := consumes_of_not_nullable rfl
  have hnone : ∀ {t}, referenceMarker.Passes [] .outermost none t → Markers.takeReference t = (t, none) := fun h => by
    rw [Markers.takeReference, topLevel_of_passes hp h]
  cases t with
  | nil =>
      rw [List.append_nil, hnone hu, hnone .done, List.append_nil]
      exact ⟨rfl, rfl⟩
  | cons c t =>
      have hfirst : ∀ {x y : Text}, t = x ++ y → referenceMarker.Passes y (Nesting.outermost.next c) (some c) x →
          referenceMarker.Passes y .outermost none (c :: x) ∧
          referenceMarker.Passes y .outermost none (u ++ c :: x) := by
        rintro x y rfl hx
        have hlevel : u.foldl Nesting.next .outermost = .outermost := hlevel
        refine ⟨.character (ht _) hx, hu.append ?_⟩
        rw [hlevel]
        exact .character (ht _) hx
      rcases passes_or_read hp (Nesting.outermost.next c) (some c) t with h | ⟨x, w, v, ps, rfl, hx, hlevel', hr⟩
      · obtain ⟨hself, hbehind⟩ := hfirst (List.append_nil t).symm h
        rw [hnone hself, hnone hbehind]
        exact ⟨rfl, rfl⟩
      · obtain ⟨hself, hbehind⟩ := hfirst rfl hx
        have hlast : lastOf none (u ++ c :: x) = lastOf (some c) x := by rw [lastOf_append, lastOf_cons]
        have hbalanced : Nesting.after (u ++ c :: x) = .outermost := by
          rw [Nesting.after] at hlevel ⊢
          rw [List.foldl_append, hlevel]
          exact hlevel'
        obtain ⟨o, os, htop, -, hbefore, hreading, -⟩ := topLevel_eq_cons hp hself hr hlevel'
        obtain ⟨q, qs, htop', -, hbefore', hreading', -⟩ := topLevel_eq_cons hp hbehind (hlast ▸ hr) hbalanced
        have hafter : o.after = v ∧ q.after = v := ⟨congrArg Match.rest hreading, congrArg Match.rest hreading'⟩
        have hparts : ∀ label, q.part label = o.part label := fun label => by
          rw [Occurrence.part_eq, Occurrence.part_eq, hreading, hreading']
        rw [List.append_assoc, List.cons_append] at htop'
        rw [List.cons_append] at htop
        simp only [Markers.takeReference, htop, htop', hbefore, hbefore', hafter.1, hafter.2, hparts]
        exact ⟨rfl, by simp⟩

end SchemaDump
