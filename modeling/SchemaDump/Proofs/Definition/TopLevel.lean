import SchemaDump.Definition.Marker
import SchemaDump.Proofs.Pattern.Find
import SchemaDump.Proofs.Pattern.Seam
/- Top-level occurrences. A search passes over a literal or a parenthesis if nothing that it finds in there
goes on behind it; it may find what it likes inside. -/
namespace SchemaDump
open SqlPattern Pattern

/-- Whatever is read from a place in `u` on ends in `u`. -/
def SqlPattern.ReadsWithin (p : SqlPattern) (before : Option Char) (u v : Text) : Prop :=
  ∀ i < u.length, ∀ r ∈ p.read? (lastOf before (u.take i)) (u.drop i ++ v), i + r.read.length ≤ u.length

instance (p : SqlPattern) (before : Option Char) (u v : Text) : Decidable (p.ReadsWithin before u v) :=
  inferInstanceAs (Decidable (∀ i < u.length, ∀ r ∈ p.read? (lastOf before (u.take i)) (u.drop i ++ v),
    i + r.read.length ≤ u.length))

variable {p : SqlPattern} {n : Nesting} {before : Option Char} {t u v w x : Text} {ps : List (Part × Text)}

/-- In front of `v` a search passes over a text at some nesting: whatever it finds in the text lies deeper than
the top level and ends in the text. -/
inductive SqlPattern.Passes (p : SqlPattern) (v : Text) : Nesting → Option Char → Text → Prop
  | done {n : Nesting} {before : Option Char} : Passes p v n before []
  | character {n : Nesting} {before : Option Char} {c : Char} {u : Text} :
      p.read? before (c :: (u ++ v)) = none → Passes p v (n.next c) (some c) u → Passes p v n before (c :: u)
  | nested {n : Nesting} {before : Option Char} {w u : Text} {ps : List (Part × Text)} : n ≠ .outermost →
      p.read? before (w ++ (u ++ v)) = some ⟨w, ps, u ++ v⟩ →
        Passes p v (w.foldl Nesting.next n) (lastOf before w) u → Passes p v n before (w ++ u)

namespace SqlPattern

theorem foldl_next_of_plain (h : ∀ c ∈ t, c ≠ '\'' ∧ c ≠ '(' ∧ c ≠ ')') (n : Nesting) :
    t.foldl Nesting.next n = n := by
  induction t with
  | nil => rfl
  | cons c t ih =>
      obtain ⟨hquote, hopen, hclose⟩ := h c List.mem_cons_self
      have hnext : n.next c = n := by simp [Nesting.next, hquote, hopen, hclose]
      rw [List.foldl_cons, hnext]
      exact ih fun d hd => h d (List.mem_cons_of_mem c hd)

theorem topLevel_of_silent (h : p.Silent none t []) : p.topLevel t = [] := by
  rw [topLevel, occurrences_eq_nil_of_silent h]
  rfl

theorem isTopLevel_of_balanced {o : Occurrence Part} (h : Nesting.after o.before = .outermost) :
    o.isTopLevel = true := by
  rw [Span.isTopLevel, h]
  rfl

theorem topLevel_eq_singleton (hp : p.Consumes) (hu : p.Silent none u (w ++ v)) (hw : p.Reads w v ps)
    (hv : p.Silent (lastOf (lastOf none u) w) v []) (hbalanced : Nesting.after u = .outermost) :
    ∃ o ∈ p.occurrences (u ++ (w ++ v)), p.topLevel (u ++ (w ++ v)) = [o] ∧ o.before = u ∧
      o.reading = ⟨w, ps, v⟩ := by
  obtain ⟨o, ho, hreading, hbefore⟩ := occurrences_eq_singleton hp hu (hw _) hv
  refine ⟨o, by rw [ho]; exact List.mem_singleton_self o, ?_, hbefore, hreading⟩
  rw [topLevel, ho]
  exact List.filter_cons_of_pos (isTopLevel_of_balanced (hbefore ▸ hbalanced))

theorem Passes.append (hu : p.Passes (w ++ v) n before u)
    (hw : p.Passes v (u.foldl Nesting.next n) (lastOf before u) w) : p.Passes v n before (u ++ w) := by
  induction hu with
  | done => exact hw
  | @character n before c u hnone _ ih =>
      have hstep : p.read? before (c :: ((u ++ w) ++ v)) = none := by rwa [List.append_assoc]
      exact .character hstep (ih hw)
  | @nested n before r u ps hdeep hread _ ih =>
      have hstep : p.read? before (r ++ ((u ++ w) ++ v)) = some ⟨r, ps, (u ++ w) ++ v⟩ := by
        rwa [List.append_assoc]
      rw [List.foldl_append, lastOf_append] at hw
      rw [List.append_assoc]
      exact .nested hdeep hstep (ih hw)

theorem passes_of_silent (h : p.Silent before u v) : p.Passes v n before u := by
  induction u generalizing n before with
  | nil => exact .done
  | cons c u ih => exact .character h.1 (ih h.2)

theorem readsWithin_iff : p.ReadsWithin before u v ↔
    ∀ x y, u = x ++ y → y ≠ [] → ∀ r ∈ p.read? (lastOf before x) (y ++ v), r.read.length ≤ y.length := by
  constructor
  · rintro h x y rfl hy r hr
    have hpositive := List.length_pos_iff.mpr hy
    have hle := h x.length (by rw [List.length_append]; omega) r (by simpa using hr)
    rw [List.length_append] at hle
    omega
  · intro h i hi r hr
    have hne : u.drop i ≠ [] := by
      rw [ne_eq, List.drop_eq_nil_iff]
      omega
    have hle := h (u.take i) (u.drop i) (List.take_append_drop i u).symm hne r hr
    rw [List.length_drop] at hle
    omega

theorem readsWithin_of_silent (h : p.Silent before u v) : p.ReadsWithin before u v := by
  rw [readsWithin_iff]
  intro x y hxy hy r hr
  rw [silent_iff.mp h x y hxy hy] at hr
  cases hr

/-- Readings that do not hold the last character of a text do not go on behind it. -/
theorem readsWithin_of_not_mem {c : Char}
    (h : ∀ x y, u ++ [c] = x ++ y → ∀ r ∈ p.readings (lastOf before x) (y ++ v), c ∉ r.read) :
    p.ReadsWithin before (u ++ [c]) v := by
  rw [readsWithin_iff]
  intro x y hxy hy r hr
  have hlast : y.getLast? = some c := by
    have hall : (x ++ y).getLast? = some c := by rw [← hxy, List.getLast?_concat]
    obtain ⟨d, hd⟩ := Option.ne_none_iff_exists'.mp (mt List.getLast?_eq_none_iff.mp hy)
    rwa [List.getLast?_append, hd, Option.some_or, ← hd] at hall
  rcases exists_append_of_length (read?_text hr) with ⟨z, hz, -⟩ | ⟨d, z, hread, -⟩
  · rw [hz, List.length_append]
    exact Nat.le_add_right _ _
  · exact absurd (hread ▸ List.mem_append_left _ (List.mem_of_getLast? hlast)) (h x y hxy r (mem_of_read? hr))

/-- What never reads the last character of a text does not read on behind it. -/
theorem readsWithin_of_not_mentioned {c : Char} (h : p.mentions c = false) : p.ReadsWithin before (u ++ [c]) v :=
  readsWithin_of_not_mem fun _ _ _ _ hr => not_mem_read hr h

/-- A search passes over a text that none of its readings leaves, if nothing is found at the top level in it. -/
theorem passes_of_readsWithin (hp : p.Consumes) (hwithin : p.ReadsWithin before u v)
    (htop : ∀ x y, u = x ++ y → y ≠ [] → x.foldl Nesting.next n = .outermost →
      p.read? (lastOf before x) (y ++ v) = none) :
    p.Passes v n before u := by
  -- on the length of the text, since a step may read several characters
  induction hlength : u.length using Nat.strongRecOn generalizing u n before with
  | _ length ih =>
    rw [readsWithin_iff] at hwithin
    have hsuffix : ∀ {y z : Text}, u = y ++ z → p.ReadsWithin (lastOf before y) z v := by
      intro y z hyz
      rw [readsWithin_iff]
      intro a b hab hb
      rw [← lastOf_append]
      exact hwithin (y ++ a) b (by rw [hyz, hab, List.append_assoc]) hb
    have hnested : ∀ {y z : Text}, u = y ++ z → ∀ a b, z = a ++ b → b ≠ [] →
        a.foldl Nesting.next (y.foldl Nesting.next n) = .outermost →
          p.read? (lastOf (lastOf before y) a) (b ++ v) = none := by
      intro y z hyz a b hab hb hn
      rw [← lastOf_append]
      exact htop (y ++ a) b (by rw [hyz, hab, List.append_assoc]) hb (by rwa [List.foldl_append])
    cases hu : u with
    | nil => exact .done
    | cons c rest =>
        have hne : u ≠ [] := by rw [hu]; exact List.cons_ne_nil c rest
        cases hread : p.read? before (u ++ v) with
        | none =>
            have hcut : u = [c] ++ rest := hu
            have hshort : rest.length < length := by rw [← hlength, hu]; exact Nat.lt_succ_self _
            exact .character (by rwa [hu] at hread) (ih _ hshort (hsuffix hcut) (hnested hcut) rfl)
        | some r =>
            obtain ⟨z, hz, hrest⟩ := exists_of_length_le (read?_text hread)
              (hwithin [] u rfl hne r hread)
            have hw : r.read ≠ [] := hp _ _ _ (mem_of_read? hread)
            have hdeep : n ≠ .outermost := fun hn => by
              have hnone := htop [] u rfl hne hn
              rw [lastOf_nil, hread] at hnone
              cases hnone
            have hstep : p.read? before (r.read ++ (z ++ v)) = some ⟨r.read, r.parts, z ++ v⟩ := by
              rw [← hrest, read?_text hread, hread]
            have hshort : z.length < length := by
              have hpositive := List.length_pos_iff.mpr hw
              rw [← hlength, hz, List.length_append]
              omega
            rw [← hu, hz]
            exact .nested hdeep hstep (ih _ hshort (hsuffix hz) (hnested hz) rfl)

/-- A search passes over a text, or over a part of it in front of something that it reads at the top level. -/
theorem passes_or_read (hp : p.Consumes) (n : Nesting) (before : Option Char) (t : Text) :
    p.Passes [] n before t ∨ ∃ u w v ps, t = u ++ (w ++ v) ∧ p.Passes (w ++ v) n before u ∧
      u.foldl Nesting.next n = .outermost ∧ p.read? (lastOf before u) (w ++ v) = some ⟨w, ps, v⟩ := by
  -- on the length of the text, since a step may read several characters
  induction hlength : t.length using Nat.strongRecOn generalizing n before t with
  | _ length ih =>
    cases hread : p.read? before t with
    | none =>
        cases t with
        | nil => exact .inl .done
        | cons c t =>
            rcases ih t.length (hlength ▸ Nat.lt_succ_self _) (n.next c) (some c) t rfl with
              h | ⟨u, w, v, ps, rfl, hu, hlevel, hr⟩
            · exact .inl (.character (by rwa [List.append_nil]) h)
            · exact .inr ⟨c :: u, w, v, ps, rfl, .character hread hu, hlevel, hr⟩
    | some r =>
        have htext := read?_text hread
        have hpositive := List.length_pos_iff.mpr (hp _ _ _ (mem_of_read? hread))
        have hshort : r.rest.length < length := by
          rw [← hlength, ← htext, List.length_append]
          omega
        by_cases hn : n = .outermost
        · exact .inr ⟨[], r.read, r.rest, r.parts, htext.symm, .done, hn, by rw [htext]; exact hread⟩
        · rcases ih _ hshort (r.read.foldl Nesting.next n) (lastOf before r.read) r.rest rfl with
            h | ⟨u, w, v, ps, hrest, hu, hlevel, hr⟩
          · have hstep : p.read? before (r.read ++ (r.rest ++ [])) = some ⟨r.read, r.parts, r.rest ++ []⟩ := by
              rw [List.append_nil, htext, hread]
            exact .inl (htext ▸ .nested hn hstep h)
          · have hstep : p.read? before (r.read ++ (u ++ (w ++ v))) = some ⟨r.read, r.parts, u ++ (w ++ v)⟩ := by
              rw [← hrest, htext, hread]
            refine .inr ⟨r.read ++ u, w, v, ps, ?_, .nested hn hstep hu, ?_, ?_⟩
            · rw [← htext, hrest, List.append_assoc]
            · rw [List.foldl_append, hlevel]
            · rw [lastOf_append, hr]

/-- Up to the nesting, a text that is passed over is left out of the search. -/
theorem Passes.topLevelFrom (hp : p.Consumes) (h : p.Passes v n before u) (hn : n = Nesting.after x)
    (hbefore : before = lastOf none x)
    {b : Text} (hbound : (u ++ v).length ≤ b.length) :
    ∃ rest : Text, v.length ≤ rest.length ∧
      (p.occurrencesFrom b ⟨x.reverse, u ++ v⟩).filter (·.isTopLevel) =
        (p.occurrencesFrom rest ⟨(x ++ u).reverse, v⟩).filter (·.isTopLevel) := by
  induction h generalizing x b with
  | done => exact ⟨b, hbound, by rw [List.append_nil]; rfl⟩
  | @character n before c u hnone _ ih =>
      obtain ⟨d, bound, rfl⟩ := List.exists_cons_of_ne_nil (l := b) (by rintro rfl; simp at hbound)
      have hhead : x.reverse.head? = before := by rw [head?_eq_lastOf_reverse, List.reverse_reverse, hbefore]
      have hat : p.at? ⟨x.reverse, c :: (u ++ v)⟩ = none := at?_eq_none_iff.mpr (by rwa [hhead])
      obtain ⟨rest, hrest, heq⟩ := ih (x := x ++ [c]) (by rw [hn, Nesting.after, Nesting.after, List.foldl_append]; rfl)
        (by rw [lastOf_append]; rfl) (b := bound) (by simpa using hbound)
      refine ⟨rest, hrest, ?_⟩
      rw [List.append_assoc, List.singleton_append] at heq
      rw [← heq, List.cons_append, occurrencesFrom, hat]
      simp
  | @nested n before w u ps hdeep hread _ ih =>
      have hhead : x.reverse.head? = before := by rw [head?_eq_lastOf_reverse, List.reverse_reverse, hbefore]
      obtain ⟨o, ho, hreading⟩ := exists_at?_of_read? ⟨x.reverse, w ++ (u ++ v)⟩ (by rw [hhead]; exact hread)
      obtain ⟨-, hstart, hstop⟩ := at?_eq_some ho
      have hw : w ≠ [] := hp _ _ _ (mem_of_read? hread)
      have hpositive := List.length_pos_iff.mpr hw
      obtain ⟨d, bound, rfl⟩ := List.exists_cons_of_ne_nil (l := b) (by rintro rfl; simp [hw] at hbound)
      have hlow : o.isTopLevel = false := by
        have hnesting : Nesting.after o.before = n := by
          rw [Span.before, hstart, List.reverse_reverse, hn]
        rw [Span.isTopLevel, hnesting]
        exact beq_eq_false_iff_ne.mpr hdeep
      have hstop : o.stop = ⟨(x ++ w).reverse, u ++ v⟩ := by rw [hstop, hreading, List.reverse_append]
      obtain ⟨rest, hrest, heq⟩ := ih (x := x ++ w) (by rw [hn, Nesting.after, Nesting.after, List.foldl_append])
        (by rw [lastOf_append, hbefore]) (b := bound) (by
          simp only [List.length_append, List.length_cons] at hbound ⊢
          omega)
      refine ⟨rest, hrest, ?_⟩
      rw [List.append_assoc] at heq
      rw [← heq, List.append_assoc, occurrencesFrom, ho]
      simp [hlow, hstop]

theorem occurrencesFrom_end (hp : p.Consumes) (bound behind : Text) : p.occurrencesFrom bound ⟨behind, []⟩ = [] := by
  cases bound with
  | nil => rfl
  | cons c bound => rw [occurrencesFrom, at?_eq_none_iff.mpr (hp.read?_nil _)]

/-- Nothing is found at the top level from a place on if all that is ahead is passed over. -/
theorem Passes.topLevelFrom_eq_nil (hp : p.Consumes) (h : p.Passes [] (Nesting.after x) (lastOf none x) u)
    {bound : Text} (hbound : u.length ≤ bound.length) :
    (p.occurrencesFrom bound ⟨x.reverse, u⟩).filter (·.isTopLevel) = [] := by
  obtain ⟨rest, -, heq⟩ := h.topLevelFrom hp rfl rfl (b := bound) (by rwa [List.append_nil])
  rw [List.append_nil] at heq
  rw [heq, occurrencesFrom_end hp]
  rfl

theorem topLevel_of_passes (hp : p.Consumes) (h : p.Passes [] .outermost none t) : p.topLevel t = [] :=
  Passes.topLevelFrom_eq_nil (x := []) hp h (Nat.le_refl _)

/-- What is read at the top level behind a text that is passed over is the first top-level occurrence, and the
only one if the rest of the text is passed over too. -/
theorem topLevel_eq_cons (hp : p.Consumes) (hu : p.Passes (w ++ v) .outermost none u)
    (hread : p.read? (lastOf none u) (w ++ v) = some ⟨w, ps, v⟩) (hbalanced : Nesting.after u = .outermost) :
    ∃ o os, p.topLevel (u ++ (w ++ v)) = o :: os ∧ o ∈ p.occurrences (u ++ (w ++ v)) ∧ o.before = u ∧
      o.reading = ⟨w, ps, v⟩ ∧
        (p.Passes [] (w.foldl Nesting.next .outermost) (lastOf (lastOf none u) w) v → os = []) := by
  obtain ⟨rest, hrest, heq⟩ := hu.topLevelFrom hp (x := []) rfl rfl (b := u ++ (w ++ v)) (Nat.le_refl _)
  have htop : p.topLevel (u ++ (w ++ v)) = (p.occurrencesFrom rest ⟨u.reverse, w ++ v⟩).filter (·.isTopLevel) := heq
  have hhead : u.reverse.head? = lastOf none u := by rw [head?_eq_lastOf_reverse, List.reverse_reverse]
  obtain ⟨o, ho, hreading⟩ := exists_at?_of_read? ⟨u.reverse, w ++ v⟩ (by rw [hhead]; exact hread)
  obtain ⟨-, hstart, hstop⟩ := at?_eq_some ho
  have hw : w ≠ [] := hp _ _ _ (mem_of_read? hread)
  obtain ⟨b, rest, rfl⟩ := List.exists_cons_of_ne_nil (l := rest) (by rintro rfl; simp [hw] at hrest)
  have hbefore : o.before = u := by rw [Span.before, hstart, List.reverse_reverse]
  have hhigh : o.isTopLevel = true := by
    rw [Span.isTopLevel, hbefore, hbalanced]
    exact beq_self_eq_true _
  have hstop : o.stop = ⟨(u ++ w).reverse, v⟩ := by rw [hstop, hreading, List.reverse_append]
  simp only [occurrencesFrom, ho] at htop
  rw [List.filter_cons, hhigh, if_pos rfl, hstop] at htop
  have hmem : o ∈ p.topLevel (u ++ (w ++ v)) := by
    rw [htop]
    exact List.mem_cons_self
  refine ⟨o, _, htop, (List.mem_filter.mp hmem).1, hbefore, hreading, fun hv => ?_⟩
  have hnesting : Nesting.after (u ++ w) = w.foldl Nesting.next .outermost := by
    rw [← hbalanced, Nesting.after, Nesting.after, List.foldl_append]
  have hpositive := List.length_pos_iff.mpr hw
  refine Passes.topLevelFrom_eq_nil hp (by rwa [hnesting, lastOf_append]) ?_
  simp only [List.length_append, List.length_cons] at hrest
  omega

end SqlPattern
end SchemaDump
