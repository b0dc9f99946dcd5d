import SchemaDump.Proofs.Definition.Blind
import SchemaDump.Proofs.Definition.Taking
/- Texts whose literals and parentheses hold other texts. A search for a blind pattern takes the same off both, and
it leaves every literal and every parenthesis as it is. -/
namespace SchemaDump
open SqlPattern Pattern

variable {p : SqlPattern} {counts : Nesting → Bool} {n : Nesting} {before : Option Char} {r : Match Part}
  {t u v w x y kept more : Text} {xs ys : List Text} {found also : Bool}

/-- A text whose literals are closed and whose parentheses stand in pairs. -/
inductive WellNested : Text → Prop
  | nil : WellNested []
  | free {c : Char} {t : Text} (hc : isFree c) (ht : WellNested t) : WellNested (c :: t)
  | literal {x t : Text} (hx : ∀ c ∈ x, c ≠ '\'') (ht : WellNested t) : WellNested ('\'' :: (x ++ '\'' :: t))
  | group {x t : Text} (hx : WellNested x) (ht : WellNested t) : WellNested ('(' :: (x ++ ')' :: t))

/-- Two texts that differ in what stands in their literals and in their outermost parentheses only: the first one
holds the texts `xs` there and the second one the texts `ys`. -/
inductive Refilled : List Text → List Text → Text → Text → Prop
  | nil : Refilled [] [] [] []
  | free {c : Char} {xs ys : List Text} {t u : Text} (hc : isFree c) (h : Refilled xs ys t u) :
      Refilled xs ys (c :: t) (c :: u)
  | literal {x y : Text} {xs ys : List Text} {t u : Text} (hx : ∀ c ∈ x, c ≠ '\'') (hy : ∀ c ∈ y, c ≠ '\'')
      (h : Refilled xs ys t u) : Refilled (x :: xs) (y :: ys) ('\'' :: (x ++ '\'' :: t)) ('\'' :: (y ++ '\'' :: u))
  | group {x y : Text} {xs ys : List Text} {t u : Text} (hx : WellNested x) (hy : WellNested y)
      (h : Refilled xs ys t u) : Refilled (x :: xs) (y :: ys) ('(' :: (x ++ ')' :: t)) ('(' :: (y ++ ')' :: u))

/-- The pattern is read in a place of a text that lies outside of literals and parentheses. -/
def SqlPattern.ReadAtTop (p : SqlPattern) (t : Text) : Prop :=
  ∃ x y, t = x ++ y ∧ Nesting.after x = .outermost ∧ p.read? (lastOf none x) y ≠ none

theorem Unquoted.behind_piece {opening closing : Char} (h : Unquoted (opening :: (w ++ closing :: t))) :
    Unquoted t := by
  refine h.sublist (.trans ?_ (List.sublist_cons_self opening _))
  exact (List.sublist_cons_self closing t).trans (List.sublist_append_right w _)

theorem WellNested.enclosed (h : WellNested t) : Enclosed t := by
  induction h with
  | nil => exact .of_plain fun _ hc => nomatch hc
  | @free c t hc _ ih =>
      have hplain : Enclosed [c] := .of_plain fun d hd => plain_of_free (List.mem_singleton.mp hd ▸ hc)
      exact hplain.append ih
  | literal hx _ ih => simpa using (Enclosed.literal hx).append ih
  | group _ _ ihx ih => simpa using ihx.group.append ih

theorem WellNested.of_free (h : ∀ c ∈ t, isFree c) : WellNested t := by
  induction t with
  | nil => exact .nil
  | cons c t ih => exact .free (h c List.mem_cons_self) (ih fun d hd => h d (List.mem_cons_of_mem c hd))

/-- A place at the top level of a text that begins with a literal or a parenthesis lies behind it. -/
theorem exists_behind_piece {opening closing : Char} (hopening : Nesting.outermost.next opening = n)
    (hlevel : w.foldl Nesting.next n = n) (hdeep : ∀ a b, w = a ++ b → a.foldl Nesting.next n ≠ .outermost)
    (h : opening :: (w ++ closing :: t) = x ++ y) (hx : x ≠ []) (htop : Nesting.after x = .outermost) :
    ∃ z, x = opening :: (w ++ closing :: z) ∧ t = z ++ y ∧ z.foldl Nesting.next (n.next closing) = .outermost := by
  obtain ⟨c, x, rfl⟩ := List.exists_cons_of_ne_nil hx
  obtain ⟨rfl, hrest⟩ := List.cons.inj h
  rw [Nesting.after, List.foldl_cons, hopening] at htop
  rcases exists_append_of_length hrest with ⟨z, rfl, hz⟩ | ⟨d, z, hw, -⟩
  · rw [List.foldl_append, hlevel] at htop
    cases z with
    | nil => exact absurd htop (by rw [← hlevel]; exact hdeep w [] (List.append_nil w).symm)
    | cons d z =>
        obtain ⟨rfl, ht⟩ := List.cons.inj hz
        exact ⟨z, rfl, ht, htop⟩
  · exact absurd htop (hdeep x _ hw)

/-- What stands in front of a place at the top level closes what it opens. -/
theorem WellNested.of_outermost (h : WellNested t) (hxy : t = x ++ y) (htop : Nesting.after x = .outermost) :
    WellNested x := by
  induction h generalizing x with
  | nil =>
      obtain ⟨rfl, -⟩ := List.append_eq_nil_iff.mp hxy.symm
      exact .nil
  | @free c t hc _ ih =>
      cases x with
      | nil => exact .nil
      | cons d x =>
          obtain ⟨rfl, hrest⟩ := List.cons.inj hxy
          rw [Nesting.after, List.foldl_cons, next_of_free hc] at htop
          exact .free hc (ih hrest htop)
  | @literal w t hw _ ih =>
      rcases eq_or_ne x [] with rfl | hx
      · exact .nil
      · obtain ⟨z, rfl, hrest, hz⟩ := exists_behind_piece (n := ⟨true, 0⟩) rfl (foldl_next_inLiteral hw 0)
          (fun _ _ hab => ne_outermost_inLiteral hw hab 0) hxy hx htop
        exact .literal hw (ih hrest hz)
  | @group w t hw _ _ ih =>
      rcases eq_or_ne x [] with rfl | hx
      · exact .nil
      · obtain ⟨z, rfl, hrest, hz⟩ := exists_behind_piece (n := ⟨false, 1⟩) rfl (hw.enclosed.level 1)
          (fun _ _ hab => hw.enclosed.ne_outermost hab 0) hxy hx htop
        exact .group hw (ih hrest hz)

namespace Refilled

theorem symm (h : Refilled xs ys t u) : Refilled ys xs u t := by
  induction h with
  | nil => exact .nil
  | free hc _ ih => exact .free hc ih
  | literal hx hy _ ih => exact .literal hy hx ih
  | group hx hy _ ih => exact .group hy hx ih

theorem wellNested (h : Refilled xs ys t u) : WellNested t := by
  induction h with
  | nil => exact .nil
  | free hc _ ih => exact .free hc ih
  | literal hx _ _ ih => exact .literal hx ih
  | group hx _ _ ih => exact .group hx ih

theorem takeWhile_eq (h : Refilled xs ys t u) : t.takeWhile isFree = u.takeWhile isFree := by
  induction h with
  | nil => rfl
  | free hc _ ih => rw [List.takeWhile_cons_of_pos hc, List.takeWhile_cons_of_pos hc, ih]
  | literal => rfl
  | group => rfl

theorem tail {c : Char} (h : Refilled xs ys (c :: t) (c :: u)) (hc : isFree c) : Refilled xs ys t u := by
  cases h with
  | free _ h => exact h
  | literal => cases hc
  | group => cases hc

theorem append (hw : ∀ c ∈ w, isFree c) (h : Refilled xs ys t u) : Refilled xs ys (w ++ t) (w ++ u) := by
  induction w with
  | nil => exact h
  | cons c w ih => exact .free (hw c List.mem_cons_self) (ih fun d hd => hw d (List.mem_cons_of_mem c hd))

theorem behind_free (h : Refilled xs ys (w ++ t) (w ++ u)) (hw : ∀ c ∈ w, isFree c) : Refilled xs ys t u := by
  induction w with
  | nil => exact h
  | cons c w ih => exact ih (h.tail (hw c List.mem_cons_self)) fun d hd => hw d (List.mem_cons_of_mem c hd)

theorem trimStart (h : Refilled xs ys t u) : Refilled xs ys (Text.trimStart t) (Text.trimStart u) := by
  induction h with
  | nil => exact .nil
  | @free c _ _ t u hc h ih =>
      cases hblank : isBlank c with
      | true => rwa [trimStart_cons_blank hblank, trimStart_cons_blank hblank]
      | false =>
          have hstop : ∀ v : Text, Text.trimStart (c :: v) = c :: v := fun _ =>
            List.dropWhile_cons_of_neg (by simp [hblank])
          rw [hstop, hstop]
          exact .free hc h
  | literal hx hy h => exact .literal hx hy h
  | group hx hy h => exact .group hx hy h

theorem behind_blank {c : Char} (h : Refilled xs ys t u) (hc : isFree c) :
    Refilled xs ys (if t = [] then [] else c :: t) (if u = [] then [] else c :: u) := by
  cases h with
  | nil => exact .nil
  | free hd h => exact .free hc (.free hd h)
  | literal hx hy h => exact .free hc (.literal hx hy h)
  | group hx hy h => exact .free hc (.group hx hy h)

theorem trimEnd (h : Refilled xs ys t u) : Refilled xs ys (Text.trimEnd t) (Text.trimEnd u) := by
  induction h with
  | nil => exact .nil
  | @free c _ _ t u hc _ ih =>
      cases hblank : isBlank c with
      | true =>
          rw [trimEnd_cons_blank hblank, trimEnd_cons_blank hblank]
          exact ih.behind_blank hc
      | false =>
          have hsolid : ∀ v : Text, Text.trimEnd (c :: v) = c :: v.trimEnd := trimEnd_append_cons [] hblank
          rw [hsolid, hsolid]
          exact .free hc ih
  | @literal x y _ _ t u hx hy _ ih =>
      have hsolid : ∀ x v : Text, Text.trimEnd ('\'' :: (x ++ '\'' :: v)) = '\'' :: (x ++ '\'' :: v.trimEnd) :=
        fun x => trimEnd_append_cons ('\'' :: x) (by decide)
      rw [hsolid, hsolid]
      exact .literal hx hy ih
  | @group x y _ _ t u hx hy _ ih =>
      have hsolid : ∀ x v : Text, Text.trimEnd ('(' :: (x ++ ')' :: v)) = '(' :: (x ++ ')' :: v.trimEnd) :=
        fun x => trimEnd_append_cons ('(' :: x) (by decide)
      rw [hsolid, hsolid]
      exact .group hx hy ih

theorem trim (h : Refilled xs ys t u) : Refilled xs ys (Text.trim t) (Text.trim u) := h.trimStart.trimEnd

end Refilled

namespace SqlPattern

theorem Takes.sublist (h : p.Takes counts v n before t kept found) : kept.Sublist t := by
  induction h with
  | done => exact .slnil
  | character _ _ ih => exact ih.cons_cons _
  | passed _ _ _ ih => exact ih.append_left _
  | taken _ _ _ ih => exact ih.trans (List.sublist_append_right _ _)

theorem Takes.of_read (hcounts : counts n) (hread : p.read? before t = some r)
    (h : p.Takes counts [] (r.read.foldl Nesting.next n) (lastOf before r.read) r.rest kept found) :
    p.Takes counts [] n before t kept true := by
  have htext := read?_text hread
  have hstep : p.read? before (r.read ++ (r.rest ++ [])) = some ⟨r.read, r.parts, r.rest ++ []⟩ := by
    rw [List.append_nil, htext, hread]
  rw [← htext]
  exact .taken hcounts hstep h

/-- A literal or a parenthesis that is passed over is kept in front of another text. -/
theorem Passes.takes_piece {opening closing : Char} (hw : p.Passes t .outermost before (opening :: (w ++ [closing])))
    (henclosed : Enclosed (opening :: (w ++ [closing])))
    (ht : p.Takes Nesting.isOutermost [] .outermost (some closing) t kept found) :
    p.Takes Nesting.isOutermost [] .outermost before (opening :: (w ++ closing :: t))
      (opening :: (w ++ closing :: kept)) found := by
  have hfirst : p.Takes Nesting.isOutermost (t ++ []) .outermost before (opening :: (w ++ [closing]))
      (opening :: (w ++ [closing])) false := by
    rw [List.append_nil]
    exact hw.takes
  have hlast : lastOf before (opening :: (w ++ [closing])) = some closing := by
    rw [lastOf_cons, lastOf_append]
    rfl
  have hlevel : (opening :: (w ++ [closing])).foldl Nesting.next .outermost = .outermost := henclosed.level 0
  rw [← hlevel, ← hlast] at ht
  have hboth := hfirst.append ht
  simpa using hboth

/-- A search that begins at the top level finds something if and only if the pattern is read in a place at the
top level. -/
theorem Takes.found_iff (hblind : p.Blind) (hp : p.Consumes) (ht : Unquoted t)
    (h : p.Takes Nesting.isOutermost [] n before t kept found) : found = true ↔
      ∃ x y, t = x ++ y ∧ x.foldl Nesting.next n = .outermost ∧ p.read? (lastOf before x) y ≠ none := by
  induction h with
  | done =>
      refine iff_of_false (by decide) ?_
      rintro ⟨x, y, hxy, -, hread⟩
      obtain ⟨rfl, rfl⟩ := List.append_eq_nil_iff.mp hxy.symm
      exact hread (hp.read?_nil _)
  | @character n before c u kept found hnone _ ih =>
      rw [ih (ht.sublist (List.sublist_cons_self c u))]
      constructor
      · rintro ⟨x, y, rfl, htop, hread⟩
        exact ⟨c :: x, y, rfl, htop, hread⟩
      · rintro ⟨x, y, hxy, htop, hread⟩
        cases x with
        | nil =>
            rw [List.append_nil, hxy] at hnone
            exact absurd hnone hread
        | cons d x =>
            obtain ⟨rfl, rfl⟩ := List.cons.inj hxy
            exact ⟨x, y, rfl, htop, hread⟩
  | @passed n before w u kept ps found hcounts hread _ ih =>
      rw [List.append_nil] at hread
      have hfree := hblind.isFree_of_mem ht (mem_of_read? hread)
      have hdeep : ∀ x y, w = x ++ y → x.foldl Nesting.next n ≠ .outermost := fun x y hxy => by
        rw [foldl_next_of_free fun c hc => hfree c (hxy ▸ List.mem_append_left y hc)]
        exact beq_eq_false_iff_ne.mp hcounts
      rw [ih (ht.sublist (List.sublist_append_right w u))]
      constructor
      · rintro ⟨x, y, rfl, htop, hread⟩
        exact ⟨w ++ x, y, (List.append_assoc w x y).symm, by rwa [List.foldl_append], by rwa [lastOf_append]⟩
      · rintro ⟨x, y, hxy, htop, hread⟩
        rcases exists_append_of_length hxy with ⟨z, rfl, hz⟩ | ⟨c, z, hw, -⟩
        · exact ⟨z, y, hz, by rwa [List.foldl_append] at htop, by rwa [lastOf_append] at hread⟩
        · exact absurd htop (hdeep x _ hw)
  | @taken n before w u kept ps found hcounts hread _ _ =>
      refine iff_of_true rfl ⟨[], w ++ u, rfl, eq_of_beq hcounts, ?_⟩
      rw [List.append_nil] at hread
      rw [lastOf_nil, hread]
      exact Option.some_ne_none _

/-- A search goes through two such texts in the same way. -/
theorem Blind.exists_takes (hblind : p.Blind) (hp : p.Consumes) (h : Refilled xs ys t u) (ht : Unquoted t)
    (hu : Unquoted u) (before : Option Char) : ∃ kept more found,
      p.Takes Nesting.isOutermost [] .outermost before t kept found ∧
        p.Takes Nesting.isOutermost [] .outermost before u more found ∧ Refilled xs ys kept more := by
  -- on the length of the text, since a step may read several characters
  induction hlength : t.length using Nat.strongRecOn generalizing xs ys t u before with
  | _ length ih =>
    cases h with
    | nil => exact ⟨[], [], false, .done, .done, .nil⟩
    | @free c xs ys t u hc h =>
        have hsame := (Refilled.free hc h).takeWhile_eq
        have htread := hblind.read?_eq ht before
        have huread := hblind.read?_eq hu before
        rw [← hsame] at huread
        cases hread : p.read? before ((c :: t).takeWhile isFree) with
        | none =>
            rw [hread, Option.map_none] at htread huread
            have hshort : t.length < length := hlength ▸ Nat.lt_succ_self _
            obtain ⟨kept, more, found, htakes, hutakes, hrest⟩ := ih _ hshort h
              (ht.sublist (List.sublist_cons_self c t)) (hu.sublist (List.sublist_cons_self c u)) (some c) rfl
            rw [← next_of_free hc .outermost] at htakes hutakes
            exact ⟨c :: kept, c :: more, found, .character (by rwa [List.append_nil]) htakes,
              .character (by rwa [List.append_nil]) hutakes, .free hc hrest⟩
        | some r =>
            rw [hread, Option.map_some] at htread huread
            generalize (c :: t).dropWhile isFree = v at htread
            generalize (c :: u).dropWhile isFree = w at huread
            have hfree := hblind.isFree_of_mem ht (mem_of_read? htread)
            have hlevel := foldl_next_of_free hfree .outermost
            have httext : r.read ++ (r.rest ++ v) = c :: t := read?_text htread
            have hutext : r.read ++ (r.rest ++ w) = c :: u := read?_text huread
            have hshort : (r.rest ++ v).length < length := by
              have hpositive := List.length_pos_iff.mpr (hp _ _ _ (mem_of_read? hread))
              have hlengths := congrArg List.length httext
              rw [hlength, List.length_append] at hlengths
              omega
            have hbehind : Refilled xs ys (r.rest ++ v) (r.rest ++ w) := by
              refine Refilled.behind_free ?_ hfree
              rw [Match.extend_read, httext, hutext]
              exact .free hc h
            have htbehind := ht.sublist (httext ▸ List.sublist_append_right r.read _)
            have hubehind := hu.sublist (hutext ▸ List.sublist_append_right r.read _)
            obtain ⟨kept, more, found, htakes, hutakes, hrest⟩ :=
              ih _ hshort hbehind htbehind hubehind (lastOf before r.read) rfl
            rw [← hlevel] at htakes hutakes
            exact ⟨kept, more, true, .of_read rfl htread htakes, .of_read rfl huread hutakes, hrest⟩
    | @literal x y xs ys t u hx hy h =>
        have hshort : t.length < length := by
          rw [← hlength]
          simp only [List.length_cons, List.length_append]
          omega
        obtain ⟨kept, more, found, htakes, hutakes, hrest⟩ := ih _ hshort h
          ht.behind_piece hu.behind_piece (some '\'') rfl
        exact ⟨'\'' :: (x ++ '\'' :: kept), '\'' :: (y ++ '\'' :: more), found,
          (hblind.passes_literal hp hx ht).takes_piece (.literal hx) htakes,
          (hblind.passes_literal hp hy hu).takes_piece (.literal hy) hutakes, .literal hx hy hrest⟩
    | @group x y xs ys t u hx hy h =>
        have hshort : t.length < length := by
          rw [← hlength]
          simp only [List.length_cons, List.length_append]
          omega
        obtain ⟨kept, more, found, htakes, hutakes, hrest⟩ := ih _ hshort h
          ht.behind_piece hu.behind_piece (some ')') rfl
        exact ⟨'(' :: (x ++ ')' :: kept), '(' :: (y ++ ')' :: more), found,
          (hblind.passes_group hp hx.enclosed ht).takes_piece hx.enclosed.group htakes,
          (hblind.passes_group hp hy.enclosed hu).takes_piece hy.enclosed.group hutakes, .group hx hy hrest⟩

end SqlPattern

namespace Markers

theorem unquoted_takeAll (hp : p.Consumes) (ht : Unquoted t) : Unquoted (takeAll p t).1 := by
  obtain ⟨kept, found, htakes⟩ := exists_takes hp Nesting.isOutermost .outermost none t
  rw [takeAll_of_takes hp htakes]
  exact ht.sublist htakes.sublist

theorem takeAll_refilled (hblind : p.Blind) (hp : p.Consumes) (h : Refilled xs ys t u) (ht : Unquoted t)
    (hu : Unquoted u) : (takeAll p u).2 = (takeAll p t).2 ∧ Refilled xs ys (takeAll p t).1 (takeAll p u).1 := by
  obtain ⟨kept, more, found, htakes, hutakes, hrest⟩ := hblind.exists_takes hp h ht hu none
  rw [takeAll_of_takes hp htakes, takeAll_of_takes hp hutakes]
  exact ⟨rfl, hrest⟩

/-- A blind pattern is taken off a text if and only if it is read in a place at the top level. -/
theorem takeAll_iff (hblind : p.Blind) (hp : p.Consumes) (ht : Unquoted t) :
    (takeAll p t).2 = true ↔ p.ReadAtTop t := by
  obtain ⟨kept, found, htakes⟩ := exists_takes hp Nesting.isOutermost .outermost none t
  rw [takeAll_of_takes hp htakes]
  exact htakes.found_iff hblind hp ht

end Markers
end SchemaDump
