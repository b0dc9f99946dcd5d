import Mathlib.Data.List.Basic
import Mathlib.Data.List.TakeWhile
import SchemaDump.Proofs.Definition.Enclosed
import SchemaDump.Proofs.Definition.Identifier
/- Patterns that do not look into literals and parentheses. In a text without quoted names such a pattern reads no
further than to the next quote or parenthesis, and what stands behind that makes no difference to it. -/
namespace SchemaDump
open SqlPattern Pattern

variable {p q : SqlPattern} {before : Option Char} {t u v : Text} {r : Match Part}

/-- Whether a character neither starts nor ends a literal or parentheses. -/
def isFree (c : Char) : Bool := c != '\'' && c != '(' && c != ')'

/-- A text without the quotes that names are written in. -/
def Unquoted (t : Text) : Prop := '"' ∉ t ∧ backQuote ∉ t

instance (t : Text) : Decidable (Unquoted t) := inferInstanceAs (Decidable (_ ∧ _))

theorem Unquoted.sublist (h : Unquoted t) (hu : u.Sublist t) : Unquoted u :=
  ⟨fun hmem => h.1 (hu.subset hmem), fun hmem => h.2 (hu.subset hmem)⟩

theorem isFree_of_class {accepts : Char → Bool}
    (h : accepts '\'' = false ∧ accepts '(' = false ∧ accepts ')' = false) {c : Char} (hc : accepts c) : isFree c := by
  have hne : ∀ d, accepts d = false → c ≠ d := fun d hd => by
    rintro rfl
    rw [hc] at hd
    cases hd
  simp [isFree, hne _ h.1, hne _ h.2.1, hne _ h.2.2]

theorem isFree_of_isWordChar {c : Char} (h : isWordChar c) : isFree c := isFree_of_class (by decide) h

theorem isFree_of_isBlank {c : Char} (h : isBlank c) : isFree c := isFree_of_class (by decide) h

theorem isFree_of_isBareChar {c : Char} (h : isBareChar c) : isFree c := isFree_of_class (by decide) h

theorem plain_of_free {c : Char} (h : isFree c) : c ≠ '\'' ∧ c ≠ '(' ∧ c ≠ ')' := by simpa [isFree, and_assoc] using h

theorem foldl_next_of_free (h : ∀ c ∈ t, isFree c) (n : Nesting) : t.foldl Nesting.next n = n :=
  foldl_next_of_plain (fun c hc => plain_of_free (h c hc)) n

theorem next_of_free {c : Char} (h : isFree c) (n : Nesting) : n.next c = n :=
  foldl_next_of_free (t := [c]) (fun _ hd => List.mem_singleton.mp hd ▸ h) n

/-- A text that does not go on with a free character does not go on with one of a class of free ones. -/
theorem Pattern.Stops.of_free {accepts : Char → Bool} (hv : Stops isFree v) (h : ∀ c, accepts c → isFree c) :
    Stops accepts v := by
  intro c hc
  cases haccepts : accepts c with
  | false => rfl
  | true => exact absurd (h c haccepts) (by simp [hv c hc])

namespace SqlPattern

/-- In a text without quoted names the pattern has the same readings whatever quote or parenthesis follows and
whatever stands behind it. -/
def Blind (p : SqlPattern) : Prop :=
  ∀ before u v, Unquoted u → (∀ c ∈ u, isFree c) → Stops isFree v →
    p.readings before (u ++ v) = (p.readings before u).map (·.extend v)

theorem blind_empty : Blind empty := fun _ _ _ _ _ _ => rfl

theorem blind_one {accepts : Char → Bool} (h : ∀ c, accepts c → isFree c) : Blind (one accepts) := by
  intro before u v _ _ hv
  have hstop := hv.of_free h
  cases u with
  | nil =>
      cases v with
      | nil => rfl
      | cons c v => simp [readings, stops_cons.mp hstop]
  | cons c u => cases hc : accepts c <;> simp [readings, hc, Match.extend]

theorem stretches_append_of_stops {accepts : Char → Bool} (hv : Stops accepts v) (u : Text) :
    stretches accepts (u ++ v) = (stretches accepts u).map fun s => (s.1, s.2 ++ v) := by
  induction u with
  | nil => exact stretches_of_stops hv
  | cons c u ih => cases hc : accepts c <;> simp [stretches, hc, ih, Function.comp_def]

theorem blind_run {accepts : Char → Bool} (h : ∀ c, accepts c → isFree c) (preference : Preference) :
    Blind (run accepts preference) := by
  intro before u v _ _ hv
  have hstretches := stretches_append_of_stops (hv.of_free h) u
  cases preference <;> simp [readings, hstretches, Match.extend, Function.comp_def]

theorem blind_wordEdge : Blind wordEdge := by
  intro before u v _ _ hv
  have hhead : (u ++ v).head?.any isWordChar = u.head?.any isWordChar := by
    cases u with
    | cons c u => rfl
    | nil =>
        have hstop := hv.of_free fun _ => isFree_of_isWordChar
        cases v with
        | nil => rfl
        | cons c v => exact stops_cons.mp hstop
  rw [readings, readings, hhead]
  split <;> rfl

theorem Blind.seq (hp : p.Blind) (hq : q.Blind) : Blind (p ++ q) := by
  intro before u v hunquoted hfree hv
  rw [readings_seq, readings_seq, hp before u v hunquoted hfree hv, List.flatMap_map, List.map_flatMap]
  refine List.flatMap_congr fun a ha => ?_
  have hrest : a.rest <:+ u := ⟨a.read, readings_text p _ _ a ha⟩
  rw [Match.extend_read, Match.extend_rest, hq _ a.rest v (hunquoted.sublist hrest.sublist)
    (fun c hc => hfree c (hrest.subset hc)) hv, List.map_map, List.map_map]
  rfl

theorem Blind.alt (hp : p.Blind) (hq : q.Blind) : Blind (Pattern.alt p q) := by
  intro before u v hunquoted hfree hv
  rw [readings_alt, readings_alt, hp before u v hunquoted hfree hv, hq before u v hunquoted hfree hv,
    List.map_append]

theorem Blind.maybe (h : p.Blind) : Blind (Pattern.maybe p) := h.alt blind_empty

theorem blind_run1 {accepts : Char → Bool} (h : ∀ c, accepts c → isFree c) (preference : Preference) :
    Blind (run1 accepts preference) := (blind_one h).seq (blind_run h preference)

theorem blind_gap : Blind gap := blind_run (fun _ => isFree_of_isBlank) _

theorem blind_blanks : Blind blanks := blind_run1 (fun _ => isFree_of_isBlank) _

theorem blind_keyword {word : String} (hword : ∀ c ∈ word.toList, c.isAlpha) : Blind (keyword word) := by
  rw [keyword]
  generalize word.toList = letters at hword ⊢
  induction letters with
  | nil => exact blind_empty
  | cons letter letters ih =>
      have hletter : Blind (one (sameLetter letter)) := blind_one fun c hc =>
        isFree_of_isWordChar (isWordChar_of_sameLetter (hword letter List.mem_cons_self) hc)
      exact hletter.seq (ih fun c hc => hword c (List.mem_cons_of_mem _ hc))

theorem blind_phrase {words : List String} (hwords : ∀ word ∈ words, ∀ c ∈ word.toList, c.isAlpha) :
    Blind (phrase words) := by
  induction words with
  | nil => exact blind_empty
  | cons word words ih =>
      have hfirst := blind_keyword (hwords word List.mem_cons_self)
      have hrest := ih fun w hw => hwords w (List.mem_cons_of_mem word hw)
      cases words with
      | nil => exact hfirst
      | cons next words => exact (hfirst.seq blind_blanks).seq hrest

/-- In a text without its quote a quoted name is not read at all. -/
theorem blind_quotedIdentifier {quote : Char} (hfree : isFree quote) (hquote : ∀ u, Unquoted u → quote ∉ u) :
    Blind (quotedIdentifier quote) := by
  have hnil : ∀ {before u v}, quote ∉ u → Stops isFree v → (quotedIdentifier quote).readings before (u ++ v) = [] := by
    intro before u v hu hv
    rw [List.eq_nil_iff_forall_not_mem]
    intro r hr
    obtain ⟨x, -, -, -, -, htext⟩ := mem_readings_quotedIdentifier hr
    cases u with
    | nil =>
        rw [List.nil_append] at htext
        rw [htext, stops_cons, hfree] at hv
        cases hv
    | cons c u =>
        obtain ⟨rfl, -⟩ := List.cons.inj htext
        exact hu List.mem_cons_self
  intro before u v hunquoted _ hv
  have hu : (quotedIdentifier quote).readings before u = [] := by
    have hempty : (quotedIdentifier quote).readings before (u ++ []) = [] :=
      hnil (hquote u hunquoted) (stops_nil isFree)
    rwa [List.append_nil] at hempty
  rw [hnil (hquote u hunquoted) hv, hu, List.map_nil]

theorem blind_identifier : Blind identifier :=
  (blind_quotedIdentifier (by decide) fun _ h => h.1).alt
    ((blind_quotedIdentifier (by decide) fun _ h => h.2).alt (blind_run1 (fun _ => isFree_of_isBareChar) _))

theorem free_takeWhile (t : Text) : ∀ c ∈ t.takeWhile isFree, isFree c := fun _ => List.mem_takeWhile_imp

theorem stops_dropWhile (t : Text) : Stops isFree (t.dropWhile isFree) := by
  intro c hc
  have hfirst := List.head?_dropWhile_not isFree t
  rw [Option.mem_def.mp hc] at hfirst
  exact hfirst

namespace Blind

theorem readings_eq (h : p.Blind) (ht : Unquoted t) (before : Option Char) : p.readings before t =
    (p.readings before (t.takeWhile isFree)).map (·.extend (t.dropWhile isFree)) := by
  have hunquoted := ht.sublist (List.takeWhile_prefix isFree (l := t)).sublist
  have hread := h before _ _ hunquoted (free_takeWhile t) (stops_dropWhile t)
  rwa [List.takeWhile_append_dropWhile] at hread

theorem read?_eq (h : p.Blind) (ht : Unquoted t) (before : Option Char) : p.read? before t =
    (p.read? before (t.takeWhile isFree)).map (·.extend (t.dropWhile isFree)) := by
  rw [read?, h.readings_eq ht, List.head?_map, read?]

theorem isFree_of_mem (h : p.Blind) (ht : Unquoted t) (hr : r ∈ p.readings before t) : ∀ c ∈ r.read, isFree c := by
  rw [h.readings_eq ht] at hr
  obtain ⟨s, hs, rfl⟩ := List.mem_map.mp hr
  have htext := readings_text p _ _ s hs
  exact fun c hc => free_takeWhile t c (htext ▸ List.mem_append_left _ hc)

theorem read?_eq_none_of_stops (h : p.Blind) (hp : p.Consumes) (ht : Unquoted t) (hstop : Stops isFree t)
    (before : Option Char) : p.read? before t = none := by
  have hnone : t.takeWhile isFree = [] := by
    cases t with
    | nil => rfl
    | cons c t => exact List.takeWhile_cons_of_neg (by simp [stops_cons.mp hstop])
  rw [h.read?_eq ht, hnone, hp.read?_nil, Option.map_none]

theorem readsWithin (h : p.Blind) {c : Char} (hc : isFree c = false) (ht : Unquoted (t ++ c :: v)) :
    p.ReadsWithin before (t ++ [c]) v := by
  refine readsWithin_of_not_mem fun x y hxy r hr hmem => ?_
  have hsublist : (y ++ v).Sublist (t ++ c :: v) := by
    rw [List.append_cons, hxy, List.append_assoc]
    exact List.sublist_append_right x _
  rw [h.isFree_of_mem (ht.sublist hsublist) hr c hmem] at hc
  cases hc

theorem passes_literal (h : p.Blind) (hp : p.Consumes) (hx : ∀ c ∈ t, c ≠ '\'')
    (ht : Unquoted ('\'' :: (t ++ '\'' :: v))) : p.Passes v .outermost before ('\'' :: (t ++ ['\''])) := by
  have hquote := h.read?_eq_none_of_stops hp ht (stops_cons.mpr rfl) before
  have hinside : p.ReadsWithin (some '\'') (t ++ ['\'']) v :=
    h.readsWithin rfl (ht.sublist (List.sublist_cons_self _ _))
  rw [List.append_cons] at hquote
  refine .character hquote (passes_of_readsWithin hp hinside fun x y hxy hy hn => ?_)
  obtain ⟨z, hz⟩ := exists_append_of_concat hxy hy
  exact absurd hn (ne_outermost_inLiteral hx hz 0)

theorem passes_group (h : p.Blind) (hp : p.Consumes) (hx : Enclosed t) (ht : Unquoted ('(' :: (t ++ ')' :: v))) :
    p.Passes v .outermost before ('(' :: (t ++ [')'])) := by
  have hopening := h.read?_eq_none_of_stops hp ht (stops_cons.mpr rfl) before
  rw [List.append_cons] at hopening
  exact .character hopening (passes_enclosed hp hx (h.readsWithin rfl (ht.sublist (List.sublist_cons_self _ _))))

end Blind

end SqlPattern

end SchemaDump
