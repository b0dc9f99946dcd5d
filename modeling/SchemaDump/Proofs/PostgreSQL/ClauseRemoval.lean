import SchemaDump.Proofs.PostgreSQL.ClauseMarker
/- The marks are taken off a text that goes on with clauses, one kind after the other. Of the clauses the checks
are left, where they stand. -/
namespace SchemaDump.PostgreSQL
open SqlPattern Pattern

variable {before : Option Char} {p : SqlPattern} {t u v w base : Text} {k : MarkKind} {clauses rest : List Clause}

/-- A text with clauses behind it in which every mark is found: a search passes over the text, whichever of the
clauses are left. -/
structure Precedes (base : Text) (clauses : List Clause) : Prop where
  balanced : Balanced base
  passes : ∀ rest : List Clause, rest.Sublist clauses → ∀ k : MarkKind,
    k.marker.Passes (clauseText rest) .outermost none base
  settled : Settled clauses
  distinct : (clauses.map (·.kind)).Nodup
  noDefault : .default ∉ clauses.map (·.kind)

theorem Precedes.sublist (h : Precedes base clauses) (hsub : rest.Sublist clauses) : Precedes base rest where
  balanced := h.balanced
  passes some hsome := h.passes some (hsome.trans hsub)
  settled := h.settled.sublist hsub
  distinct := h.distinct.sublist (hsub.map _)
  noDefault hmem := h.noDefault ((hsub.map _).subset hmem)

theorem kind_ne (h : ClauseKind.mark k ∉ clauses.map (·.kind)) : ∀ c ∈ clauses, c.kind ≠ .mark k :=
  fun c hc heq => h (List.mem_map.mpr ⟨c, hc, heq⟩)

theorem kind_ne_default (h : ClauseKind.default ∉ clauses.map (·.kind)) : ∀ c ∈ clauses, c.kind ≠ .default :=
  fun c hc heq => h (List.mem_map.mpr ⟨c, hc, heq⟩)

def clausesWithout (k : MarkKind) (clauses : List Clause) : List Clause := clauses.filter (·.kind ≠ .mark k)

theorem clausesWithout_sublist : (clausesWithout k clauses).Sublist clauses := List.filter_sublist

theorem mem_clausesWithout {c : Clause} : c ∈ clausesWithout k clauses ↔ c ∈ clauses ∧ c.kind ≠ .mark k := by
  simp [clausesWithout]

theorem clausesWithout_of_not_mem (h : ClauseKind.mark k ∉ clauses.map (·.kind)) :
    clausesWithout k clauses = clauses := filter_kind_of_not_mem h

theorem not_mem_clausesWithout : ClauseKind.mark k ∉ (clausesWithout k clauses).map (·.kind) := by
  intro hmem
  obtain ⟨c, hc, hkind⟩ := List.mem_map.mp hmem
  exact (mem_clausesWithout.mp hc).2 hkind

theorem contains_clausesWithout {other : MarkKind} (h : other ≠ k) :
    ((clausesWithout k clauses).map (·.kind)).contains (.mark other) =
      (clauses.map (·.kind)).contains (.mark other) :=
  contains_kind_filter fun heq => h (ClauseKind.mark.inj heq)

/-- The marks that are searched for one after the other: references are gone before the others are searched. -/
def Searched (k : MarkKind) (clauses : List Clause) : Prop :=
  k ≠ .reference → ClauseKind.mark .reference ∉ clauses.map (·.kind)

theorem topLevel_clauses_of_not_mem (h : Precedes base clauses) (href : Searched k clauses)
    (hk : ClauseKind.mark k ∉ clauses.map (·.kind)) : k.marker.topLevel (base ++ clauseText clauses) = [] := by
  have hrefs : ClauseKind.mark .reference ∉ clauses.map (·.kind) := by
    by_cases hkind : k = .reference
    · exact hkind ▸ hk
    · exact href hkind
  have hbase := h.passes clauses (List.Sublist.refl _) k
  have hclauses : ∀ before, k.marker.Passes (clauseText []) .outermost before (clauseText clauses) := fun before =>
    passes_clauses (kind_ne hk) (kind_ne hrefs) (kind_ne_default h.noDefault)
      (by rw [List.append_nil]; exact h.settled)
  have hlevel : base.foldl Nesting.next .outermost = .outermost := h.balanced
  refine topLevel_of_passes k.consumes_marker (Passes.append ?_ ?_)
  · rwa [List.append_nil]
  · rw [hlevel]
    exact hclauses _

/-- The mark of a kind is found where it stands, and only the search for references may find more. -/
theorem topLevel_clauses_of_mem (h : Precedes base clauses) (href : Searched k clauses)
    (hk : ClauseKind.mark k ∈ clauses.map (·.kind)) :
    ∃ front c back, clauses = front ++ c :: back ∧ c.kind = .mark k ∧ clausesWithout k clauses = front ++ back ∧
      ∃ o os, k.marker.topLevel (base ++ clauseText clauses) = o :: os ∧
        o ∈ k.marker.occurrences (base ++ clauseText clauses) ∧ o.before = base ++ clauseText front ∧
          o.reading = ⟨c.text, c.parts, clauseText back⟩ ∧ (k ≠ .reference → os = []) := by
  obtain ⟨front, c, back, rfl, hkind, hwithout⟩ := exists_split_of_mem_kind
    (List.nodup_iff_count_le_one.mp h.distinct _) hk
  have hwithout : clausesWithout k (front ++ c :: back) = front ++ back := hwithout
  refine ⟨front, c, back, rfl, hkind, hwithout, ?_⟩
  have hothers : ∀ d ∈ front ++ back, d.kind ≠ .mark k := fun d hd => (mem_clausesWithout.mp (hwithout ▸ hd)).2
  have hrefs : ∀ d ∈ front ++ back, d.kind ≠ .mark .reference := by
    intro d hd heq
    by_cases hreference : k = .reference
    · exact hothers d hd (hreference ▸ heq)
    · refine href hreference (List.mem_map.mpr ⟨d, ?_, heq⟩)
      rcases List.mem_append.mp hd with hd | hd <;> simp [hd]
  have hdefaults : ∀ d ∈ front ++ c :: back, d.kind ≠ .default := kind_ne_default h.noDefault
  have hplain : ∀ d ∈ front, d.kind ≠ .mark k ∧ d.kind ≠ .mark .reference ∧ d.kind ≠ .default := fun d hd =>
    ⟨hothers d (List.mem_append_left _ hd), hrefs d (List.mem_append_left _ hd),
      hdefaults d (List.mem_append_left _ hd)⟩
  have hlevel : base.foldl Nesting.next .outermost = .outermost := h.balanced
  have hbase := h.passes _ (List.Sublist.refl _) k
  rw [clauseText_append, clauseText_cons] at hbase
  have hfront : ∀ before, k.marker.Passes (clauseText (c :: back)) .outermost before (clauseText front) := fun before =>
    passes_clauses (fun d hd => (hplain d hd).1) (fun d hd => (hplain d hd).2.1) (fun d hd => (hplain d hd).2.2)
      h.settled
  have hpasses : k.marker.Passes (c.text ++ clauseText back) .outermost none (base ++ clauseText front) := by
    refine hbase.append ?_
    rw [hlevel]
    exact hfront _
  have hbalanced : Balanced (base ++ clauseText front) := h.balanced.append
    (balanced_flatMap fun d hd => d.balanced (hplain d hd).2.1 (hplain d hd).2.2)
  have hsplit : base ++ clauseText (front ++ c :: back) =
      (base ++ clauseText front) ++ (c.text ++ clauseText back) := by
    rw [clauseText_append, clauseText_cons, List.append_assoc]
  obtain ⟨o, os, htop, ho, hbefore, hreading, hrest⟩ :=
    topLevel_eq_cons k.consumes_marker hpasses (reads_clause c hkind back _) hbalanced
  refine ⟨o, os, by rw [hsplit]; exact htop, by rw [hsplit]; exact ho, hbefore, hreading, fun hreference => hrest ?_⟩
  have hlevel : c.text.foldl Nesting.next .outermost = .outermost :=
    c.balanced (fun heq => hreference (ClauseKind.mark.inj (hkind.symm.trans heq))) (hdefaults c (by simp))
  rw [hlevel]
  have hsettled : Settled (back ++ []) := by
    rw [List.append_nil]
    exact h.settled.sublist ((List.sublist_cons_self c back).trans (List.sublist_append_right front _))
  exact passes_clauses (fun d hd => hothers d (List.mem_append_right _ hd))
    (fun d hd => hrefs d (List.mem_append_right _ hd)) (fun d hd => hdefaults d (by simp [hd])) hsettled

theorem takeAll_clauses (h : Precedes base clauses) (href : Searched k clauses) (hk : k ≠ .reference) :
    Markers.takeAll k.marker (base ++ clauseText clauses) =
      (base ++ clauseText (clausesWithout k clauses), (clauses.map (·.kind)).contains (.mark k)) := by
  by_cases hmem : ClauseKind.mark k ∈ clauses.map (·.kind)
  · obtain ⟨front, c, back, -, -, hwithout, o, os, htop, ho, hbefore, hreading, hrest⟩ :=
      topLevel_clauses_of_mem h href hmem
    have hafter : o.after = clauseText back := congrArg Match.rest hreading
    rw [hrest hk] at htop
    rw [Markers.takeAll, htop, List.map_singleton, cut_singleton ho, hbefore, hafter, hwithout,
      clauseText_append, List.append_assoc, List.contains_iff_mem.mpr hmem]
    rfl
  · have hcontains : (clauses.map (·.kind)).contains (.mark k) = false :=
      Bool.eq_false_iff.mpr fun hcontains => hmem (List.contains_iff_mem.mp hcontains)
    rw [Markers.takeAll, topLevel_clauses_of_not_mem h href hmem, clausesWithout_of_not_mem hmem, hcontains]
    rfl

def DeclaredReference.inline (r : DeclaredReference) : InlineReference :=
  ⟨.ofList r.target.text, r.first.string :: r.more.map (·.string)⟩

theorem reference?_of_kind_ne {c : Clause} (h : c.kind ≠ .mark .reference) : c.reference? = none := by
  cases c with
  | references => exact absurd rfl h
  | notNull => rfl
  | primaryKey => rfl
  | check => rfl
  | default => rfl

theorem takeReference_clauses (h : Precedes base clauses) :
    Markers.takeReference (base ++ clauseText clauses) =
      (base ++ clauseText (clausesWithout .reference clauses), (clauses.findSome? (·.reference?)).map (·.inline)) := by
  have href : Searched .reference clauses := fun hne => absurd rfl hne
  by_cases hmem : ClauseKind.mark .reference ∈ clauses.map (·.kind)
  · obtain ⟨front, c, back, rfl, hkind, hwithout, o, os, htop, -, hbefore, hreading, -⟩ :=
      topLevel_clauses_of_mem h href hmem
    have htop : referenceMarker.topLevel (base ++ clauseText (front ++ c :: back)) = o :: os := htop
    have hafter : o.after = clauseText back := congrArg Match.rest hreading
    have hfront : front.findSome? (·.reference?) = none := by
      rw [List.findSome?_eq_none_iff]
      intro d hd
      exact reference?_of_kind_ne (mem_clausesWithout.mp (hwithout ▸ List.mem_append_left _ hd)).2
    have hrest : base ++ clauseText front ++ clauseText back = base ++ clauseText (front ++ back) := by
      rw [clauseText_append, List.append_assoc]
    rw [Markers.takeReference, htop, hwithout, List.findSome?_append, hfront, Option.none_or]
    simp only [hbefore, hafter, Occurrence.part_eq, hreading, hrest]
    cases c with
    | references r =>
        have hcolumns : (Clause.references r).parts = [(.columns, r.list), (.table, r.target.text)] := rfl
        rw [List.findSome?_cons, hcolumns]
        simp [Match.part, Match.part?, Clause.reference?, DeclaredReference.inline, r.splitIdentifiers_list]
    | notNull => cases hkind
    | primaryKey => cases hkind
    | check => cases hkind
    | default => cases hkind
  · have htop : referenceMarker.topLevel (base ++ clauseText clauses) = [] :=
      topLevel_clauses_of_not_mem h href hmem
    have hnone : clauses.findSome? (·.reference?) = none := by
      rw [List.findSome?_eq_none_iff]
      exact fun c hc => reference?_of_kind_ne (kind_ne hmem c hc)
    rw [Markers.takeReference, htop, clausesWithout_of_not_mem hmem, hnone]
    rfl

def markersOf (clauses : List Clause) : Markers where
  primaryKey := (clauses.map (·.kind)).contains (.mark .primaryKey)
  notNull := (clauses.map (·.kind)).contains (.mark .notNull)
  reference := (clauses.findSome? (·.reference?)).map (·.inline)

theorem clausesWithout_all (h : ClauseKind.default ∉ clauses.map (·.kind)) :
    clausesWithout .notNull (clausesWithout .primaryKey (clausesWithout .reference clauses)) =
      clauses.filter (·.kind = .check) := by
  simp only [clausesWithout, List.filter_filter]
  refine List.filter_congr fun c hc => ?_
  have hdefault := kind_ne_default h c hc
  cases c <;> simp_all [Clause.kind]

theorem take_clauses {bare : Bool} (h : Precedes base clauses)
    (hnull : bare = true → nullMarker.Passes (ClauseLine.checkText clauses) .outermost none base)
    (htrim : Trimmed (base ++ ClauseLine.checkText clauses)) :
    Markers.take bare (base ++ clauseText clauses) = (base ++ ClauseLine.checkText clauses, markersOf clauses) := by
  have hreference := takeReference_clauses h
  have hsome : Precedes base (clausesWithout .reference clauses) := h.sublist clausesWithout_sublist
  have hprimary := takeAll_clauses (k := .primaryKey) hsome (fun _ => not_mem_clausesWithout) (by decide)
  have hnone : Searched .notNull (clausesWithout .primaryKey (clausesWithout .reference clauses)) :=
    fun _ hmem => not_mem_clausesWithout ((clausesWithout_sublist.map _).subset hmem)
  have hnotNull := takeAll_clauses (hsome.sublist clausesWithout_sublist) hnone (by decide)
  simp only [MarkKind.marker] at hprimary hnotNull
  rw [clausesWithout_all h.noDefault, contains_clausesWithout (by decide), contains_clausesWithout (by decide)]
    at hnotNull
  rw [contains_clausesWithout (by decide)] at hprimary
  have hbare : bare = true → (Markers.takeAll nullMarker (base ++ ClauseLine.checkText clauses)).1 =
      base ++ ClauseLine.checkText clauses := by
    intro hbare
    have hchecks : ∀ before, nullMarker.Passes (clauseText []) .outermost before (ClauseLine.checkText clauses) :=
      fun before => passes_nullMarker fun c hc => by simpa using (List.mem_filter.mp hc).2
    have hlevel : base.foldl Nesting.next .outermost = .outermost := h.balanced
    have htop : nullMarker.topLevel (base ++ ClauseLine.checkText clauses) = [] := by
      refine topLevel_of_passes (consumes_of_not_nullable rfl) (Passes.append ?_ ?_)
      · rw [List.append_nil]
        exact hnull hbare
      · rw [hlevel]
        exact hchecks _
    rw [Markers.takeAll, htop]
    rfl
  cases bare with
  | false =>
      simp only [Markers.take, hreference, hprimary, hnotNull, Bool.false_eq_true, if_false, markersOf]
      rw [ClauseLine.checkText] at htrim ⊢
      rw [htrim.trim_eq]
  | true =>
      have hbare := hbare rfl
      rw [ClauseLine.checkText] at htrim hbare ⊢
      simp only [Markers.take, hreference, hprimary, hnotNull, if_true, hbare, htrim.trim_eq, markersOf]

end SchemaDump.PostgreSQL
