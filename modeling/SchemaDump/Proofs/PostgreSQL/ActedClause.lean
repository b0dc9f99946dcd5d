import SchemaDump.Proofs.PostgreSQL.ClauseRemoval
/- Clauses with more actions behind a reference. The actions are any of those that a reference is read with, so they
are cut off together with it, and what is left is what would be left without them. -/
namespace SchemaDump.PostgreSQL
open SqlPattern Pattern

variable {before : Option Char} {base v : Text} {clauses front back : List Clause} {actions : List ReferentialAction}

/-- A clause, with actions behind it if it is a reference. -/
def Clause.acted (actions : List ReferentialAction) : Clause → Text
  | references r => r.text ++ actionText actions
  | c => c.text

def actedText (actions : List ReferentialAction) (clauses : List Clause) : Text := clauses.flatMap (·.acted actions)

theorem actedText_append (front back : List Clause) :
    actedText actions (front ++ back) = actedText actions front ++ actedText actions back := List.flatMap_append

theorem actedText_cons (c : Clause) (clauses : List Clause) :
    actedText actions (c :: clauses) = c.acted actions ++ actedText actions clauses := List.flatMap_cons

namespace Clause

variable {c : Clause}

theorem acted_of_kind_ne (h : c.kind ≠ .mark .reference) : c.acted actions = c.text := by
  cases c with
  | references => exact absurd rfl h
  | _ => rfl

theorem acted_nil (c : Clause) : c.acted [] = c.text := by
  cases c with
  | references r => rw [acted, text_references, actionText, List.flatMap_nil, List.append_nil]
  | _ => rfl

theorem exists_acted_eq (c : Clause) (actions : List ReferentialAction) :
    ∃ tail, c.acted actions = c.text ++ actionText tail := by
  cases c with
  | references r => exact ⟨actions, by rw [acted, text_references]⟩
  | _ => exact ⟨[], (List.append_nil _).symm⟩

end Clause

theorem actedText_nil (clauses : List Clause) : actedText [] clauses = clauseText clauses :=
  congrArg (List.flatMap · clauses) (funext Clause.acted_nil)

theorem actedText_of_no_reference (h : ∀ c ∈ clauses, c.kind ≠ .mark .reference) :
    actedText actions clauses = clauseText clauses := by
  rw [actedText, clauseText, List.flatMap_congr fun c hc => Clause.acted_of_kind_ne (h c hc)]

/-- Whichever of the clauses behind them are left, no reference that is read in the text of a clause that may say
anything goes on behind this text. -/
def ActedSettled (actions : List ReferentialAction) : List Clause → Prop
  | [] => True
  | c :: clauses => (∀ rest ∈ clauses.sublists,
      referenceMarker.ReadsWithin (lastOf none c.head) c.opaqueText (c.tail ++ actedText actions rest)) ∧
        ActedSettled actions clauses

instance decidableActedSettled (actions : List ReferentialAction) :
    (clauses : List Clause) → Decidable (ActedSettled actions clauses)
  | [] => inferInstanceAs (Decidable True)
  | _ :: clauses =>
      have := decidableActedSettled actions clauses
      inferInstanceAs (Decidable (_ ∧ _))

theorem Settled.acted_nil (h : Settled clauses) : ActedSettled [] clauses := by
  induction clauses with
  | nil => trivial
  | cons c clauses ih =>
      refine ⟨fun rest hrest => ?_, ih h.2⟩
      rw [actedText_nil]
      exact h.1 rest hrest .reference

theorem ActedSettled.sublist {some all : List Clause} (h : ActedSettled actions all) (hsub : some.Sublist all) :
    ActedSettled actions some := by
  induction hsub with
  | slnil => trivial
  | cons _ _ ih => exact ih h.2
  | cons_cons c hsub ih =>
      exact ⟨fun rest hrest => h.1 rest (List.mem_sublists.mpr ((List.mem_sublists.mp hrest).trans hsub)), ih h.2⟩

theorem ActedSettled.within {c : Clause} (h : ActedSettled actions (front ++ c :: back)) :
    referenceMarker.ReadsWithin (lastOf none c.head) c.opaqueText (c.tail ++ actedText actions back) := by
  induction front with
  | nil => exact h.1 back (List.mem_sublists.mpr (List.Sublist.refl _))
  | cons d front ih => exact ih h.2

/-- Actions are taken off along with the reference in front of them. -/
theorem takeReference_acted (h : Precedes base clauses)
    (hbase : referenceMarker.Passes (actedText actions clauses) .outermost none base)
    (hsettled : ActedSettled actions clauses) :
    Markers.takeReference (base ++ actedText actions clauses) = Markers.takeReference (base ++ clauseText clauses) := by
  by_cases hmem : ClauseKind.mark .reference ∈ clauses.map (·.kind)
  · obtain ⟨front, c, back, rfl, hkind, hwithout, o, os, htop, -, hbefore, hreading, -⟩ :=
      topLevel_clauses_of_mem h (fun hne => absurd rfl hne) hmem
    have hothers : ∀ d ∈ front ++ back, d.kind ≠ .mark .reference := fun d hd =>
      (mem_clausesWithout.mp (hwithout ▸ hd)).2
    have hfront : ∀ d ∈ front, d.kind ≠ .mark .reference := fun d hd => hothers d (List.mem_append_left _ hd)
    have hdefault : ∀ d ∈ front, d.kind ≠ .default := fun d hd =>
      kind_ne_default h.noDefault d (List.mem_append_left _ hd)
    cases c with
    | references r =>
        have htext : actedText actions (front ++ .references r :: back) =
            clauseText front ++ ((r.text ++ actionText actions) ++ clauseText back) := by
          rw [actedText_append, actedText_cons, actedText_of_no_reference hfront,
            actedText_of_no_reference fun d hd => hothers d (List.mem_append_right _ hd)]
          rfl
        have hstops : Stops isWordChar ((r.text ++ actionText actions) ++ clauseText back) := stops_cons.mpr (by decide)
        have hpassesFront : ∀ before, referenceMarker.Passes ((r.text ++ actionText actions) ++ clauseText back)
            .outermost before (clauseText front) := fun before => by
          refine passes_front (k := .reference) hfront hfront hdefault (fun above d below hsplit => ?_) hstops
          have hbelow : ∀ e ∈ below, e.kind ≠ .mark .reference := fun e he => hfront e (hsplit ▸ by simp [he])
          rw [hsplit, List.append_assoc] at hsettled
          have hwithin := ActedSettled.within hsettled
          rwa [List.append_eq, actedText_append, actedText_of_no_reference hbelow, actedText_cons,
            actedText_of_no_reference fun e he => hothers e (List.mem_append_right _ he)] at hwithin
        have hlevel : base.foldl Nesting.next .outermost = .outermost := h.balanced
        have hpasses : referenceMarker.Passes ((r.text ++ actionText actions) ++ clauseText back) .outermost none
            (base ++ clauseText front) := by
          rw [htext] at hbase
          refine hbase.append ?_
          rw [hlevel]
          exact hpassesFront _
        have hbalanced : Balanced (base ++ clauseText front) :=
          h.balanced.append (balanced_flatMap fun d hd => d.balanced (hfront d hd) (hdefault d hd))
        obtain ⟨found, others, hacted, -, hstart, hread, -⟩ := topLevel_eq_cons (consumes_of_not_nullable rfl) hpasses
          (r.reads_acted actions back _) hbalanced
        have htop : referenceMarker.topLevel (base ++ clauseText (front ++ .references r :: back)) = o :: os := htop
        have hafter : found.after = o.after :=
          (congrArg Match.rest hread).trans (congrArg Match.rest hreading).symm
        have hpart : ∀ label, found.part label = o.part label := fun label => by
          rw [Occurrence.part_eq, Occurrence.part_eq, hread, hreading]
          rfl
        rw [htext, ← List.append_assoc, Markers.takeReference, Markers.takeReference, hacted, htop]
        simp only [hstart, hbefore, hafter, hpart]
    | notNull => cases hkind
    | primaryKey => cases hkind
    | check => cases hkind
    | default => cases hkind
  · rw [actedText_of_no_reference (kind_ne hmem)]

theorem take_acted {bare : Bool} (h : Precedes base clauses)
    (hbase : referenceMarker.Passes (actedText actions clauses) .outermost none base)
    (hsettled : ActedSettled actions clauses) :
    Markers.take bare (base ++ actedText actions clauses) = Markers.take bare (base ++ clauseText clauses) := by
  simp only [Markers.take, takeReference_acted h hbase hsettled]

namespace ClauseLine

variable (c : ClauseLine)

/-- The line with more actions behind its reference. -/
def actedText (actions : List ReferentialAction) : Text :=
  c.name.text ++ ' ' :: (c.type.text ++ PostgreSQL.actedText actions c.clauses)

theorem actedText_nil : c.actedText [] = c.text := by
  rw [actedText, PostgreSQL.actedText_nil, text]

/-- With the actions the line is still read clause by clause: in front of the default no `DEFAULT` stands between
blanks, be it in an action, and no reference goes on behind the text of a clause. -/
structure ReadableWith (actions : List ReferentialAction) : Prop where
  plain : defaultOpening.occursIn
    (PostgreSQL.actedText actions c.front ++ (PostgreSQL.actedText actions c.defaulted).take 1) = false
  front : ActedSettled actions c.front
  defaulted : ActedSettled actions c.defaulted

end ClauseLine

end SchemaDump.PostgreSQL
