import SchemaDump.Proofs.Definition.TopLevel
import SchemaDump.Proofs.Pattern.WordAhead
/- The patterns of markers. A marker opens with its own word, with blanks in front of it, or with the word of a
name. What it reads at the top level is taken off a text. -/
namespace SchemaDump
open SqlPattern Pattern

variable {before : Option Char} {p : SqlPattern} {g t u v w : Text} {ps : List (Part × Text)}

theorem OpensWith.named {words : List String} (h : OpensWith words BlankAhead p) :
    OpensWith ("CONSTRAINT" :: words) BlankAhead (markerName ++ p) := by
  have hname : OpensWith ["CONSTRAINT"] BlankAhead
      (wordEdge ++ keyword "CONSTRAINT" ++ blanks ++ identifier ++ blanks) := by
    simp only [opensWith_assoc]
    exact opensWith_blanks (by decide) (by decide) _
  exact hname.maybe h

theorem opensWith_notNullMarker : OpensWith ["NOT"] BlankAhead notNullMarker := by
  rw [notNullMarker, opensWith_assoc, opensWith_assoc]
  exact (opensWith_phrase (by decide) (by decide) "NULL" [] _).gap

theorem opensWith_primaryKeyMarker : OpensWith ["CONSTRAINT", "PRIMARY"] BlankAhead primaryKeyMarker := by
  rw [primaryKeyMarker]
  simp only [opensWith_assoc]
  exact (opensWith_phrase (by decide) (by decide) "KEY" [] _).named.gap

theorem opensWith_referenceMarker : OpensWith ["CONSTRAINT", "REFERENCES"] BlankAhead referenceMarker := by
  rw [referenceMarker]
  simp only [opensWith_assoc]
  exact (opensWith_blanks (by decide) (by decide) _).named.gap

theorem opensWith_nullMarker : OpensWith ["NULL"] (Stops isWordChar) nullMarker := by
  rw [nullMarker, opensWith_assoc, opensWith_assoc]
  exact (opensWith_word (by decide) (by decide)).gap

theorem read?_edge_seq {b c : Char} (hb : isWordChar b = false) (hc : isWordChar c) (q : SqlPattern)
    (t : Text) : (wordEdge ++ q).read? (some b) (c :: t) = q.read? (some b) (c :: t) := by
  have hedge : (wordEdge : SqlPattern).readings (some b) (c :: t) = [⟨[], [], c :: t⟩] := by
    simp [readings, hb, hc]
  rw [read?_single_seq hedge, lastOf_nil]
  cases q.read? (some b) (c :: t) <;> rfl

theorem read?_markerName_seq (ht : Stops (sameLetter 'C') t) (q : SqlPattern) :
    (markerName ++ q).read? before t = q.read? before t := by
  refine read?_maybe_seq_of_none ?_
  have hedge : (wordEdge ++ keyword "CONSTRAINT" : SqlPattern).read? before t = none := by
    rw [read?_seq_eq_none]
    intro a ha
    have hrest : a.rest = t := by
      rw [readings] at ha
      split at ha
      · rw [List.mem_singleton.mp ha]
      · cases ha
    rw [hrest]
    exact Rejects.keyword rfl ht _
  exact read?_seq_none (read?_seq_none (read?_seq_none hedge))

theorem reads_edge {c : Char} (h : p.Reads u v ps) (hu : u.getLast? = some c) (hc : isWordChar c)
    (hv : Stops isWordChar v) : (p ++ wordEdge).Reads u v ps := by
  intro before
  have hlast : lastOf before u = some c := by rw [lastOf_eq, hu]; rfl
  have hstop : v.head?.any isWordChar = false := by
    cases v with
    | nil => rfl
    | cons d v => exact stops_cons.mp hv
  have hedge : (wordEdge : SqlPattern).read? (lastOf before u) v = some ⟨[], [], v⟩ := by
    simp [read?, readings, hlast, hc, hstop]
  have h := read?_seq (h before) hedge
  simpa [Match.andThen] using h

section Blanks

variable {c : Char} (hne : g ≠ []) (hg : ∀ d ∈ g, isBlank d) (hc : isWordChar c)

include hne hg hc

theorem reads_behind_blanks (hread : ∀ b, isWordChar b = false → p.read? (some b) (c :: (u ++ v)) = some ⟨c :: u, ps, v⟩) :
    (Pattern.gap ++ p).Reads (g ++ c :: u) v ps := by
  have hgap : (Pattern.gap : SqlPattern).Reads g (c :: (u ++ v)) [] :=
    reads_run hg (stops_cons.mpr (isBlank_eq_false_of_isWordChar hc))
  intro before
  obtain ⟨b, hb⟩ := Option.ne_none_iff_exists'.mp (mt List.getLast?_eq_none_iff.mp hne)
  have hlast : lastOf before g = some b := by
    rw [lastOf_eq, hb]
    rfl
  have hbehind := hread b (isWordChar_eq_false_of_isBlank (hg b (List.mem_of_getLast? hb)))
  rw [← hlast] at hbehind
  simpa [Match.andThen] using read?_seq (hgap before) hbehind

theorem reads_behind_edge (h : p.Reads (c :: u) v ps) :
    (Pattern.gap ++ (wordEdge ++ p)).Reads (g ++ c :: u) v ps :=
  reads_behind_blanks hne hg hc fun b hb => (read?_edge_seq hb hc p _).trans (h (some b))

theorem reads_unnamed (hletter : sameLetter 'C' c = false) (h : p.Reads (c :: u) v ps) :
    (Pattern.gap ++ (markerName ++ (wordEdge ++ p))).Reads (g ++ c :: u) v ps := by
  refine reads_behind_blanks hne hg hc fun b hb => ?_
  rw [read?_markerName_seq (stops_cons.mpr hletter)]
  exact (read?_edge_seq hb hc p _).trans (h (some b))

end Blanks

theorem reads_notNullMarker (hne : g ≠ []) (hg : ∀ c ∈ g, isBlank c) (hv : Stops isWordChar v) :
    notNullMarker.Reads (g ++ spacedWords ["NOT", "NULL"]) v [] := by
  have hphrase : (phrase ["NOT", "NULL"] : SqlPattern).Reads (spacedWords ["NOT", "NULL"]) v [] :=
    reads_phrase (by decide) (by decide) _
  simp only [notNullMarker, reads_assoc]
  exact reads_behind_edge hne hg (by decide) (reads_edge hphrase (c := 'L') rfl (by decide) hv)

theorem reads_primaryKeyMarker (hne : g ≠ []) (hg : ∀ c ∈ g, isBlank c) (hv : Stops isWordChar v) :
    primaryKeyMarker.Reads (g ++ spacedWords ["PRIMARY", "KEY"]) v [] := by
  have hphrase : (phrase ["PRIMARY", "KEY"] : SqlPattern).Reads (spacedWords ["PRIMARY", "KEY"]) v [] :=
    reads_phrase (by decide) (by decide) _
  simp only [primaryKeyMarker, reads_assoc]
  exact reads_unnamed hne hg (by decide) (by decide) (reads_edge hphrase (c := 'Y') rfl (by decide) hv)

theorem merge_eq (l m : Markers) :
    l.merge m = ⟨l.primaryKey || m.primaryKey, l.notNull || m.notNull, l.reference.or m.reference⟩ := by
  rw [Markers.merge]
  cases l.reference <;> rfl

theorem merge_assoc (l m n : Markers) : (l.merge m).merge n = l.merge (m.merge n) := by
  simp only [merge_eq, Bool.or_assoc, Option.or_assoc]

theorem merge_empty (m : Markers) : m.merge {} = m := by simp [merge_eq]

theorem takeAll_of_silent (h : p.Silent none t []) : Markers.takeAll p t = (t, false) := by
  rw [Markers.takeAll, topLevel_of_silent h]
  rfl

end SchemaDump
