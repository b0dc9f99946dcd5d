import SchemaDump.Definition.Marker
import SchemaDump.Proofs.Definition.QuotedNames
import SchemaDump.Proofs.Schema.WellFormed
/- The names that identifiers leave once their quotes are gone. Only an identifier made of quotes and blanks can
leave none; the columns in a list of identifiers always have a name. -/
namespace SchemaDump
open SqlPattern Pattern

variable {d : Dialect} {identifier fragment : Text} {name : String}

theorem mem_trim_of_not_blank {c : Char} {t : Text} (hmem : c ∈ t) (hc : isBlank c = false) : c ∈ t.trim := by
  have hstart : ∀ u : Text, c ∈ u → c ∈ u.dropWhile isBlank := by
    intro u hu
    rw [← List.takeWhile_append_dropWhile (p := isBlank) (l := u)] at hu
    rcases List.mem_append.mp hu with hu | hu
    · exact absurd (List.all_eq_true.mp List.all_takeWhile c hu) (by simp [hc])
    · exact hu
  rw [Text.trim, Text.trimEnd, List.mem_reverse]
  exact hstart _ (List.mem_reverse.mpr (hstart t hmem))

theorem unquote_ne_nil (h : isHollow identifier = false) : unquote identifier ≠ [] := by
  obtain ⟨c, hmem, hc⟩ := List.all_eq_false.mp h
  simp only [Bool.not_eq_true, Bool.or_eq_false_iff, beq_eq_false_iff_ne, ne_eq] at hc
  obtain ⟨⟨hdouble, hback⟩, hblank⟩ := hc
  refine List.ne_nil_of_mem (List.mem_filter.mpr ⟨mem_trim_of_not_blank hmem hblank, ?_⟩)
  simp [hdouble, hback]

theorem ofList_ne_empty {t : Text} (h : t ≠ []) : String.ofList t ≠ "" := by
  intro heq
  exact h (String.ofList_injective heq)

theorem normalizeName_ne_empty (h : isHollow identifier = false) : d.normalizeName identifier ≠ "" := by
  have hname := ofList_ne_empty (unquote_ne_nil h)
  rw [Dialect.normalizeName]
  split
  · exact hname
  · split
    · exact ofList_ne_empty (List.cons_ne_nil _ _)
    · exact hname

theorem ne_empty_of_mem_splitIdentifiers {list : Text} (h : name ∈ splitIdentifiers list) : name ≠ "" := by
  obtain ⟨item, -, hname⟩ := List.mem_filterMap.mp h
  split at hname
  · cases hname
  · rw [← Option.some.inj hname]
    exact ofList_ne_empty (List.cons_ne_nil _ _)

/-- What stands in front of the name of a table, in whichever quotes it is. -/
def TableFront (front : Text) : Prop := ∀ quote, NameFront quote front

theorem endsIn_tableWord {word : String} (hword : word ∈ tableWords) (p : SqlPattern) :
    (p ++ keyword word ++ blanks).EndsIn TableFront := by
  refine EndsIn.assoc (EndsIn.behind ?_ p)
  intro before t r hr
  obtain ⟨a, ha, b, hb, rfl⟩ := mem_readings_seq.mp hr
  obtain ⟨hne, -, -, hblank⟩ := mem_readings_run1 hb
  exact ⟨[], _, rfl, fun quote => .word hword (mem_readings_keyword.mp ha).2.1 hne hblank⟩

/-- The name of a table that is created may stand behind the question whether there is one. -/
theorem endsIn_creation (p : SqlPattern) :
    (p ++ keyword "TABLE" ++ blanks ++ maybe (phrase ["IF", "NOT", "EXISTS"] ++ blanks)).EndsIn TableFront := by
  refine (endsIn_tableWord (by decide) p).maybe (EndsIn.assoc (EndsIn.behind ?_ _))
  exact endsIn_tableWord (by decide) _

theorem isHollow_bare {c : Char} (hc : isBareChar c) : isHollow [c] = false := by
  rw [← Bool.not_eq_true]
  intro hhollow
  simp only [isHollow, List.all_cons, List.all_nil, Bool.and_true, Bool.or_eq_true_iff, beq_iff_eq] at hhollow
  rcases hhollow with (rfl | rfl) | hblank
  · exact absurd hc (by decide)
  · exact absurd hc (by decide)
  · rw [isBareChar_eq_false_of_isBlank hblank] at hc
    cases hc

theorem hollowInQuotes_identifier : HollowInQuotes SqlPattern.identifier :=
  (hollowInQuotes_quoted (.inl rfl)).alt ((hollowInQuotes_quoted (.inr rfl)).alt
    (hollowInQuotes_run1 (fun _ => isHollow_bare) _))

theorem hollowInQuotes_qualified : HollowInQuotes qualified := by
  refine hollowInQuotes_identifier.maybe fun before t r hr => ?_
  obtain ⟨a, ha, b, -, rfl⟩ := mem_readings_seq.mp hr
  obtain ⟨c, hc, -, hread, -⟩ := mem_readings_one ha
  rw [Match.andThen_read, hread, beq_iff_eq.mp hc]
  rfl

/-- A name behind such a front has a character of its own. -/
theorem not_hollow_part {p inner : SqlPattern} {label : Part} {before : Option Char} {t : Text} {r : Match Part}
    (hp : p.HasPart label TableFront inner) (hinner : HollowInQuotes inner) (hsolid : Solid t)
    (hr : r ∈ p.readings before t) : isHollow (r.part label) = false := by
  obtain ⟨x, front, w, y, hread, hfront, hpart, b, v, a, ha, rfl⟩ := hp before t r hr
  rw [Match.part, hpart, Option.getD_some, ← Bool.not_eq_true]
  intro hhollow
  obtain ⟨quote, hquotes⟩ := hinner b v a ha hhollow
  have hmem := hquotes.mem_quotedNames (hfront quote) x (y ++ r.rest)
  have htext : x ++ (front ++ (a.read ++ (y ++ r.rest))) = t := by
    rw [← readings_text p before t r hr, hread]
    simp only [List.append_assoc]
  rw [htext] at hmem
  rw [hsolid _ hmem] at hhollow
  cases hhollow

theorem hasPart_foreignKeyDefinition : foreignKeyDefinition.HasPart .table TableFront qualified :=
  ((((((endsIn_tableWord (by decide) _).hasPart .table qualified).seq (by decide)).seq (by decide)).seq
    (by decide)).seq (by decide))

theorem Constraint.wellFormed_of_parse? {constraint : Constraint}
    (hparse : Constraint.parse? d fragment = some constraint) (hsolid : Solid fragment) : constraint.WellFormed := by
  rw [Constraint.parse?] at hparse
  simp only at hparse
  split at hparse
  · split at hparse
    · cases hparse
    · rw [← Option.some.inj hparse]
      intro key hkey
      cases hkey
  · split at hparse
    · cases hparse
    · next o hopening =>
      split at hparse
      · cases hparse
      · cases hparse
      · rw [← Option.some.inj hparse]
        intro key hkey
        obtain ⟨a, b, htrim, -⟩ := exists_trim fragment
        have hsolid : Solid fragment.trim := hsolid.within ⟨a, b, by rw [List.append_assoc, ← htrim]⟩
        have htable := normalizeName_ne_empty (d := d) (not_hollow_part hasPart_foreignKeyDefinition
          hollowInQuotes_qualified hsolid (Constraint.mem_readings_of_opening? hopening))
        rw [← Occurrence.part_eq] at htable
        exact ForeignKeyList.wellFormed_of_mem_decompose htable
          (fun _ => ne_empty_of_mem_splitIdentifiers) hkey

namespace Markers

variable {m : Markers} {column : String}

/-- Whether the table that a marker on a column refers to has a name. -/
def Leads (m : Markers) : Prop := ∀ r ∈ m.reference, isHollow r.table.toList = false

/-- Whether the columns of a reference have names. -/
def HasNames (m : Markers) : Prop := ∀ r ∈ m.reference, ∀ column ∈ r.columns, column ≠ ""

theorem hasNames_take (bareNull : Bool) (fragment : Text) : (take bareNull fragment).2.HasNames := by
  have href : (take bareNull fragment).2.reference = (takeReference fragment).2 := rfl
  intro r hr column hcolumn
  rw [href, takeReference] at hr
  split at hr
  · cases hr
  · split at hr
    · cases hr
    · next o _ _ _ =>
      rw [← Option.some.inj hr] at hcolumn
      exact ne_empty_of_mem_splitIdentifiers hcolumn

theorem HasNames.merge {a b : Markers} (ha : a.HasNames) (hb : b.HasNames) : (a.merge b).HasNames := by
  intro r hr
  cases h : a.reference with
  | some own =>
      have hown : own = r := by simpa [Markers.merge, h] using hr
      exact ha r (hown ▸ h)
  | none =>
      have hother : b.reference = some r := by simpa [Markers.merge, h] using hr
      exact hb r hother

theorem hasPart_referenceMarker : referenceMarker.HasPart .table TableFront qualified :=
  ((((((((endsIn_tableWord (by decide) _).hasPart .table qualified).seq (by decide)).seq (by decide)).seq
    (by decide)).seq (by decide)).seq (by decide)).seq (by decide))

theorem leads_take (bareNull : Bool) {text : Text} (hsolid : Solid text) : (take bareNull text).2.Leads := by
  have href : (take bareNull text).2.reference = (takeReference text).2 := rfl
  intro r hr
  rw [href, takeReference] at hr
  split at hr
  · cases hr
  · next o rest hfound =>
    split at hr
    · cases hr
    · have ho : o ∈ referenceMarker.occurrences text :=
        (List.mem_filter.mp (hfound ▸ List.mem_cons_self : o ∈ referenceMarker.topLevel text)).1
      obtain ⟨v, htext, hread⟩ := exists_of_mem_occurrences ho
      rw [← Option.some.inj hr, String.toList_ofList, Occurrence.part_eq]
      exact not_hollow_part hasPart_referenceMarker hollowInQuotes_qualified
        (hsolid.within (htext ▸ (List.suffix_append _ v).isInfix)) (mem_of_read? hread)

theorem Leads.merge {a b : Markers} (ha : a.Leads) (hb : b.Leads) : (a.merge b).Leads := by
  intro r hr
  rw [Markers.merge, Option.mem_def, Option.orElse_eq_orElse, Option.orElse_eq_or] at hr
  rcases Option.or_eq_some_iff.mp hr with hr | ⟨-, hr⟩
  · exact ha r hr
  · exact hb r hr

theorem leads_ofColumn {type : Text} {default : Option Text} (htype : Solid type) (hdefault : ∀ raw ∈ default, Solid raw) :
    (ofColumn type default).2.2.Leads := by
  cases default with
  | none => exact leads_take true htype
  | some raw => exact (leads_take true htype).merge (leads_take false (hdefault raw rfl))

theorem hasNames_ofColumn (type : Text) (default : Option Text) : (ofColumn type default).2.2.HasNames := by
  cases default with
  | none => exact hasNames_take true type
  | some raw => exact (hasNames_take true type).merge (hasNames_take false raw)

/-- A key on a column is its own, and leads to a named column of a named table. -/
theorem wellFormed_foreignKey? {key : ForeignKey} (hkey : m.foreignKey? d column = some key)
    (hnames : m.HasNames) (hleads : m.Leads) : key.WellFormed column := by
  rw [foreignKey?] at hkey
  split at hkey
  · next table target rest href =>
    rw [← Option.some.inj hkey]
    exact ⟨rfl, normalizeName_ne_empty (hleads _ href), hnames _ href target List.mem_cons_self⟩
  · cases hkey

end Markers
end SchemaDump
