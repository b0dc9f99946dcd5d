import SchemaDump.Definition.Constraint
import SchemaDump.Proofs.Definition.NameList
import SchemaDump.Proofs.Pattern.LineBreak
/- Definitions in a text with carriage returns. They come out as without, and the names in a
list carry the line breaks that stand inside quotes. -/
namespace SchemaDump
open Text

variable {t : Text}

theorem splitAtSeparators_withReturns (h : '\r' ∉ t) :
    splitAtSeparators t.withReturns = (splitAtSeparators t).map withReturns := by
  fun_induction splitAtSeparators t with
  | case1 => rfl
  | case2 rest ih =>
      have hrest := List.not_mem_of_not_mem_cons (List.not_mem_of_not_mem_cons h)
      rw [withReturns_cons (by decide), withReturns_feed, splitAtSeparators, ih hrest]
      rfl
  | case3 rest ih => simp at h
  | case4 c rest hfeed hreturn hnil ih => exact absurd hnil (splitAtSeparators_ne_nil rest)
  | case5 c rest hfeed hreturn part parts hparts ih =>
      have hrest := List.not_mem_of_not_mem_cons h
      have ih := ih hrest
      rw [hparts] at ih
      by_cases hc : c = '\n'
      · subst hc
        obtain ⟨p, ps, hp, hpcons⟩ := splitAtSeparators_cons (c := '\n') (t := withReturns rest)
          (fun hc => absurd hc (by decide)) (fun hc => absurd hc (by decide))
        obtain ⟨q, qs, hq, hqcons⟩ := splitAtSeparators_cons (c := '\r')
          (t := '\n' :: withReturns rest) (fun hc => absurd hc (by decide))
          (fun hc => absurd hc (by decide))
        rw [hpcons] at hq
        rw [ih] at hp
        obtain ⟨rfl, rfl⟩ := List.cons.inj hp
        obtain ⟨rfl, rfl⟩ := List.cons.inj hq
        rw [withReturns_feed, hqcons]
        rfl
      · obtain ⟨p, ps, hp, hpcons⟩ := splitAtSeparators_cons (c := c) (t := withReturns rest)
          (fun _ u hu => head?_withReturns rest (by rw [hu]; rfl)) (by
            intro hcomma u hu
            cases rest with
            | nil => cases hu
            | cons d rest =>
                by_cases hd : d = '\n'
                · subst hd
                  exact hfeed rest hcomma rfl
                · rw [withReturns_cons hd] at hu
                  exact hrest ((List.cons.inj hu).1 ▸ List.mem_cons_self))
        rw [ih] at hp
        obtain ⟨rfl, rfl⟩ := List.cons.inj hp
        rw [withReturns_cons hc, hpcons, List.map_cons, withReturns_cons hc]

theorem mem_of_mem_splitAtSeparators {part : Text} {c : Char} (h : part ∈ splitAtSeparators t)
    (hc : c ∈ part) : c ∈ t := by
  fun_induction splitAtSeparators t generalizing part with
  | case1 =>
      rw [List.mem_singleton.mp h] at hc
      cases hc
  | case2 rest ih =>
      rcases List.mem_cons.mp h with rfl | h
      · cases hc
      · exact List.mem_cons_of_mem _ (List.mem_cons_of_mem _ (ih h hc))
  | case3 rest ih =>
      rcases List.mem_cons.mp h with rfl | h
      · cases hc
      · exact List.mem_cons_of_mem _ (List.mem_cons_of_mem _ (List.mem_cons_of_mem _ (ih h hc)))
  | case4 d rest hfeed hreturn hnil ih => exact absurd hnil (splitAtSeparators_ne_nil rest)
  | case5 d rest hfeed hreturn first parts hparts ih =>
      rcases List.mem_cons.mp h with rfl | h
      · rcases List.mem_cons.mp hc with rfl | hc
        · exact List.mem_cons_self
        · exact List.mem_cons_of_mem d (ih (hparts ▸ List.mem_cons_self) hc)
      · exact List.mem_cons_of_mem d (ih (hparts ▸ List.mem_cons_of_mem _ h) hc)

/-- Joining the lines of a fragment leaves nothing of the form of its line breaks. -/
theorem cleanFragment_withReturns (h : '\r' ∉ t) : cleanFragment t.withReturns = cleanFragment t := by
  rw [cleanFragment, cleanFragment, lines_withReturns h]

theorem splitDefinitions_withReturns (h : '\r' ∉ t) :
    splitDefinitions t.withReturns = splitDefinitions t := by
  rw [splitDefinitions, splitDefinitions, splitAtSeparators_withReturns h, List.map_map]
  congr 1
  apply List.map_congr_left
  intro fragment hfragment
  exact cleanFragment_withReturns fun hreturn => h (mem_of_mem_splitAtSeparators hfragment hreturn)

/-- A name whose line breaks have carriage returns. -/
def nameWithReturns (name : String) : String := .ofList (withReturns name.toList)

theorem nameWithReturns_ofList (name : Text) :
    nameWithReturns (.ofList name) = .ofList name.withReturns := by
  rw [nameWithReturns, String.toList_ofList]

theorem nameWithReturns_eq_self {name : String} (h : '\n' ∉ name.toList) :
    nameWithReturns name = name := by
  rw [nameWithReturns, withReturns_eq_self h, String.ofList_toList]

theorem leadingIdentifier_withReturns (t : Text) :
    leadingIdentifier t.withReturns = withReturns (leadingIdentifier t) := by
  cases t with
  | nil => rfl
  | cons c t =>
      by_cases hc : c = '\n'
      · subst hc
        rfl
      · rw [withReturns_cons hc, leadingIdentifier, leadingIdentifier]
        split
        · next hquote =>
          apply takeWhile_withReturns
          rw [Bool.or_eq_true, decide_eq_true_eq, decide_eq_true_eq] at hquote
          rcases hquote with rfl | rfl <;> decide
        · rw [← withReturns_cons hc]
          exact takeWhile_withReturns (show Alike fun d => !(isBlank d || d == '(') by decide) _

theorem itemName?_withReturns (t : Text) :
    itemName? t.withReturns = (itemName? t).map nameWithReturns := by
  rw [itemName?, trim_withReturns, leadingIdentifier_withReturns, itemName?]
  cases hname : leadingIdentifier t.trim with
  | nil => rfl
  | cons c name =>
      rw [Option.map_some, nameWithReturns_ofList]
      obtain ⟨d, rest, hcons⟩ := List.exists_cons_of_ne_nil
        (mt withReturns_eq_nil_iff.mp (List.cons_ne_nil c name))
      rw [hcons]

theorem splitIdentifiers_withReturns (t : Text) :
    splitIdentifiers t.withReturns = (splitIdentifiers t).map nameWithReturns := by
  rw [splitIdentifiers_eq, splitIdentifiers_eq, splitAtChar_withReturns (by decide) (by decide),
    List.filterMap_map, List.map_filterMap]
  congr 1
  exact funext itemName?_withReturns

theorem unquote_withReturns (t : Text) : unquote t.withReturns = withReturns (unquote t) := by
  rw [unquote, trim_withReturns, filter_withReturns (by decide) (by decide), unquote]

theorem dropPrefix?_withReturns {start : Text} (hfeed : '\n' ∉ start) (hreturn : '\r' ∉ start)
    (t : Text) : dropPrefix? start t.withReturns = (dropPrefix? start t).map withReturns := by
  induction start generalizing t with
  | nil => rfl
  | cons c start ih =>
      cases t with
      | nil => rfl
      | cons d t =>
          by_cases hd : d = '\n'
          · subst hd
            rw [withReturns_feed, dropPrefix?, dropPrefix?, if_neg (List.ne_of_not_mem_cons hreturn).symm,
              if_neg (List.ne_of_not_mem_cons hfeed).symm]
            rfl
          · rw [withReturns_cons hd, dropPrefix?, dropPrefix?]
            split
            · exact ih (List.not_mem_of_not_mem_cons hfeed) (List.not_mem_of_not_mem_cons hreturn) t
            · rfl

theorem normalizeName_withReturns (d : Dialect) (t : Text) :
    d.normalizeName t.withReturns = nameWithReturns (d.normalizeName t) := by
  have hschema : '\n' ∉ d.defaultSchema.toList ++ ['.'] ∧ '\r' ∉ d.defaultSchema.toList ++ ['.'] := by
    cases d <;> decide
  simp only [Dialect.normalizeName, unquote_withReturns, dropPrefix?_withReturns hschema.1 hschema.2]
  split
  · exact (nameWithReturns_ofList _).symm
  · cases hdrop : dropPrefix? (d.defaultSchema.toList ++ ['.']) (unquote t) with
    | none => exact (nameWithReturns_ofList _).symm
    | some rest =>
        cases rest with
        | nil => exact (nameWithReturns_ofList _).symm
        | cons c rest =>
            obtain ⟨e, more, hcons⟩ := List.exists_cons_of_ne_nil
              (mt withReturns_eq_nil_iff.mp (List.cons_ne_nil c rest))
            simp only [Option.map_some, hcons]
            rw [← hcons]
            exact (nameWithReturns_ofList _).symm

namespace Constraint

def names : Constraint → List String
  | .primaryKey columns => columns
  | .foreignKey key => key.columns ++ key.referencesTable :: key.referencesColumns

/-- The constraint with carriage returns in its names. -/
def withReturns : Constraint → Constraint
  | .primaryKey columns => .primaryKey (columns.map nameWithReturns)
  | .foreignKey key => .foreignKey ⟨key.columns.map nameWithReturns,
      nameWithReturns key.referencesTable, key.referencesColumns.map nameWithReturns⟩

theorem map_nameWithReturns {l : List String} (h : ∀ name ∈ l, '\n' ∉ name.toList) :
    l.map nameWithReturns = l := by
  conv => rhs; rw [← List.map_id l]
  exact List.map_congr_left fun name hname => nameWithReturns_eq_self (h name hname)

theorem withReturns_eq_self {k : Constraint} (h : ∀ name ∈ k.names, '\n' ∉ name.toList) :
    k.withReturns = k := by
  cases k with
  | primaryKey columns => exact congrArg Constraint.primaryKey (map_nameWithReturns h)
  | foreignKey key =>
      have hcolumns := map_nameWithReturns fun name hname => h name (List.mem_append_left _ hname)
      have hreferences := map_nameWithReturns fun name hname =>
        h name (List.mem_append_right _ (List.mem_cons_of_mem _ hname))
      have htable := nameWithReturns_eq_self
        (h key.referencesTable (List.mem_append_right _ List.mem_cons_self))
      rw [withReturns, hcolumns, hreferences, htable]

theorem lineBlind_primaryKeyDefinition : SqlPattern.primaryKeyDefinition.LineBlind := by
  decide

theorem lineBlind_foreignKeyDefinition : SqlPattern.foreignKeyDefinition.LineBlind := by
  decide

/-- A key that is written over several lines is the same key in either form. -/
theorem parse?_withReturns (d : Dialect) (h : '\r' ∉ t) :
    parse? d (Text.withReturns t) = (parse? d t).map withReturns := by
  have htrim : '\r' ∉ t.trim := fun hreturn => h (mem_of_mem_trim hreturn)
  have hprimary := lineBlind_primaryKeyDefinition.opening?_withReturns htrim
  have hforeign := lineBlind_foreignKeyDefinition.opening?_withReturns htrim
  simp only [parse?, trim_withReturns]
  cases hp : SqlPattern.primaryKeyDefinition.opening? t.trim with
  | some o =>
      rw [hp] at hprimary
      obtain ⟨p, hp', hreading⟩ := Option.map_eq_some_iff.mp hprimary
      simp only [hp', Occurrence.part_eq, hreading, Match.part_withReturns,
        splitIdentifiers_withReturns]
      cases splitIdentifiers (o.reading.part .columns) <;> rfl
  | none =>
      rw [hp] at hprimary
      rw [Option.map_eq_none_iff.mp hprimary]
      cases hf : SqlPattern.foreignKeyDefinition.opening? t.trim with
      | none =>
          rw [hf] at hforeign
          simp only [Option.map_eq_none_iff.mp hforeign]
          rfl
      | some o =>
          rw [hf] at hforeign
          obtain ⟨p, hp', hreading⟩ := Option.map_eq_some_iff.mp hforeign
          simp only [hp', Occurrence.part_eq, hreading, Match.part_withReturns,
            splitIdentifiers_withReturns, normalizeName_withReturns]
          cases splitIdentifiers (o.reading.part .columns) <;>
            cases splitIdentifiers (o.reading.part .references) <;> rfl

end Constraint
end SchemaDump
