import Mathlib
import SchemaDump.Proofs.Schema.FirstOfName
/- Following foreign keys in both directions. A key leads to the first table of the name that it refers to; the
columns that refer to a name are found in the order of the document, each in the place where it stands. -/
namespace SchemaDump.Schema

variable {s : Schema} {name : String} {t : Table} {c : Column} {key : ForeignKey} {p : Nat × Nat}

/-- The table and the column in a place, which is given by the positions of the table in the schema and of the
column in the table. -/
def at? (s : Schema) (p : Nat × Nat) : Option (Table × Column) :=
  s.tables[p.1]?.bind fun t => t.columns[p.2]?.map (t, ·)

/-- The name that the key of the column in a place refers to. -/
def target? (s : Schema) (p : Nat × Nat) : Option String :=
  (s.at? p).bind fun x => x.2.foreignKey.map (·.referencesTable)

/-- The places of all columns, in the order of the document. -/
def places (s : Schema) : List (Nat × Nat) :=
  s.tables.zipIdx.flatMap fun x => (List.range x.1.columns.length).map (x.2, ·)

/-- The places of the columns whose keys refer to a name. -/
def sources (s : Schema) (name : String) : List (Nat × Nat) :=
  s.places.filter fun p => s.target? p = some name

def targets (s : Schema) : List String :=
  ((s.tables.flatMap (·.foreignKeys)).map (·.referencesTable)).dedup

/-- The document has one place in front of another one. -/
abbrev Before : Nat × Nat → Nat × Nat → Prop := Prod.Lex (· < ·) (· < ·)

/-- The table of a position is the first one of a name. -/
def FirstNamed (s : Schema) (name : String) (position : Nat) : Prop :=
  s.tableNames[position]? = some name ∧ IsFirst s.tableNames position

theorem mem_places : p ∈ s.places ↔ (s.at? p).isSome := by
  rcases p with ⟨i, j⟩
  simp only [places, at?, List.mem_flatMap, List.mem_map, List.mem_range, Prod.exists, List.mem_zipIdx_iff_getElem?,
    Prod.mk.injEq]
  constructor
  · rintro ⟨t, i, ht, j, hj, rfl, rfl⟩
    simp [ht, hj]
  · intro h
    cases ht : s.tables[i]? with
    | none => simp [ht] at h
    | some t =>
        simp only [ht, Option.bind_some, Option.isSome_map] at h
        exact ⟨t, i, ht, j, by simpa using h, rfl, rfl⟩

theorem places_pairwise (s : Schema) : s.places.Pairwise Before := by
  rw [places, List.pairwise_flatMap]
  constructor
  · intro x _
    rw [List.pairwise_map]
    exact List.pairwise_lt_range.imp fun h => Prod.Lex.right _ h
  · have htables : s.tables.zipIdx.Pairwise fun x y => x.2 < y.2 := by
      rw [← List.pairwise_map (f := Prod.snd), List.zipIdx_map_snd]
      exact List.pairwise_lt_range'
    refine htables.imp fun hlt p hp q hq => ?_
    obtain ⟨i, -, rfl⟩ := List.mem_map.mp hp
    obtain ⟨j, -, rfl⟩ := List.mem_map.mp hq
    exact Prod.Lex.left _ _ hlt

theorem mem_sources : p ∈ s.sources name ↔ s.target? p = some name := by
  rw [sources, List.mem_filter, decide_eq_true_eq, and_iff_right_iff_imp, mem_places]
  intro h
  rw [target?] at h
  cases hat : s.at? p with
  | none => rw [hat] at h; cases h
  | some x => rfl

theorem sources_pairwise (s : Schema) (name : String) : (s.sources name).Pairwise Before :=
  s.places_pairwise.filter _

theorem count_sources (s : Schema) (name : String) (p : Nat × Nat) :
    (s.sources name).count p = if s.target? p = some name then 1 else 0 := by
  have hnodup : (s.sources name).Nodup := (s.sources_pairwise name).imp fun h => by
    rintro rfl
    simp [Before, Prod.lex_def] at h
  rw [hnodup.count]
  exact if_congr mem_sources rfl rfl

theorem target?_eq_some : s.target? p = some name ↔
    ∃ t c key, s.at? p = some (t, c) ∧ c.foreignKey = some key ∧ key.referencesTable = name := by
  simp [target?, Option.bind_eq_some_iff]

/-- The columns of a list that are of some kind stand in the places whose columns are. -/
theorem map_filter_range {α : Type} (accepts : α → Bool) (l : List α) :
    ((List.range l.length).filter fun j => l[j]?.any accepts).map (l[·]?) = (l.filter accepts).map some := by
  induction l with
  | nil => rfl
  | cons a l ih =>
      have hrest : ((List.range l.length).map Nat.succ).filter (fun j => (a :: l)[j]?.any accepts) =
          ((List.range l.length).filter fun j => l[j]?.any accepts).map Nat.succ := by
        rw [List.filter_map]
        rfl
      rw [List.length_cons, List.range_succ_eq_map, List.filter_cons, hrest, List.filter_cons, List.getElem?_cons_zero,
        Option.any_some]
      cases accepts a <;> simp [← ih, Function.comp_def]

/-- What refers to a name is found in the places of its sources. -/
theorem map_at?_sources (s : Schema) (name : String) : (s.sources name).map s.at? = (s.referencing name).map some := by
  have htables : s.referencing name = s.tables.zipIdx.flatMap fun x =>
      (x.1.columns.filter fun c => c.foreignKey.any (·.referencesTable = name)).map (x.1, ·) := by
    conv_lhs => rw [referencing, ← List.zipIdx_map_fst 0 s.tables, List.flatMap_map]
  rw [htables, sources, places, List.filter_flatMap, List.map_flatMap, List.map_flatMap]
  refine List.flatMap_congr fun x hx => ?_
  have ht : s.tables[x.2]? = some x.1 := List.mem_zipIdx_iff_getElem?.mp hx
  have hat : ∀ j, s.at? (x.2, j) = x.1.columns[j]?.map (x.1, ·) := fun j => by rw [at?, ht, Option.bind_some]
  have htarget : ∀ j, decide (s.target? (x.2, j) = some name) =
      x.1.columns[j]?.any fun c => c.foreignKey.any (·.referencesTable = name) := by
    intro j
    rw [target?, hat]
    cases x.1.columns[j]? with
    | none => rfl
    | some c => cases hkey : c.foreignKey <;> simp [hkey]
  have hcolumns := congrArg (List.map (Option.map (x.1, ·)))
    (map_filter_range (fun c : Column => c.foreignKey.any (·.referencesTable = name)) x.1.columns)
  simp only [List.map_map, Function.comp_def, Option.map_some] at hcolumns
  simp only [List.filter_map, List.map_map, Function.comp_def, htarget, hat, hcolumns]

theorem length_referencing (s : Schema) (name : String) : (s.referencing name).length =
    ((s.tables.flatMap (·.foreignKeys)).map (·.referencesTable)).count name := by
  rw [referencing, List.length_flatMap, List.map_flatMap, List.count_flatMap]
  refine congrArg List.sum (List.map_congr_left fun t _ => ?_)
  rw [List.length_map, ← List.countP_eq_length_filter, Function.comp_apply, Table.foreignKeys, List.count,
    List.countP_map, List.countP_filterMap]
  refine List.countP_congr fun c _ => ?_
  cases c.foreignKey <;> simp

theorem sum_length_referencing (s : Schema) : (s.targets.map fun name => (s.referencing name).length).sum =
    (s.tables.map fun t => t.foreignKeys.length).sum := by
  simp only [length_referencing, targets]
  rw [List.sum_map_count_dedup_eq_length, List.length_map, List.length_flatMap]

theorem isSome_table? : (s.table? name).isSome ↔ name ∈ s.tableNames := by
  simp [table?, tableNames, List.find?_isSome]

theorem table?_eq_some : s.table? name = some t ↔ ∃ i, s.FirstNamed name i ∧ s.tables[i]? = some t := by
  have hname : ∀ i, s.tableNames[i]? = s.tables[i]?.map fun t : Table => t.name := fun _ => List.getElem?_map
  rw [table?, List.find?_eq_some_iff_getElem, decide_eq_true_eq]
  constructor
  · rintro ⟨rfl, i, hi, rfl, hfirst⟩
    refine ⟨i, ⟨by rw [hname, List.getElem?_eq_getElem hi]; rfl, fun j hj => ?_⟩, List.getElem?_eq_getElem hi⟩
    have hother := hfirst j hj
    rw [hname, hname, List.getElem?_eq_getElem hi, List.getElem?_eq_getElem (hj.trans hi)]
    simpa using hother
  · rintro ⟨i, ⟨hposition, hfirst⟩, ht⟩
    obtain ⟨hi, rfl⟩ := List.getElem?_eq_some_iff.mp ht
    rw [hname, ht] at hposition
    refine ⟨Option.some.inj hposition, i, hi, rfl, fun j hj => ?_⟩
    have hother := hfirst j hj
    rw [hname, hname, ht, List.getElem?_eq_getElem (hj.trans hi)] at hother
    rw [← Option.some.inj hposition]
    simpa using hother

/-- A column is a source of the name of a table if and only if its key leads to the first table of that name. -/
theorem mem_sources_iff_leads : name ∈ s.tableNames ∧ p ∈ s.sources name ↔ ∃ t c key i, s.at? p = some (t, c) ∧
    c.foreignKey = some key ∧ s.FirstNamed name i ∧ s.referencedTable? key = s.tables[i]? := by
  rw [mem_sources, target?_eq_some]
  constructor
  · rintro ⟨hname, t, c, key, hat, hkey, rfl⟩
    obtain ⟨first, hfirst⟩ := Option.isSome_iff_exists.mp (isSome_table?.mpr hname)
    obtain ⟨i, hi, hposition⟩ := table?_eq_some.mp hfirst
    exact ⟨t, c, key, i, hat, hkey, hi, hfirst.trans hposition.symm⟩
  · rintro ⟨t, c, key, i, hat, hkey, hi, hleads⟩
    refine ⟨List.mem_of_getElem? hi.1, t, c, key, hat, hkey, ?_⟩
    have hnamed : (s.tables[i]?.map fun t : Table => t.name) = some name := by
      rw [← hi.1, tableNames, List.getElem?_map]
    obtain ⟨first, hfirst, rfl⟩ := Option.map_eq_some_iff.mp hnamed
    have hfound : s.tables.find? (·.name = key.referencesTable) = some first := hleads.trans hfirst
    have hmatches := List.find?_some hfound
    exact (of_decide_eq_true hmatches).symm

/-- Both directions of all foreign keys. What refers to a name is found once in each place with a key to it, in the
order of the document, and nothing else is; over all names that is as many columns as there are keys. A key leads
to the first table of its name if there is one, and the columns whose keys lead to a table are those that refer to
its name. -/
theorem navigates (s : Schema) :
    (∀ name, (s.sources name).map s.at? = (s.referencing name).map some ∧ (s.sources name).Pairwise Before ∧
      ∀ p, (s.sources name).count p = if s.target? p = some name then 1 else 0) ∧
    (s.targets.map fun name => (s.referencing name).length).sum =
      (s.tables.map fun t => t.foreignKeys.length).sum ∧
    (∀ key, ((s.referencedTable? key).isSome ↔ key.referencesTable ∈ s.tableNames) ∧
      ∀ t, s.referencedTable? key = some t ↔
        ∃ i, s.FirstNamed key.referencesTable i ∧ s.tables[i]? = some t) ∧
    ∀ name p, name ∈ s.tableNames ∧ p ∈ s.sources name ↔ ∃ t c key i, s.at? p = some (t, c) ∧
      c.foreignKey = some key ∧ s.FirstNamed name i ∧ s.referencedTable? key = s.tables[i]? := by
  refine ⟨fun name => ?_, s.sum_length_referencing, fun key => ?_, fun name p => mem_sources_iff_leads⟩
  · exact ⟨s.map_at?_sources name, s.sources_pairwise name, s.count_sources name⟩
  · exact ⟨isSome_table?, fun t => table?_eq_some⟩

end SchemaDump.Schema
