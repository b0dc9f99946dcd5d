import SchemaDump.Proofs.Schema.Construction
/- Tables with constraints. A constraint reaches the first column of each name that it lists. -/
namespace SchemaDump

theorem lastForeignKey_append_cons {front back : List ForeignKey} {key : ForeignKey} {column : String}
    (hname : key.column = column) (hback : ∀ k ∈ back, k.column ≠ column) :
    lastForeignKey (front ++ key :: back) column = some key := by
  have hnone : lastForeignKey back column = none := by
    rw [lastForeignKey, List.filter_eq_nil_iff.mpr fun k hk => by simpa using hback k hk]
    rfl
  have hlast : lastForeignKey (key :: back) column = (lastForeignKey back column).or (lastForeignKey [key] column) :=
    lastForeignKey_append [key] back column
  rw [lastForeignKey_append, hlast, hnone]
  simp [lastForeignKey, hname]

namespace ForeignKeyList

theorem getElem?_pairWith {table first : String} {columns targets : List String} {i : Nat} {column target : String}
    (hcolumn : columns[i]? = some column) (htarget : targets[i]? = some target) (hne : target ≠ "") :
    (pairWith table first columns targets)[i]? = some ⟨column, table, target⟩ := by
  induction i generalizing columns targets with
  | zero =>
      cases columns with
      | nil => cases hcolumn
      | cons c columns =>
          cases targets with
          | nil => cases htarget
          | cons t targets =>
              obtain rfl := Option.some.inj hcolumn
              obtain rfl := Option.some.inj htarget
              rw [pairWith, if_neg hne]
              rfl
  | succ i ih =>
      cases columns with
      | nil => cases hcolumn
      | cons c columns =>
          cases targets with
          | nil => cases htarget
          | cons t targets =>
              rw [pairWith, List.getElem?_cons_succ]
              exact ih hcolumn htarget

/-- The columns of a key and the columns it refers to belong together by their positions. -/
theorem getElem?_decompose {key : ForeignKeyList} {i : Nat} {column target : String}
    (hcolumn : key.columns[i]? = some column) (htarget : key.referencesColumns[i]? = some target)
    (hne : target ≠ "") : key.decompose[i]? = some ⟨column, key.referencesTable, target⟩ := by
  rw [decompose]
  cases hreferences : key.referencesColumns with
  | nil =>
      rw [hreferences] at htarget
      cases htarget
  | cons first targets => exact getElem?_pairWith hcolumn (hreferences ▸ htarget) hne

/-- Where every target is named, a foreign key is divided by position. A column without a counterpart takes
the first target. -/
theorem pairWith_eq_mapIdx {table first : String} {columns targets : List String}
    (h : ∀ target ∈ targets, target ≠ "") :
    pairWith table first columns targets =
      columns.mapIdx fun i column => ⟨column, table, targets[i]?.getD first⟩ := by
  induction columns generalizing targets with
  | nil => rw [pairWith, List.mapIdx_nil]
  | cons column columns ih =>
      rw [List.mapIdx_cons]
      cases targets with
      | nil =>
          rw [pairWith, ih h]
          rfl
      | cons target targets =>
          rw [pairWith, if_neg (h target List.mem_cons_self), ih fun t ht => h t (List.mem_cons_of_mem _ ht)]
          rfl

end ForeignKeyList

namespace Table

variable {name column : String} {columns : List Column} {constraints : List Constraint} {k : Constraint}
  {key : ForeignKey}

theorem columnNames_ofDefinition :
    (ofDefinition name columns constraints).columnNames = columns.map (·.name) :=
  map_key_mapFirst (Column.under_name constraints)

/-- The first column of a name is the first one that is defined, under all constraints. -/
theorem column?_ofDefinition : (ofDefinition name columns constraints).column? column =
    (columns.find? fun c => c.name = column).map (·.under constraints) :=
  find?_mapFirst (Column.under_name constraints)

theorem exists_column?_ofDefinition (name : String) (constraints : List Constraint)
    (hcolumn : column ∈ columns.map (·.name)) : ∃ c : Column, c.name = column ∧
      (ofDefinition name columns constraints).column? column = some (c.under constraints) := by
  obtain ⟨a, ha, hname⟩ := List.mem_map.mp hcolumn
  obtain ⟨c, hc⟩ := Option.isSome_iff_exists.mp
    (List.find?_isSome (p := fun c : Column => c.name = column) |>.mpr ⟨a, ha, decide_eq_true hname⟩)
  have hfound := List.find?_some hc
  exact ⟨c, of_decide_eq_true hfound, by rw [column?_ofDefinition, hc, Option.map_some]⟩

theorem exists_isPrimaryKey (hcolumn : column ∈ columns.map (·.name)) (hk : k ∈ constraints)
    (hlisted : column ∈ k.primaryColumns) :
    ∃ c, (ofDefinition name columns constraints).column? column = some c ∧ c.isPrimaryKey := by
  obtain ⟨c, rfl, hc⟩ := exists_column?_ofDefinition name constraints hcolumn
  exact ⟨_, hc, Column.isPrimaryKey_under hk hlisted⟩

theorem exists_foreignKey (hcolumn : column ∈ columns.map (·.name))
    (hkey : lastForeignKey (constraints.flatMap (·.foreignKeys)) column = some key) :
    ∃ c, (ofDefinition name columns constraints).column? column = some c ∧ c.foreignKey = some key := by
  obtain ⟨c, rfl, hc⟩ := exists_column?_ofDefinition name constraints hcolumn
  exact ⟨_, hc, by rw [Column.under, hkey, Option.some_or]⟩

end Table

end SchemaDump
