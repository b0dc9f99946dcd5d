import SchemaDump.Proofs.Schema.FirstOfName
/- What constraints make of the columns of a draft. A draft stays well indexed while columns,
constraints and tables are added, so that every constraint reaches the columns it names. -/
namespace SchemaDump

namespace NameIndex

/-- The index knows the first position of every name. -/
def Indexes (index : NameIndex) (names : List String) : Prop :=
  ∀ name, index.position? name = names.findIdx? (· = name)

theorem indexes_empty : empty.Indexes [] := fun _ => rfl

theorem Indexes.note {index : NameIndex} {names : List String} (h : index.Indexes names)
    (name : String) : (index.note name names.length).Indexes (names ++ [name]) := by
  intro other
  rw [List.findIdx?_append, ← h other]
  cases hname : index.position? name with
  | some position =>
      rw [NameIndex.note, hname, Option.isSome_some, if_pos rfl]
      by_cases ho : name = other
      · rw [← ho, hname]
        rfl
      · simp [List.findIdx?_cons, ho]
  | none =>
      rw [NameIndex.note, hname, Option.isSome_none, if_neg Bool.false_ne_true]
      simp only [position?, List.find?_append, Option.map_or]
      congr 1
      by_cases ho : name = other <;> simp [List.findIdx?_cons, ho]

end NameIndex

namespace Constraint

/-- The columns that a constraint puts into the primary key. -/
def primaryColumns : Constraint → List String
  | .primaryKey columns => columns
  | .foreignKey _ => []

/-- The foreign keys that a constraint gives to single columns. -/
def foreignKeys : Constraint → List ForeignKey
  | .primaryKey _ => []
  | .foreignKey key => key.decompose

end Constraint

/-- The last of some foreign keys that belongs to a column. -/
def lastForeignKey (keys : List ForeignKey) (column : String) : Option ForeignKey :=
  (keys.filter (·.column = column)).getLast?

theorem lastForeignKey_append (keys more : List ForeignKey) (column : String) :
    lastForeignKey (keys ++ more) column =
      (lastForeignKey more column).or (lastForeignKey keys column) := by
  rw [lastForeignKey, List.filter_append, List.getLast?_append]
  rfl

/-- A column after the constraints of its table have been applied in their order. -/
def Column.under (constraints : List Constraint) (c : Column) : Column :=
  { c with
    isPrimaryKey := c.isPrimaryKey || (constraints.flatMap (·.primaryColumns)).contains c.name
    foreignKey := (lastForeignKey (constraints.flatMap (·.foreignKeys)) c.name).or c.foreignKey }

@[simp] theorem Column.under_name (constraints : List Constraint) (c : Column) :
    (c.under constraints).name = c.name := rfl

theorem Column.under_nil (c : Column) : c.under [] = c := by
  simp [Column.under, lastForeignKey]

theorem Column.isPrimaryKey_under {constraints : List Constraint} {k : Constraint} {c : Column} (hk : k ∈ constraints)
    (hname : c.name ∈ k.primaryColumns) : (c.under constraints).isPrimaryKey = true :=
  Bool.or_eq_true_iff.mpr (.inr (List.contains_iff_mem.mpr (List.mem_flatMap.mpr ⟨k, hk, hname⟩)))

theorem Column.under_append (constraints more : List Constraint) (c : Column) :
    (c.under constraints).under more = c.under (constraints ++ more) := by
  simp only [Column.under, List.flatMap_append, lastForeignKey_append, Option.or_assoc,
    List.contains_append, Bool.or_assoc]

namespace TableDraft

variable {t : TableDraft} {f g : Column → Column}

def WellIndexed (t : TableDraft) : Prop := t.positions.Indexes (t.columns.map (·.name))

def changeFirst (f : Column → Column) (t : TableDraft) : TableDraft :=
  { t with columns := mapFirst (·.name) f [] t.columns }

theorem WellIndexed.changeFirst (h : t.WellIndexed) (hf : ∀ c, (f c).name = c.name) :
    (t.changeFirst f).WellIndexed := by
  rw [WellIndexed, TableDraft.changeFirst, map_key_mapFirst hf]
  exact h

theorem changeFirst_changeFirst (hg : ∀ c, (g c).name = c.name) :
    (t.changeFirst g).changeFirst f = t.changeFirst fun c => f (g c) := by
  simp only [changeFirst, mapFirst_mapFirst hg]

theorem changeFirst_id (h : ∀ c, f c = c) : t.changeFirst f = t := by
  rw [changeFirst, mapFirst_id fun c _ => h c]

theorem changeFirst_congr (h : ∀ c, f c = g c) : t.changeFirst f = t.changeFirst g := by
  rw [changeFirst, changeFirst, mapFirst_congr fun c _ => h c]

theorem WellIndexed.updateColumn (h : t.WellIndexed) (name : String) (change : Column → Column) :
    t.updateColumn name change = t.changeFirst fun c => if c.name = name then change c else c := by
  rw [TableDraft.updateColumn, updateColumn?, h name, TableDraft.changeFirst,
    mapFirst_eq_modify change List.not_mem_nil]
  cases (t.columns.map (·.name)).findIdx? (· = name) <;> rfl

theorem WellIndexed.markPrimaryKey (h : t.WellIndexed) (names : List String) :
    t.markPrimaryKey names =
      t.changeFirst fun c => { c with isPrimaryKey := c.isPrimaryKey || names.contains c.name } := by
  induction names generalizing t with
  | nil => exact (changeFirst_id (by simp)).symm
  | cons name names ih =>
      rw [TableDraft.markPrimaryKey, List.foldl_cons, h.updateColumn]
      refine (ih (h.changeFirst fun c => by split <;> rfl)).trans ?_
      rw [changeFirst_changeFirst fun c => by split <;> rfl]
      apply changeFirst_congr
      intro c
      by_cases hc : c.name = name <;> simp [hc]

theorem WellIndexed.foldl_attachForeignKey (h : t.WellIndexed) (keys : List ForeignKey) :
    keys.foldl attachForeignKey t =
      t.changeFirst fun c =>
        { c with foreignKey := (lastForeignKey keys c.name).or c.foreignKey } := by
  induction keys generalizing t with
  | nil => exact (changeFirst_id (by simp [lastForeignKey])).symm
  | cons key keys ih =>
      rw [List.foldl_cons, attachForeignKey, h.updateColumn]
      refine (ih (h.changeFirst fun c => by split <;> rfl)).trans ?_
      rw [changeFirst_changeFirst fun c => by split <;> rfl]
      apply changeFirst_congr
      intro c
      have hlast : lastForeignKey (key :: keys) c.name =
          (lastForeignKey keys c.name).or (lastForeignKey [key] c.name) :=
        lastForeignKey_append [key] keys c.name
      rw [hlast, Option.or_assoc]
      by_cases hc : c.name = key.column
      · simp [hc, lastForeignKey]
      · simp [hc, Ne.symm hc, lastForeignKey]

theorem WellIndexed.apply (h : t.WellIndexed) (constraint : Constraint) :
    t.apply constraint = t.changeFirst (·.under [constraint]) := by
  cases constraint with
  | primaryKey columns =>
      refine (h.markPrimaryKey columns).trans (changeFirst_congr fun c => ?_)
      simp [Column.under, Constraint.primaryColumns, Constraint.foreignKeys, lastForeignKey]
  | foreignKey key =>
      refine (h.foldl_attachForeignKey key.decompose).trans (changeFirst_congr fun c => ?_)
      simp [Column.under, Constraint.primaryColumns, Constraint.foreignKeys]

/-- Constraints applied one by one change the first column of each name all at once. -/
theorem WellIndexed.foldl_apply (h : t.WellIndexed) (constraints : List Constraint) :
    constraints.foldl TableDraft.apply t = t.changeFirst (·.under constraints) := by
  induction constraints generalizing t with
  | nil => exact (changeFirst_id Column.under_nil).symm
  | cons constraint constraints ih =>
      rw [List.foldl_cons, h.apply, ih (h.changeFirst (Column.under_name [constraint])),
        changeFirst_changeFirst (Column.under_name [constraint])]
      exact changeFirst_congr fun c => Column.under_append [constraint] constraints c

theorem wellIndexed_empty (name : String) : (empty name).WellIndexed := NameIndex.indexes_empty

theorem WellIndexed.pushColumn (h : t.WellIndexed) (c : Column) : (t.pushColumn c).WellIndexed := by
  have hnote := NameIndex.Indexes.note h c.name
  rw [List.length_map] at hnote
  rw [WellIndexed, TableDraft.pushColumn, List.map_append]
  exact hnote

theorem WellIndexed.foldl_pushColumn (h : t.WellIndexed) (columns : List Column) :
    (columns.foldl TableDraft.pushColumn t).WellIndexed ∧
      (columns.foldl TableDraft.pushColumn t).name = t.name ∧
      (columns.foldl TableDraft.pushColumn t).columns = t.columns ++ columns := by
  induction columns generalizing t with
  | nil => exact ⟨h, rfl, (List.append_nil t.columns).symm⟩
  | cons c columns ih =>
      obtain ⟨hindexed, hname, hcolumns⟩ := ih (h.pushColumn c)
      refine ⟨hindexed, hname, hcolumns.trans ?_⟩
      rw [TableDraft.pushColumn, List.append_assoc, List.singleton_append]

end TableDraft

/-- A table from the columns of its definition and the constraints on them. -/
def Table.ofDefinition (name : String) (columns : List Column) (constraints : List Constraint) :
    Table :=
  ⟨name, mapFirst (·.name) (·.under constraints) [] columns⟩

theorem Table.ofDefinition_nil (name : String) (columns : List Column) :
    Table.ofDefinition name columns [] = ⟨name, columns⟩ := by
  rw [ofDefinition, mapFirst_id fun c _ => c.under_nil]

theorem TableDraft.build_foldl_apply (name : String) (columns : List Column)
    (constraints : List Constraint) :
    (constraints.foldl TableDraft.apply
        (columns.foldl TableDraft.pushColumn (TableDraft.empty name))).WellIndexed ∧
      (constraints.foldl TableDraft.apply
        (columns.foldl TableDraft.pushColumn (TableDraft.empty name))).build =
          .ofDefinition name columns constraints := by
  obtain ⟨hindexed, hname, hcolumns⟩ := (wellIndexed_empty name).foldl_pushColumn columns
  rw [hindexed.foldl_apply]
  refine ⟨hindexed.changeFirst fun _ => rfl, ?_⟩
  rw [TableDraft.changeFirst, TableDraft.build, hname, hcolumns]
  rfl

/-- A table after the constraints on its name have been applied from outside. -/
def Table.under (constraints : String → List Constraint) (t : Table) : Table :=
  { t with columns := mapFirst (·.name) (·.under (constraints t.name)) [] t.columns }

theorem Table.under_none {constraints : String → List Constraint} (h : ∀ name, constraints name = [])
    (t : Table) : t.under constraints = t := by
  rw [under, h, mapFirst_id fun c _ => c.under_nil]

theorem Table.under_ofDefinition (constraints : String → List Constraint) (name : String)
    (columns : List Column) (own : List Constraint) :
    (Table.ofDefinition name columns own).under constraints =
      .ofDefinition name columns (own ++ constraints name) := by
  rw [Table.under, Table.ofDefinition, mapFirst_mapFirst (Column.under_name own), Table.ofDefinition]
  congr 1
  exact mapFirst_congr fun c _ => Column.under_append own _ c

namespace SchemaDraft

variable {s : SchemaDraft}

def WellIndexed (s : SchemaDraft) : Prop :=
  s.positions.Indexes (s.tables.map (·.name)) ∧ ∀ t ∈ s.tables, t.WellIndexed

theorem wellIndexed_empty : empty.WellIndexed := ⟨NameIndex.indexes_empty, by simp [empty]⟩

theorem WellIndexed.addTable (h : s.WellIndexed) {t : TableDraft} (ht : t.WellIndexed) :
    (s.addTable t).WellIndexed := by
  have hnote := NameIndex.Indexes.note h.1 t.name
  rw [List.length_map] at hnote
  refine ⟨?_, ?_⟩
  · rw [SchemaDraft.addTable, List.map_append]
    exact hnote
  · intro u hu
    rcases List.mem_append.mp hu with hu | hu
    · exact h.2 u hu
    · rw [List.mem_singleton.mp hu]
      exact ht

theorem WellIndexed.foldl_addTable {α : Type} (h : s.WellIndexed) (draft : α → TableDraft)
    (hdraft : ∀ a, (draft a).WellIndexed) (l : List α) :
    (l.foldl (fun s a => s.addTable (draft a)) s).WellIndexed ∧
      (l.foldl (fun s a => s.addTable (draft a)) s).tables = s.tables ++ l.map draft := by
  induction l generalizing s with
  | nil => exact ⟨h, (List.append_nil s.tables).symm⟩
  | cons a l ih =>
      obtain ⟨hindexed, htables⟩ := ih (h.addTable (hdraft a))
      refine ⟨hindexed, htables.trans ?_⟩
      rw [SchemaDraft.addTable, List.append_assoc, List.singleton_append, List.map_cons]

/-- Applies the constraints on its name to a table. -/
def constrain (constraints : String → List Constraint) (t : TableDraft) : TableDraft :=
  t.changeFirst (·.under (constraints t.name))

theorem constrain_name (constraints : String → List Constraint) (t : TableDraft) :
    (constrain constraints t).name = t.name := rfl

/-- Applies constraints to the first table of each name. -/
def constrainFirst (constraints : String → List Constraint) (s : SchemaDraft) : SchemaDraft :=
  { s with tables := mapFirst (·.name) (constrain constraints) [] s.tables }

theorem WellIndexed.constrainFirst (h : s.WellIndexed) (constraints : String → List Constraint) :
    (s.constrainFirst constraints).WellIndexed := by
  have hnames : (mapFirst (·.name) (constrain constraints) [] s.tables).map (·.name) =
      s.tables.map (·.name) := map_key_mapFirst (constrain_name constraints)
  refine ⟨?_, ?_⟩
  · rw [SchemaDraft.constrainFirst, hnames]
    exact h.1
  · intro t ht
    refine forall_mem_mapFirst h.2 ?_ t ht
    intro t ht
    exact ht.changeFirst fun _ => rfl

theorem constrainFirst_constrainFirst (constraints more : String → List Constraint) :
    (s.constrainFirst constraints).constrainFirst more =
      s.constrainFirst fun name => constraints name ++ more name := by
  rw [constrainFirst, constrainFirst, constrainFirst, mapFirst_mapFirst (constrain_name constraints)]
  congr 1
  apply mapFirst_congr
  intro t _
  rw [constrain, constrain, TableDraft.changeFirst_changeFirst (Column.under_name (constraints t.name))]
  exact TableDraft.changeFirst_congr fun c => Column.under_append _ _ c

theorem WellIndexed.applyDeferred (h : s.WellIndexed) (name : String) (constraint : Constraint) :
    s.applyDeferred name constraint =
      s.constrainFirst fun table => if table = name then [constraint] else [] := by
  have hmodify : s.applyDeferred name constraint = { s with
      tables := mapFirst (·.name) (fun t => if t.name = name then t.apply constraint else t) []
        s.tables } := by
    rw [SchemaDraft.applyDeferred, updateTable?, h.1 name, mapFirst_eq_modify _ List.not_mem_nil]
    cases (s.tables.map (·.name)).findIdx? (· = name) <;> rfl
  rw [hmodify, SchemaDraft.constrainFirst]
  congr 1
  apply mapFirst_congr
  intro t ht
  by_cases hname : t.name = name
  · simp only [constrain, if_pos hname]
    exact (h.2 t ht).apply constraint
  · simp only [constrain, if_neg hname]
    exact (TableDraft.changeFirst_id Column.under_nil).symm

/-- The constraints among some alterations that speak of a table. -/
def alterationsOf (alterations : List (String × Constraint)) (table : String) : List Constraint :=
  (alterations.filter (·.1 = table)).map (·.2)

theorem alterationsOf_append (alterations more : List (String × Constraint)) (name : String) :
    alterationsOf (alterations ++ more) name =
      alterationsOf alterations name ++ alterationsOf more name := by
  simp only [alterationsOf, List.filter_append, List.map_append]

theorem mem_alterationsOf {alterations : List (String × Constraint)} {name : String}
    {k : Constraint} (h : k ∈ alterationsOf alterations name) :
    (name, k) ∈ alterations := by
  obtain ⟨a, ha, rfl⟩ := List.mem_map.mp h
  obtain ⟨hmem, hname⟩ := List.mem_filter.mp ha
  rw [← of_decide_eq_true hname]
  exact hmem

/-- Constraints applied one by one from outside change the first table of each name, and in it
the first column of each name, all at once. -/
theorem WellIndexed.foldl_applyDeferred (h : s.WellIndexed)
    (alterations : List (String × Constraint)) :
    alterations.foldl (fun s a => s.applyDeferred a.1 a.2) s =
      s.constrainFirst (alterationsOf alterations) := by
  induction alterations generalizing s with
  | nil =>
      rw [List.foldl_nil, SchemaDraft.constrainFirst, mapFirst_id]
      intro t _
      exact TableDraft.changeFirst_id Column.under_nil
  | cons a alterations ih =>
      rw [List.foldl_cons, h.applyDeferred, ih (h.constrainFirst _), constrainFirst_constrainFirst]
      congr 1
      funext table
      by_cases hname : table = a.1
      · simp [alterationsOf, hname]
      · simp [alterationsOf, hname, Ne.symm hname]

theorem build_constrainFirst (constraints : String → List Constraint) (s : SchemaDraft) :
    (s.constrainFirst constraints).build.tables =
      mapFirst (·.name) (Table.under constraints) [] s.build.tables := by
  rw [SchemaDraft.build, SchemaDraft.constrainFirst]
  exact map_mapFirst (fun _ => rfl) fun _ => rfl

end SchemaDraft
end SchemaDump
