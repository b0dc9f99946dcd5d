import Mathlib.Data.List.Forall2
import SchemaDump.Proofs.Schema.Construction
/- Constraints that are applied from outside. Only foreign keys of one column depend on each
other's order, doing everything twice changes nothing more, and what no constraint names stays
as it is. -/
namespace SchemaDump

namespace Constraint

/-- The columns of its table that a constraint names. -/
def localColumns : Constraint → List String
  | .primaryKey columns => columns
  | .foreignKey key => key.columns

variable {constraint : Constraint} {column : String}

theorem column_mem_of_mem_pairWith {table first : String} {columns targets : List String}
    {key : ForeignKey} (h : key ∈ ForeignKeyList.pairWith table first columns targets) :
    key.column ∈ columns := by
  induction columns generalizing targets with
  | nil => cases h
  | cons c columns ih =>
      cases targets with
      | nil =>
          rcases List.mem_cons.mp h with rfl | h
          · exact List.mem_cons_self
          · exact List.mem_cons_of_mem c (ih h)
      | cons target targets =>
          rcases List.mem_cons.mp h with rfl | h
          · exact List.mem_cons_self
          · exact List.mem_cons_of_mem c (ih h)

theorem column_mem_of_mem_foreignKeys {key : ForeignKey} (h : key ∈ constraint.foreignKeys) :
    key.column ∈ constraint.localColumns := by
  cases constraint with
  | primaryKey columns => cases h
  | foreignKey list =>
      rw [foreignKeys, ForeignKeyList.decompose] at h
      split at h
      · cases h
      · exact column_mem_of_mem_pairWith h

theorem not_mem_primaryColumns (h : column ∉ constraint.localColumns) :
    column ∉ constraint.primaryColumns := by
  cases constraint with
  | primaryKey columns => exact h
  | foreignKey list => exact List.not_mem_nil

/-- No foreign key of a constraint belongs to a column that it does not name. -/
theorem filter_foreignKeys (h : column ∉ constraint.localColumns) :
    constraint.foreignKeys.filter (·.column = column) = [] := by
  rw [List.filter_eq_nil_iff]
  intro key hkey hcolumn
  exact h (of_decide_eq_true hcolumn ▸ column_mem_of_mem_foreignKeys hkey)

end Constraint

/-- Whether a constraint on a table gives a foreign key to one of its columns. -/
def givesKeyTo (table column : String) : String × Constraint → Bool
  | (name, .foreignKey key) => name = table && key.columns.contains column
  | (_, .primaryKey _) => false

namespace Column

variable {constraints more : List Constraint} {c : Column}

/-- What becomes of a column whatever constraints are applied. -/
structure Kept (c after : Column) : Prop where
  name : after.name = c.name
  declaredType : after.declaredType = c.declaredType
  isNullable : after.isNullable = c.isNullable
  defaultValue : after.defaultValue = c.defaultValue
  isPrimaryKey : c.isPrimaryKey → after.isPrimaryKey
  foreignKey : c.foreignKey.isSome → after.foreignKey.isSome

theorem Kept.refl (c : Column) : c.Kept c := ⟨rfl, rfl, rfl, rfl, id, id⟩

theorem kept_under (constraints : List Constraint) (c : Column) : c.Kept (c.under constraints) where
  name := rfl
  declaredType := rfl
  isNullable := rfl
  defaultValue := rfl
  isPrimaryKey h := by simp [under, h]
  foreignKey h := by simp [under, Option.isSome_or, h]

/-- Constraints that do not name a column leave it as it is. -/
theorem under_of_not_named (h : ∀ k ∈ constraints, c.name ∉ k.localColumns) :
    c.under constraints = c := by
  have hprimary : (constraints.flatMap (·.primaryColumns)).contains c.name = false := by
    rw [Bool.eq_false_iff]
    intro hmem
    obtain ⟨k, hk, hname⟩ := List.mem_flatMap.mp (List.contains_iff_mem.mp hmem)
    exact Constraint.not_mem_primaryColumns (h k hk) hname
  have hforeign : lastForeignKey (constraints.flatMap (·.foreignKeys)) c.name = none := by
    have hnil : (constraints.flatMap (·.foreignKeys)).filter (·.column = c.name) = [] := by
      rw [List.filter_flatMap, List.flatMap_eq_nil_iff]
      exact fun k hk => Constraint.filter_foreignKeys (h k hk)
    rw [lastForeignKey, hnil]
    rfl
  simp only [under, hprimary, hforeign, Bool.or_false, Option.none_or]

theorem under_under_self (constraints : List Constraint) (c : Column) :
    (c.under constraints).under constraints = c.under constraints := by
  simp only [under, Bool.or_assoc, Bool.or_self, ← Option.or_assoc, Option.or_self]

/-- The primary key does not depend on the order of the constraints, and of the foreign keys only
those of the column itself matter. -/
theorem under_eq_of_perm (h : constraints.Perm more)
    (hkeys : (constraints.flatMap (·.foreignKeys)).filter (·.column = c.name) =
      (more.flatMap (·.foreignKeys)).filter (·.column = c.name)) :
    c.under constraints = c.under more := by
  have hprimary : (constraints.flatMap (·.primaryColumns)).contains c.name =
      (more.flatMap (·.primaryColumns)).contains c.name := by
    apply Bool.eq_iff_iff.mpr
    simp only [List.contains_iff_mem, (h.flatMap_right (·.primaryColumns)).mem_iff]
  simp only [under, hprimary, lastForeignKey, hkeys]

end Column

variable {α : Type} {key : α → String} {f : α → α}

theorem forall₂_mapFirst {R : α → α → Prop} (hrefl : ∀ a, R a a) (hf : ∀ a, R a (f a))
    (seen : List String) (l : List α) : List.Forall₂ R l (mapFirst key f seen l) := by
  induction l generalizing seen with
  | nil => exact .nil
  | cons a l ih =>
      rw [mapFirst]
      refine .cons ?_ (ih _)
      split
      · exact hrefl a
      · exact hf a

/-- What becomes of a table under constraints: its columns stay in their places, and those that
no constraint on the table names stay as they are. -/
structure Table.Kept (applied : List (String × Constraint)) (t after : Table) : Prop where
  name : after.name = t.name
  columns : List.Forall₂ (fun c d => c.Kept d ∧
    ((∀ a ∈ applied, a.1 = t.name → c.name ∉ a.2.localColumns) → d = c)) t.columns after.columns

namespace SchemaDraft

variable {s : SchemaDraft} {applied more : List (String × Constraint)} {table column : String}

/-- Applies constraints, each to the table it names, one after the other. -/
def applyAll (s : SchemaDraft) (applied : List (String × Constraint)) : SchemaDraft :=
  applied.foldl (fun s a => s.applyDeferred a.1 a.2) s

theorem WellIndexed.applyAll_tables (h : s.WellIndexed) (applied : List (String × Constraint)) :
    (s.applyAll applied).build.tables =
      mapFirst (·.name) (Table.under (alterationsOf applied)) [] s.build.tables := by
  rw [applyAll, h.foldl_applyDeferred, build_constrainFirst]

/-- Where no two tables share a name, the constraints on a table are its own. -/
theorem alterationsOf_flatMap (name : α → String) (constraints : α → List Constraint) {l : List α}
    (hl : (l.map name).Nodup) {a : α} (ha : a ∈ l) :
    alterationsOf (l.flatMap fun b => (constraints b).map (name b, ·)) (name a) = constraints a := by
  have hother : ∀ m : List α, (∀ b ∈ m, name b ≠ name a) →
      alterationsOf (m.flatMap fun b => (constraints b).map (name b, ·)) (name a) = [] := by
    intro m hm
    have hfilter : (m.flatMap fun b => (constraints b).map (name b, ·)).filter (·.1 = name a) = [] := by
      rw [List.filter_eq_nil_iff]
      intro k hk hname
      obtain ⟨b, hb, hk⟩ := List.mem_flatMap.mp hk
      obtain ⟨constraint, -, rfl⟩ := List.mem_map.mp hk
      exact hm b hb (of_decide_eq_true hname)
    rw [alterationsOf, hfilter, List.map_nil]
  have hown : alterationsOf ((constraints a).map (name a, ·)) (name a) = constraints a := by
    simp [alterationsOf, List.filter_map, Function.comp_def]
  obtain ⟨earlier, later, rfl⟩ := List.append_of_mem ha
  rw [List.map_append, List.map_cons] at hl
  obtain ⟨-, hlater, hearlier⟩ := List.nodup_append.mp hl
  rw [List.flatMap_append, List.flatMap_cons, alterationsOf_append, alterationsOf_append, hown,
    hother earlier, hother later, List.nil_append, List.append_nil]
  · intro b hb hname
    exact (List.nodup_cons.mp hlater).1 (hname ▸ List.mem_map_of_mem hb)
  · intro b hb
    exact hearlier _ (List.mem_map_of_mem hb) _ List.mem_cons_self

/-- The foreign keys of a column come from those constraints that give it one. -/
theorem filter_alterationsOf (applied : List (String × Constraint)) (table column : String) :
    ((alterationsOf applied table).flatMap (·.foreignKeys)).filter (·.column = column) =
      (((applied.filter (givesKeyTo table column)).map (·.2)).flatMap (·.foreignKeys)).filter
        (·.column = column) := by
  induction applied with
  | nil => rfl
  | cons a applied ih =>
      have hsplit : ∀ l : List (String × Constraint), alterationsOf (a :: l) table =
          (if a.1 = table then [a.2] else []) ++ alterationsOf l table := by
        intro l
        by_cases hname : a.1 = table <;> simp [alterationsOf, hname]
      rw [hsplit, List.flatMap_append, List.filter_append, ih, List.filter_cons]
      obtain ⟨name, constraint⟩ := a
      cases constraint with
      | primaryKey columns =>
          by_cases hname : name = table <;> simp [givesKeyTo, hname, Constraint.foreignKeys]
      | foreignKey list =>
          by_cases hname : name = table
          · by_cases hcolumn : column ∈ list.columns
            · simp [givesKeyTo, hname, hcolumn]
            · have hnil := Constraint.filter_foreignKeys
                (show column ∉ (Constraint.foreignKey list).localColumns from hcolumn)
              simp [givesKeyTo, hname, hcolumn, hnil]
          · simp [givesKeyTo, hname]

theorem under_alterationsOf_perm (hperm : applied.Perm more)
    (hkeys : ∀ table column,
      applied.filter (givesKeyTo table column) = more.filter (givesKeyTo table column)) (t : Table) :
    t.under (alterationsOf applied) = t.under (alterationsOf more) := by
  rw [Table.under, Table.under]
  congr 1
  apply mapFirst_congr
  intro c _
  have hnamed : (alterationsOf applied t.name).Perm (alterationsOf more t.name) :=
    (hperm.filter _).map _
  apply Column.under_eq_of_perm hnamed
  rw [filter_alterationsOf, filter_alterationsOf, hkeys]

theorem WellIndexed.applyAll_perm (h : s.WellIndexed) (hperm : applied.Perm more)
    (hkeys : ∀ table column,
      applied.filter (givesKeyTo table column) = more.filter (givesKeyTo table column)) :
    (s.applyAll applied).build.tables = (s.applyAll more).build.tables := by
  rw [h.applyAll_tables, h.applyAll_tables]
  exact mapFirst_congr fun t _ => under_alterationsOf_perm hperm hkeys t

theorem WellIndexed.applyAll_twice (h : s.WellIndexed) (applied : List (String × Constraint)) :
    (s.applyAll (applied ++ applied)).build.tables = (s.applyAll applied).build.tables := by
  rw [h.applyAll_tables, h.applyAll_tables]
  apply mapFirst_congr
  intro t _
  rw [Table.under, Table.under]
  congr 1
  apply mapFirst_congr
  intro c _
  rw [alterationsOf_append, ← Column.under_append, Column.under_under_self]

theorem WellIndexed.applyAll_kept (h : s.WellIndexed) (applied : List (String × Constraint)) :
    List.Forall₂ (Table.Kept applied) s.build.tables (s.applyAll applied).build.tables := by
  rw [h.applyAll_tables]
  apply forall₂_mapFirst
  · exact fun t => ⟨rfl, List.forall₂_same.mpr fun c _ => ⟨.refl c, fun _ => rfl⟩⟩
  · intro t
    refine ⟨rfl, forall₂_mapFirst (fun c => ⟨.refl c, fun _ => rfl⟩) ?_ _ _⟩
    intro c
    refine ⟨c.kept_under _, fun hnamed => ?_⟩
    apply Column.under_of_not_named
    intro k hk
    exact hnamed (t.name, k) (mem_alterationsOf hk) rfl

/-- Applying constraints to any draft that can be built up: their order does not matter except
between foreign keys of one column, applying them twice does no more than applying them once,
nothing but keys is ever changed and no key is lost, and a column that is not named stays as it
is. -/
theorem applyAll_ofSteps (steps : List Step) :
    (∀ applied more : List (String × Constraint), applied.Perm more →
      (∀ table column,
        applied.filter (givesKeyTo table column) = more.filter (givesKeyTo table column)) →
      ((ofSteps steps).applyAll applied).build = ((ofSteps steps).applyAll more).build) ∧
    (∀ applied, ((ofSteps steps).applyAll (applied ++ applied)).build =
      ((ofSteps steps).applyAll applied).build) ∧
    ∀ applied, List.Forall₂ (Table.Kept applied) (ofSteps steps).build.tables
      ((ofSteps steps).applyAll applied).build.tables := by
  have h := (ofSteps_wellIndexed steps).1
  refine ⟨fun applied more hperm hkeys => ?_, fun applied => ?_, h.applyAll_kept⟩
  · exact congrArg Schema.mk (h.applyAll_perm hperm hkeys)
  · exact congrArg Schema.mk (h.applyAll_twice applied)

/-- A primary key and a foreign key of one table may trade places. -/
theorem primary_and_foreign_key_swap :
    ((ofSteps [.addTable "orders" [{ name := "id", declaredType := "int" },
        { name := "user_id", declaredType := "int" }]]).applyAll
      [("orders", .primaryKey ["id"]),
        ("orders", .foreignKey ⟨["user_id"], "users", ["id"]⟩)]).build =
    ((ofSteps [.addTable "orders" [{ name := "id", declaredType := "int" },
        { name := "user_id", declaredType := "int" }]]).applyAll
      [("orders", .foreignKey ⟨["user_id"], "users", ["id"]⟩),
        ("orders", .primaryKey ["id"])]).build := by
  apply (applyAll_ofSteps _).1
  · exact .swap _ _ []
  · intro table column
    by_cases h : givesKeyTo table column ("orders", .foreignKey ⟨["user_id"], "users", ["id"]⟩)
    · simp [h, givesKeyTo.eq_2]
    · simp [h, givesKeyTo.eq_2]

end SchemaDraft
end SchemaDump
