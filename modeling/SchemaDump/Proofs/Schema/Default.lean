import SchemaDump.Proofs.Schema.Draft
/- Another default on a column. Keys and defaults do not meddle with each other, so it makes no difference
whether a default is changed in a definition or in the table that the definition is read as. -/
namespace SchemaDump

variable {α : Type} {key : α → String} {seen : List String} {f g : α → α} {l : List α} {value : String}

theorem mapFirst_modify (hkey : ∀ a, key (g a) = key a) (hcomm : ∀ a, f (g a) = g (f a)) (position : Nat) :
    mapFirst key f seen (l.modify position g) = (mapFirst key f seen l).modify position g := by
  induction l generalizing seen position with
  | nil => simp [mapFirst]
  | cons a l ih =>
      cases position with
      | zero =>
          simp only [List.modify_zero_cons, mapFirst, hkey, hcomm]
          split <;> rfl
      | succ position => simp only [List.modify_succ_cons, mapFirst, ih]

theorem modify_length_append (front : List α) (a : α) (back : List α) :
    (front ++ a :: back).modify front.length f = front ++ f a :: back := by
  simp [List.modify_eq_take_cons_drop]

def Column.withDefault (value : String) (c : Column) : Column := { c with defaultValue := some value }

@[simp] theorem Column.withDefault_name (value : String) (c : Column) : (c.withDefault value).name = c.name := rfl

theorem Column.withDefault_under (constraints : List Constraint) (c : Column) :
    (c.withDefault value).under constraints = (c.under constraints).withDefault value := rfl

/-- The table with another default on the column at a position. -/
def Table.withDefault (column : Nat) (value : String) (t : Table) : Table :=
  { t with columns := t.columns.modify column (·.withDefault value) }

/-- The schema with another default on one column of the table at a position. -/
def Schema.withDefault (table column : Nat) (value : String) (s : Schema) : Schema :=
  ⟨s.tables.modify table (·.withDefault column value)⟩

theorem Table.withDefault_ofDefinition (name : String) (columns : List Column) (constraints : List Constraint)
    (column : Nat) :
    Table.ofDefinition name (columns.modify column (·.withDefault value)) constraints =
      (Table.ofDefinition name columns constraints).withDefault column value :=
  congrArg (Table.mk name)
    (mapFirst_modify (Column.withDefault_name value) (Column.withDefault_under constraints) column)

theorem Table.withDefault_under (constraints : String → List Constraint) (t : Table) (column : Nat) :
    (t.withDefault column value).under constraints = (t.under constraints).withDefault column value :=
  congrArg (Table.mk t.name)
    (mapFirst_modify (Column.withDefault_name value) (Column.withDefault_under (constraints t.name)) column)

@[simp] theorem Table.withDefault_name (column : Nat) (value : String) (t : Table) :
    (t.withDefault column value).name = t.name := rfl

theorem mapFirst_under_withDefault (constraints : String → List Constraint) (tables : List Table)
    (position column : Nat) :
    mapFirst (·.name) (Table.under constraints) [] (tables.modify position (·.withDefault column value)) =
      (mapFirst (·.name) (Table.under constraints) [] tables).modify position (·.withDefault column value) :=
  mapFirst_modify (Table.withDefault_name column value) (fun t => t.withDefault_under constraints column) position

end SchemaDump
