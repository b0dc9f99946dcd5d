import SchemaDump.Proofs.Schema.Draft
/- Records without empty names. A foreign key belongs to the column it stands on and names a table and a
column; constraints keep it so, whichever of them reaches a column last. -/
namespace SchemaDump

/-- A foreign key that leads from a column to a named column of a named table. -/
structure ForeignKey.WellFormed (key : ForeignKey) (column : String) : Prop where
  column_eq : key.column = column
  referencesTable_ne : key.referencesTable ≠ ""
  referencesColumn_ne : key.referencesColumn ≠ ""

structure Column.WellFormed (c : Column) : Prop where
  name_ne : c.name ≠ ""
  foreignKey : ∀ key ∈ c.foreignKey, key.WellFormed c.name

structure Table.WellFormed (t : Table) : Prop where
  name_ne : t.name ≠ ""
  columns : ∀ c ∈ t.columns, c.WellFormed

/-- Whether every foreign key of a constraint leads from its own column to a named one. -/
def Constraint.WellFormed (constraint : Constraint) : Prop :=
  ∀ key ∈ constraint.foreignKeys, key.WellFormed key.column

variable {constraints : List Constraint} {columns : List Column} {c : Column} {name : String}

theorem lastForeignKey_mem {keys : List ForeignKey} {key : ForeignKey}
    (h : lastForeignKey keys name = some key) : key ∈ keys ∧ key.column = name := by
  obtain ⟨hmem, hcolumn⟩ := List.mem_filter.mp (List.mem_of_getLast? h)
  exact ⟨hmem, of_decide_eq_true hcolumn⟩

theorem Column.WellFormed.under (h : c.WellFormed) (hconstraints : ∀ k ∈ constraints, k.WellFormed) :
    (c.under constraints).WellFormed where
  name_ne := h.name_ne
  foreignKey key hkey := by
    rcases Option.or_eq_some_iff.mp hkey with hlast | ⟨-, hown⟩
    · obtain ⟨hmem, hcolumn⟩ := lastForeignKey_mem hlast
      obtain ⟨k, hk, hkeys⟩ := List.mem_flatMap.mp hmem
      rw [Column.under_name, ← hcolumn]
      exact hconstraints k hk key hkeys
    · exact h.foreignKey key hown

theorem Table.wellFormed_ofDefinition (hname : name ≠ "") (hcolumns : ∀ c ∈ columns, c.WellFormed)
    (hconstraints : ∀ k ∈ constraints, k.WellFormed) :
    (Table.ofDefinition name columns constraints).WellFormed where
  name_ne := hname
  columns := forall_mem_mapFirst hcolumns fun _ hc => hc.under hconstraints

theorem Table.WellFormed.under {t : Table} {constraints : String → List Constraint} (h : t.WellFormed)
    (hconstraints : ∀ k ∈ constraints t.name, k.WellFormed) : (t.under constraints).WellFormed where
  name_ne := h.name_ne
  columns := forall_mem_mapFirst h.columns fun _ hc => hc.under hconstraints

/-- Dividing a key among its columns: every part leads to the table, and to a named column of it. -/
theorem wellFormed_of_mem_pairWith {table first : String} (htable : table ≠ "") (hfirst : first ≠ "")
    {columns targets : List String} {key : ForeignKey}
    (h : key ∈ ForeignKeyList.pairWith table first columns targets) : key.WellFormed key.column := by
  induction columns generalizing targets with
  | nil => cases h
  | cons column columns ih =>
      cases targets with
      | nil =>
          rcases List.mem_cons.mp h with rfl | h
          · exact ⟨rfl, htable, hfirst⟩
          · exact ih h
      | cons target targets =>
          rcases List.mem_cons.mp h with rfl | h
          · refine ⟨rfl, htable, ?_⟩
            change (if target = "" then first else target) ≠ ""
            split
            · exact hfirst
            · assumption
          · exact ih h

theorem referencesTable_of_mem_pairWith {table first : String} {columns targets : List String} {key : ForeignKey}
    (h : key ∈ ForeignKeyList.pairWith table first columns targets) : key.referencesTable = table := by
  induction columns generalizing targets with
  | nil => cases h
  | cons column columns ih =>
      cases targets with
      | nil =>
          rcases List.mem_cons.mp h with rfl | h
          · rfl
          · exact ih h
      | cons target targets =>
          rcases List.mem_cons.mp h with rfl | h
          · rfl
          · exact ih h

theorem ForeignKeyList.referencesTable_of_mem_decompose {list : ForeignKeyList} {key : ForeignKey}
    (h : key ∈ list.decompose) : key.referencesTable = list.referencesTable := by
  rw [decompose] at h
  split at h
  · cases h
  · exact referencesTable_of_mem_pairWith h

theorem ForeignKeyList.wellFormed_of_mem_decompose {list : ForeignKeyList} {key : ForeignKey}
    (htable : list.referencesTable ≠ "") (hcolumns : ∀ column ∈ list.referencesColumns, column ≠ "")
    (h : key ∈ list.decompose) : key.WellFormed key.column := by
  rw [decompose] at h
  split at h
  · cases h
  · next first rest hlist =>
    exact wellFormed_of_mem_pairWith htable (hcolumns first (hlist ▸ List.mem_cons_self)) h

end SchemaDump
