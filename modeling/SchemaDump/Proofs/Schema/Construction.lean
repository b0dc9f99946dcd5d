import SchemaDump.Proofs.Schema.Draft
/- Building up a schema step by step. A draft finds tables and columns through its indexes; plain
lists are searched from the front. Both lead to the same schema, whatever the steps and however
often a name is used. -/
namespace SchemaDump

/-- A change to one table. -/
inductive TableStep
  | apply (constraint : Constraint)
  | pushColumn (column : Column)
  | markPrimaryKey (columns : List String)
  | attachForeignKey (key : ForeignKey)
  | setType (column type : String)

/-- A step in building up a schema. -/
inductive Step
  | addTable (name : String) (columns : List Column)
  | applyDeferred (table : String) (constraint : Constraint)
  | onTable (table : String) (step : TableStep)

def TableDraft.perform (t : TableDraft) : TableStep → TableDraft
  | .apply constraint => t.apply constraint
  | .pushColumn column => t.pushColumn column
  | .markPrimaryKey columns => t.markPrimaryKey columns
  | .attachForeignKey key => t.attachForeignKey key
  | .setType column type => t.updateColumn column ({ · with declaredType := type })

def SchemaDraft.perform (s : SchemaDraft) : Step → SchemaDraft
  | .addTable name columns => s.addTable (columns.foldl TableDraft.pushColumn (.empty name))
  | .applyDeferred table constraint => s.applyDeferred table constraint
  | .onTable table step => (s.updateTable? table (·.perform step)).getD s

def SchemaDraft.ofSteps (steps : List Step) : SchemaDraft :=
  steps.foldl SchemaDraft.perform .empty

def updateFirst {α : Type} (key : α → String) (name : String) (change : α → α) : List α → List α
  | [] => []
  | a :: l => if key a = name then change a :: l else a :: updateFirst key name change l

namespace Table

def updateColumn (t : Table) (name : String) (change : Column → Column) : Table :=
  { t with columns := updateFirst (·.name) name change t.columns }

def markPrimaryKey (t : Table) (columns : List String) : Table :=
  columns.foldl (fun t name => t.updateColumn name ({ · with isPrimaryKey := true })) t

def attachForeignKey (t : Table) (key : ForeignKey) : Table :=
  t.updateColumn key.column ({ · with foreignKey := some key })

def apply (t : Table) : Constraint → Table
  | .primaryKey columns => t.markPrimaryKey columns
  | .foreignKey key => key.decompose.foldl attachForeignKey t

def perform (t : Table) : TableStep → Table
  | .apply constraint => t.apply constraint
  | .pushColumn column => { t with columns := t.columns ++ [column] }
  | .markPrimaryKey columns => t.markPrimaryKey columns
  | .attachForeignKey key => t.attachForeignKey key
  | .setType column type => t.updateColumn column ({ · with declaredType := type })

end Table

namespace Schema

def updateTable (s : Schema) (name : String) (change : Table → Table) : Schema :=
  ⟨updateFirst (·.name) name change s.tables⟩

def perform (s : Schema) : Step → Schema
  | .addTable name columns => ⟨s.tables ++ [⟨name, columns⟩]⟩
  | .applyDeferred table constraint => s.updateTable table (·.apply constraint)
  | .onTable table step => s.updateTable table (·.perform step)

def ofSteps (steps : List Step) : Schema := steps.foldl perform .empty

end Schema

section Lists

variable {α β : Type} {key : α → String} {name : String} {change : α → α} {l : List α}

theorem mapFirst_eq_updateFirst :
    mapFirst key (fun a => if key a = name then change a else a) [] l =
      updateFirst key name change l := by
  have hgen : ∀ seen : List String, name ∉ seen →
      mapFirst key (fun a => if key a = name then change a else a) seen l =
        updateFirst key name change l := by
    induction l with
    | nil => intros; rfl
    | cons a l ih =>
        intro seen hname
        rw [mapFirst, updateFirst]
        by_cases ha : key a = name
        · rw [if_pos ha, if_neg (ha ▸ hname), if_pos ha,
            mapFirst_eq_self_of_seen change (by simp [ha])]
        · have hnext : name ∉ key a :: seen := by
            simpa [hname] using Ne.symm ha
          rw [if_neg ha, ite_self, if_neg ha, ih _ hnext]
  exact hgen [] List.not_mem_nil

theorem map_updateFirst {look : β → String} {view : α → β} {h : β → β}
    (hkey : ∀ a, look (view a) = key a) (hview : ∀ a ∈ l, view (change a) = h (view a)) :
    (updateFirst key name change l).map view = updateFirst look name h (l.map view) := by
  induction l with
  | nil => rfl
  | cons a l ih =>
      rw [updateFirst, List.map_cons, updateFirst, hkey]
      split
      · rw [List.map_cons, hview a List.mem_cons_self]
      · rw [List.map_cons, ih fun b hb => hview b (List.mem_cons_of_mem a hb)]

theorem map_key_updateFirst (hchange : ∀ a ∈ l, key (change a) = key a) :
    (updateFirst key name change l).map key = l.map key := by
  induction l with
  | nil => rfl
  | cons a l ih =>
      rw [updateFirst]
      split
      · rw [List.map_cons, List.map_cons, hchange a List.mem_cons_self]
      · rw [List.map_cons, List.map_cons, ih fun b hb => hchange b (List.mem_cons_of_mem a hb)]

theorem updateFirst_of_not_mem (h : name ∉ l.map key) : updateFirst key name change l = l := by
  induction l with
  | nil => rfl
  | cons a l ih =>
      rw [List.map_cons] at h
      rw [updateFirst, if_neg (Ne.symm (List.ne_of_not_mem_cons h)), ih (List.not_mem_of_not_mem_cons h)]

theorem forall_mem_updateFirst {P : α → Prop} (hl : ∀ a ∈ l, P a) (hchange : ∀ a, P a → P (change a)) :
    ∀ a ∈ updateFirst key name change l, P a := by
  induction l with
  | nil => exact hl
  | cons b l ih =>
      have hb := hl b List.mem_cons_self
      have hrest : ∀ a ∈ l, P a := fun a ha => hl a (List.mem_cons_of_mem b ha)
      intro a ha
      rw [updateFirst] at ha
      split at ha
      · rcases List.mem_cons.mp ha with rfl | ha
        · exact hchange b hb
        · exact hrest a ha
      · rcases List.mem_cons.mp ha with rfl | ha
        · exact hb
        · exact ih hrest a ha

/-- Changing the element at the first position of a name, if it has one. -/
theorem map_findIdx?_modify (key : α → String) (name : String) (change : α → α) (l : List α) :
    ((l.map key).findIdx? (· = name)).map (fun position => l.modify position change) =
      if name ∈ l.map key then some (updateFirst key name change l) else none := by
  cases h : (l.map key).findIdx? (· = name) with
  | none =>
      have hnot : name ∉ l.map key := by
        intro hmem
        have hnone := List.findIdx?_eq_none_iff.mp h name hmem
        simp at hnone
      rw [if_neg hnot, Option.map_none]
  | some position =>
      have hmodify : updateFirst key name change l = l.modify position change := by
        rw [← mapFirst_eq_updateFirst, mapFirst_eq_modify change List.not_mem_nil, h]
      have hmem : name ∈ l.map key := by
        obtain ⟨hlt, hname, -⟩ := List.findIdx?_eq_some_iff_getElem.mp h
        exact of_decide_eq_true hname ▸ List.getElem_mem hlt
      rw [if_pos hmem, hmodify, Option.map_some]

/-- The element at the first position of a name is the first one of that name. -/
theorem findIdx?_bind_getElem? :
    ((l.map key).findIdx? (· = name)).bind (l[·]?) = l.find? (fun a => key a = name) := by
  induction l with
  | nil => rfl
  | cons a l ih =>
      rw [List.map_cons, List.findIdx?_cons, List.find?_cons]
      by_cases ha : key a = name
      · simp [ha]
      · simp only [ha, decide_false, Bool.false_eq_true, if_false, ← ih]
        cases (l.map key).findIdx? (· = name) <;> simp

theorem find?_mapFirst (hchange : ∀ a, key (change a) = key a) :
    (mapFirst key change [] l).find? (fun a => key a = name) = (l.find? fun a => key a = name).map change := by
  rw [← findIdx?_bind_getElem?, ← findIdx?_bind_getElem?, map_key_mapFirst hchange]
  cases hi : (l.map key).findIdx? (· = name) with
  | none => rfl
  | some i =>
      obtain ⟨hfirst, hname⟩ := isFirst_of_findIdx? hi
      rw [List.getElem?_map] at hname
      obtain ⟨b, hb, -⟩ := Option.map_eq_some_iff.mp hname
      rw [Option.bind_some, Option.bind_some, getElem?_mapFirst_of_first hb List.not_mem_nil hfirst, hb,
        Option.map_some]

end Lists

/-- An index leads from every name that is held to its first holder, and from no other name to
anything. -/
structure NameIndex.Sound (index : NameIndex) (names : List String) : Prop where
  inRange : ∀ name position, index.position? name = some position → position < names.length
  holder : ∀ name position, index.position? name = some position → names[position]? = some name
  least : ∀ name position, index.position? name = some position →
    ∀ other, names[other]? = some name → position ≤ other
  complete : ∀ name ∈ names, (index.position? name).isSome

theorem NameIndex.Indexes.sound {index : NameIndex} {names : List String}
    (h : index.Indexes names) : index.Sound names where
  inRange name position hposition := by
    obtain ⟨hlt, -⟩ := List.findIdx?_eq_some_iff_getElem.mp ((h name).symm.trans hposition)
    exact hlt
  holder name position hposition := by
    obtain ⟨hlt, hname, -⟩ := List.findIdx?_eq_some_iff_getElem.mp ((h name).symm.trans hposition)
    rw [List.getElem?_eq_getElem hlt, of_decide_eq_true hname]
  least name position hposition other hother := by
    obtain ⟨_, _, hearlier⟩ :=
      List.findIdx?_eq_some_iff_getElem.mp ((h name).symm.trans hposition)
    apply Nat.le_of_not_lt
    intro hlt
    obtain ⟨hrange, hname⟩ := List.getElem?_eq_some_iff.mp hother
    exact absurd (decide_eq_true hname) (hearlier other hlt)
  complete name hname := by
    rw [h name, List.findIdx?_isSome, List.any_eq_true]
    exact ⟨name, hname, decide_eq_true rfl⟩

namespace TableDraft

variable {t : TableDraft} {name : String} {change : Column → Column}

theorem WellIndexed.updateColumn? (h : t.WellIndexed) (name : String) (change : Column → Column) :
    t.updateColumn? name change =
      if name ∈ t.columns.map (·.name) then
        some { t with columns := updateFirst (·.name) name change t.columns }
      else none := by
  have hlist := map_findIdx?_modify Column.name name change t.columns
  rw [TableDraft.updateColumn?, h name]
  have hmap := congrArg (Option.map fun columns => { t with columns }) hlist
  rw [Option.map_map] at hmap
  refine hmap.trans ?_
  split <;> rfl

theorem WellIndexed.updateColumn_wellIndexed (h : t.WellIndexed)
    (hchange : ∀ c, (change c).name = c.name) : (t.updateColumn name change).WellIndexed := by
  rw [h.updateColumn]
  apply h.changeFirst
  intro c
  split
  · exact hchange c
  · rfl

theorem WellIndexed.build_updateColumn (h : t.WellIndexed) :
    (t.updateColumn name change).build = t.build.updateColumn name change := by
  rw [h.updateColumn, TableDraft.changeFirst, mapFirst_eq_updateFirst]
  rfl

theorem WellIndexed.build_markPrimaryKey (h : t.WellIndexed) (columns : List String) :
    (t.markPrimaryKey columns).WellIndexed ∧
      (t.markPrimaryKey columns).build = t.build.markPrimaryKey columns := by
  induction columns generalizing t with
  | nil => exact ⟨h, rfl⟩
  | cons name columns ih =>
      have hfirst : (t.updateColumn name ({ · with isPrimaryKey := true })).WellIndexed :=
        h.updateColumn_wellIndexed fun _ => rfl
      obtain ⟨hindexed, hbuild⟩ := ih hfirst
      rw [h.build_updateColumn] at hbuild
      exact ⟨hindexed, hbuild⟩

theorem WellIndexed.build_attachForeignKey (h : t.WellIndexed) (key : ForeignKey) :
    (t.attachForeignKey key).WellIndexed ∧
      (t.attachForeignKey key).build = t.build.attachForeignKey key :=
  ⟨h.updateColumn_wellIndexed fun _ => rfl, h.build_updateColumn⟩

theorem WellIndexed.build_apply (h : t.WellIndexed) (constraint : Constraint) :
    (t.apply constraint).WellIndexed ∧ (t.apply constraint).build = t.build.apply constraint := by
  cases constraint with
  | primaryKey columns => exact h.build_markPrimaryKey columns
  | foreignKey key =>
      have hfold : ∀ keys : List ForeignKey, (keys.foldl attachForeignKey t).WellIndexed ∧
          (keys.foldl attachForeignKey t).build =
            keys.foldl Table.attachForeignKey t.build := by
        intro keys
        induction keys generalizing t with
        | nil => exact ⟨h, rfl⟩
        | cons key keys ih =>
            obtain ⟨hindexed, hbuild⟩ := h.build_attachForeignKey key
            rw [List.foldl_cons, List.foldl_cons, ← hbuild]
            exact ih hindexed
      exact hfold key.decompose

theorem WellIndexed.build_perform (h : t.WellIndexed) (step : TableStep) :
    (t.perform step).WellIndexed ∧ (t.perform step).build = t.build.perform step := by
  cases step with
  | apply constraint => exact h.build_apply constraint
  | pushColumn column => exact ⟨h.pushColumn column, rfl⟩
  | markPrimaryKey columns => exact h.build_markPrimaryKey columns
  | attachForeignKey key => exact h.build_attachForeignKey key
  | setType column type => exact ⟨h.updateColumn_wellIndexed fun _ => rfl, h.build_updateColumn⟩

end TableDraft

namespace Table

theorem foldl_name {α : Type} (f : Table → α → Table) (hf : ∀ t a, (f t a).name = t.name)
    (l : List α) (t : Table) : (l.foldl f t).name = t.name := by
  induction l generalizing t with
  | nil => rfl
  | cons a l ih => rw [List.foldl_cons, ih, hf]

theorem markPrimaryKey_name (t : Table) (columns : List String) :
    (t.markPrimaryKey columns).name = t.name := by
  rw [markPrimaryKey]
  apply foldl_name
  intros
  rfl

theorem apply_name (t : Table) (constraint : Constraint) : (t.apply constraint).name = t.name := by
  cases constraint with
  | primaryKey columns => exact t.markPrimaryKey_name columns
  | foreignKey key => exact foldl_name attachForeignKey (fun _ _ => rfl) key.decompose t

theorem perform_name (t : Table) (step : TableStep) : (t.perform step).name = t.name := by
  cases step with
  | apply constraint => exact t.apply_name constraint
  | markPrimaryKey columns => exact t.markPrimaryKey_name columns
  | pushColumn | attachForeignKey | setType => rfl

end Table

namespace SchemaDraft

variable {s : SchemaDraft} {name : String} {change : TableDraft → TableDraft}
  {planned : Table → Table}

theorem WellIndexed.updateTable? (h : s.WellIndexed) (name : String)
    (change : TableDraft → TableDraft) :
    s.updateTable? name change =
      if name ∈ s.tables.map (·.name) then
        some { s with tables := updateFirst (·.name) name change s.tables }
      else none := by
  have hlist := map_findIdx?_modify TableDraft.name name change s.tables
  rw [SchemaDraft.updateTable?, h.1 name]
  have hmap := congrArg (Option.map fun tables => { s with tables }) hlist
  rw [Option.map_map] at hmap
  refine hmap.trans ?_
  split <;> rfl

/-- A change of one table that builds a planned change builds it in the schema too. -/
theorem WellIndexed.build_updateTable (h : s.WellIndexed)
    (hchange : ∀ t, t.WellIndexed → (change t).WellIndexed ∧ (change t).build = planned t.build)
    (hname : ∀ t, (planned t).name = t.name) :
    ((s.updateTable? name change).getD s).WellIndexed ∧
      ((s.updateTable? name change).getD s).build = s.build.updateTable name planned := by
  have hkeep : ∀ t ∈ s.tables, (change t).name = t.name := by
    intro t ht
    have hbuild := congrArg Table.name (hchange t (h.2 t ht)).2
    rwa [hname] at hbuild
  have hbuild : (updateFirst (·.name) name change s.tables).map TableDraft.build =
      updateFirst (·.name) name planned (s.tables.map TableDraft.build) :=
    map_updateFirst (fun _ => rfl) fun t ht => (hchange t (h.2 t ht)).2
  rw [h.updateTable?]
  by_cases hmem : name ∈ s.tables.map (·.name)
  · rw [if_pos hmem, Option.getD_some]
    refine ⟨⟨?_, ?_⟩, congrArg Schema.mk hbuild⟩
    · rw [map_key_updateFirst hkeep]
      exact h.1
    · exact forall_mem_updateFirst h.2 fun t ht => (hchange t ht).1
  · rw [if_neg hmem, Option.getD_none]
    rw [updateFirst_of_not_mem hmem] at hbuild
    exact ⟨h, congrArg Schema.mk hbuild⟩

/-- A step keeps a draft well indexed and builds what it gives on plain lists. -/
theorem WellIndexed.build_perform (h : s.WellIndexed) (step : Step) :
    (s.perform step).WellIndexed ∧ (s.perform step).build = s.build.perform step := by
  cases step with
  | addTable name columns =>
      obtain ⟨hindexed, hname, hcolumns⟩ :=
        (TableDraft.wellIndexed_empty name).foldl_pushColumn columns
      refine ⟨h.addTable hindexed, ?_⟩
      have htable : (columns.foldl TableDraft.pushColumn (.empty name)).build = ⟨name, columns⟩ := by
        rw [TableDraft.build, hname, hcolumns]
        rfl
      simp only [SchemaDraft.perform, SchemaDraft.build, SchemaDraft.addTable, List.map_append,
        List.map_cons, List.map_nil, htable, Schema.perform]
  | applyDeferred table constraint =>
      exact h.build_updateTable (fun t ht => ht.build_apply constraint)
        fun t => t.apply_name constraint
  | onTable table step =>
      exact h.build_updateTable (fun t ht => ht.build_perform step) fun t => t.perform_name step

theorem ofSteps_wellIndexed (steps : List Step) :
    (ofSteps steps).WellIndexed ∧ (ofSteps steps).build = Schema.ofSteps steps := by
  have hfold : ∀ (s : SchemaDraft) (schema : Schema), s.WellIndexed → s.build = schema →
      (steps.foldl perform s).WellIndexed ∧
        (steps.foldl perform s).build = steps.foldl Schema.perform schema := by
    induction steps with
    | nil => exact fun s schema h hbuild => ⟨h, hbuild⟩
    | cons step steps ih =>
        intro s schema h hbuild
        obtain ⟨hindexed, hstep⟩ := h.build_perform step
        exact ih _ _ hindexed (hbuild ▸ hstep)
  exact hfold empty Schema.empty wellIndexed_empty rfl

/-- A draft stands for a schema: its indexes are sound, it finds and changes the first holder of
every name that is present and of no other, and what it finds before it is built is what the
schema finds afterwards. -/
structure Represents (s : SchemaDraft) (schema : Schema) : Prop where
  tableIndex : s.positions.Sound (s.tables.map (·.name))
  columnIndex : ∀ t ∈ s.tables, t.positions.Sound (t.columns.map (·.name))
  changesTable : ∀ name change, s.updateTable? name change =
    if name ∈ s.tables.map (·.name) then
      some { s with tables := updateFirst (·.name) name change s.tables }
    else none
  changesColumn : ∀ t ∈ s.tables, ∀ name change, t.updateColumn? name change =
    if name ∈ t.columns.map (·.name) then
      some { t with columns := updateFirst (·.name) name change t.columns }
    else none
  build : s.build = schema
  sameTable : ∀ name, s.table? name = s.tables.find? (·.name = name) ∧
    (s.table? name).map TableDraft.build = schema.table? name
  sameColumn : ∀ t ∈ s.tables, ∀ name,
    (t.positions.position? name).bind (t.columns[·]?) = t.build.column? name

/-- Whatever the steps, the draft stands for the schema that they give on plain lists. -/
theorem ofSteps_represents (steps : List Step) :
    (ofSteps steps).Represents (Schema.ofSteps steps) := by
  obtain ⟨h, hbuild⟩ := ofSteps_wellIndexed steps
  have hfind : ∀ name, (ofSteps steps).table? name =
      (ofSteps steps).tables.find? (·.name = name) := by
    intro name
    rw [SchemaDraft.table?, h.1 name]
    exact findIdx?_bind_getElem?
  refine ⟨h.1.sound, fun t ht => (h.2 t ht).sound, h.updateTable?,
    fun t ht => (h.2 t ht).updateColumn?, hbuild, fun name => ⟨hfind name, ?_⟩, ?_⟩
  · rw [hfind, ← hbuild, Schema.table?, SchemaDraft.build, List.find?_map]
    rfl
  · intro t ht name
    rw [h.2 t ht name]
    exact findIdx?_bind_getElem?

end SchemaDraft

end SchemaDump
