import SchemaDump.Proofs.Json.Reading
import SchemaDump.Proofs.Json.Restating
/- Saving a schema and loading it again. A load depends only on the records that a text holds, and
a saved schema is one way to write them. -/
namespace SchemaDump
open Json

/-- A reader of records that depends only on their fields, a missing one being `null`. -/
theorem record_alike {α : Type} {names : List String} {read? : Json → Option α}
    {ofValues? : List Json → Option α}
    (heq : ∀ j, read? j = (j.fields? names).bind fun fields => ofValues? (fields.map (·.getD .null)))
    (hvalues : ∀ {values values'}, List.Forall₂ Alike values values' →
      ofValues? values = ofValues? values')
    (hnames : names ⊆ fieldNames) (hlength : names.length < 4 ∨ 5 < names.length)
    {a b : Json} (h : Alike a b) : read? a = read? b := by
  cases h with
  | refl => rfl
  | single h =>
      have hfields := fields?_alike h hnames hlength
      rw [heq, heq]
      generalize a.fields? names = x at hfields ⊢
      generalize b.fields? names = y at hfields ⊢
      cases hfields with
      | none => rfl
      | some hfields =>
          exact hvalues (List.forall₂_map_left_iff.mpr (List.forall₂_map_right_iff.mpr hfields))

namespace ForeignKey

/-- The key that the values of its fields make up. -/
def ofValues? : List Json → Option ForeignKey
  | [column, table, target] => do
      return ⟨← column.asString?, ← table.asString?, ← target.asString?⟩
  | _ => none

theorem ofJson?_eq (j : Json) : ofJson? j =
    (j.fields? ["column", "referencesTable", "referencesColumn"]).bind fun fields =>
      ofValues? (fields.map (·.getD .null)) := by
  rw [ofJson?]
  cases j.fields? ["column", "referencesTable", "referencesColumn"] with
  | none => rfl
  | some fields =>
      rcases fields with _ | ⟨_ | column, _ | ⟨_ | table, _ | ⟨_ | target, _ | ⟨_, _⟩⟩⟩⟩ <;>
        simp [ofValues?, asString?]

theorem ofValues?_alike {values values' : List Json} (h : List.Forall₂ Alike values values') :
    ofValues? values = ofValues? values' := by
  rcases h with _ | ⟨hcolumn, _ | ⟨htable, _ | ⟨htarget, _ | ⟨_, _⟩⟩⟩⟩
  case cons.cons.cons.nil =>
    simp only [ofValues?, asString?_alike hcolumn, asString?_alike htable, asString?_alike htarget]
  all_goals rfl

theorem ofJson?_alike {a b : Json} (h : Alike a b) : ofJson? a = ofJson? b :=
  record_alike ofJson?_eq ofValues?_alike (by decide) (by decide) h

end ForeignKey

namespace Column

/-- The column that the values of its fields make up. -/
def ofValues? : List Json → Option Column
  | [name, type, isPrimaryKey, isNullable, default, key] => do
      return {
        name := ← name.asString?
        declaredType := ← type.asString?
        isPrimaryKey := ← isPrimaryKey.asBool?
        isNullable := ← isNullable.asBool?
        defaultValue := ← default.asOptional? asString?
        foreignKey := ← key.asOptional? ForeignKey.ofJson? }
  | _ => none

theorem ofJson?_eq (j : Json) : ofJson? j =
    (j.fields? ["name", "declaredType", "isPrimaryKey", "isNullable", "defaultValue",
      "foreignKey"]).bind fun fields => ofValues? (fields.map (·.getD .null)) := by
  rw [ofJson?]
  cases j.fields? ["name", "declaredType", "isPrimaryKey", "isNullable", "defaultValue",
    "foreignKey"] with
  | none => rfl
  | some fields =>
      rcases fields with _ | ⟨_ | name, _ | ⟨_ | type, _ | ⟨_ | isPrimaryKey, _ | ⟨_ | isNullable,
        _ | ⟨default, _ | ⟨key, _ | ⟨_, _⟩⟩⟩⟩⟩⟩⟩ <;>
        first
        | rfl
        | simp only [ofValues?, asString?, asBool?, List.map_cons, List.map_nil, Option.getD_none,
            Option.getD_some, Option.bind_eq_bind, Option.bind_none, Option.bind_fun_none,
            Option.bind_some]

theorem ofValues?_alike {values values' : List Json} (h : List.Forall₂ Alike values values') :
    ofValues? values = ofValues? values' := by
  rcases h with _ | ⟨hname, _ | ⟨htype, _ | ⟨hprimary, _ | ⟨hnullable, _ | ⟨hdefault,
    _ | ⟨hkey, _ | ⟨_, _⟩⟩⟩⟩⟩⟩⟩
  case cons.cons.cons.cons.cons.cons.nil =>
    simp only [ofValues?, asString?_alike hname, asString?_alike htype, asBool?_alike hprimary,
      asBool?_alike hnullable, asOptional?_alike asString?_alike hdefault,
      asOptional?_alike ForeignKey.ofJson?_alike hkey]
  all_goals rfl

theorem ofJson?_alike {a b : Json} (h : Alike a b) : ofJson? a = ofJson? b :=
  record_alike ofJson?_eq ofValues?_alike (by decide) (by decide) h

end Column

namespace Table

/-- The table that the values of its fields make up. -/
def ofValues? : List Json → Option Table
  | [name, columns] => do
      return ⟨← name.asString?, ← columns.asArray?.bind (·.mapM Column.ofJson?)⟩
  | _ => none

theorem ofJson?_eq (j : Json) : ofJson? j =
    (j.fields? ["name", "columns"]).bind fun fields => ofValues? (fields.map (·.getD .null)) := by
  rw [ofJson?]
  cases j.fields? ["name", "columns"] with
  | none => rfl
  | some fields =>
      rcases fields with _ | ⟨_ | name, _ | ⟨_ | columns, _ | ⟨_, _⟩⟩⟩ <;>
        simp [ofValues?, asString?, asArray?, Option.bind_assoc]

theorem ofValues?_alike {values values' : List Json} (h : List.Forall₂ Alike values values') :
    ofValues? values = ofValues? values' := by
  rcases h with _ | ⟨hname, _ | ⟨hcolumns, _ | ⟨_, _⟩⟩⟩
  case cons.cons.nil =>
    simp only [ofValues?, asString?_alike hname,
      records_alike Column.ofJson?_alike (fun _ => rfl) hcolumns]
  all_goals rfl

theorem ofJson?_alike {a b : Json} (h : Alike a b) : ofJson? a = ofJson? b :=
  record_alike ofJson?_eq ofValues?_alike (by decide) (by decide) h

end Table

namespace Schema

/-- The schema that the values of its fields make up. -/
def ofValues? : List Json → Option Schema
  | [tables] => do return ⟨← tables.asArray?.bind (·.mapM Table.ofJson?)⟩
  | _ => none

theorem ofJson?_eq (j : Json) : ofJson? j =
    (j.fields? ["tables"]).bind fun fields => ofValues? (fields.map (·.getD .null)) := by
  rw [ofJson?]
  cases j.fields? ["tables"] with
  | none => rfl
  | some fields =>
      rcases fields with _ | ⟨_ | tables, _ | ⟨_, _⟩⟩ <;>
        simp [ofValues?, asArray?, Option.bind_assoc]

theorem ofValues?_alike {values values' : List Json} (h : List.Forall₂ Alike values values') :
    ofValues? values = ofValues? values' := by
  rcases h with _ | ⟨htables, _ | ⟨_, _⟩⟩
  case cons.nil =>
    simp only [ofValues?, records_alike Table.ofJson?_alike (fun _ => rfl) htables]
  all_goals rfl

theorem ofJson?_alike {a b : Json} (h : Alike a b) : ofJson? a = ofJson? b :=
  record_alike ofJson?_eq ofValues?_alike (by decide) (by decide) h

theorem ofJson?_restated {a b : Json} (h : Relation.EqvGen (Within Restating) a b) :
    ofJson? a = ofJson? b := by
  induction h with
  | rel a b h => exact ofJson?_alike (.single h)
  | refl => rfl
  | symm a b _ ih => exact ih.symm
  | trans a b c _ _ ihab ihbc => exact ihab.trans ihbc

end Schema

theorem ForeignKey.ofJson?_toJson (key : ForeignKey) : ofJson? key.toJson = some key := by
  rfl

theorem Column.ofJson?_toJson (c : Column) : ofJson? c.toJson = some c := by
  obtain ⟨name, type, isPrimaryKey, isNullable, default, key⟩ := c
  cases default <;> cases key <;> rfl

theorem mapM_map_eq_some {α β : Type} {f : β → Option α} {g : α → β} (h : ∀ x, f (g x) = some x) :
    ∀ l : List α, (l.map g).mapM f = some l
  | [] => rfl
  | x :: l => by
      rw [List.map_cons, List.mapM_cons, h, mapM_map_eq_some h l]; rfl

theorem Table.ofJson?_toJson (t : Table) : ofJson? t.toJson = some t := by
  have columns := mapM_map_eq_some Column.ofJson?_toJson t.columns
  change (do return (⟨t.name, ← (t.columns.map Column.toJson).mapM Column.ofJson?⟩ : Table)) = _
  rw [columns]; rfl

theorem Schema.ofJson?_toJson (s : Schema) : ofJson? s.toJson = some s := by
  have tables := mapM_map_eq_some Table.ofJson?_toJson s.tables
  change (do return (⟨← (s.tables.map Table.toJson).mapM Table.ofJson?⟩ : Schema)) = _
  rw [tables]; rfl

namespace Json

theorem areNumberless_eq_all : ∀ values : List Json, areNumberless values = values.all isNumberless
  | [] => rfl
  | value :: values => by rw [areNumberless, areNumberless_eq_all values, List.all_cons]

theorem haveNumberless_eq_all : ∀ members : List (Option String × Json),
    haveNumberless members = members.all (isNumberless ·.2)
  | [] => rfl
  | (key, value) :: members => by
      rw [haveNumberless, haveNumberless_eq_all members, List.all_cons]

theorem isNumberless_within {a b : Json} (h : Within Exchange a b) :
    a.isNumberless = b.isNumberless := by
  induction h with
  | here h =>
      cases h
      simp only [isNumberless, haveNumberless_eq_all, List.all_append, List.all_cons]
      ac_rfl
  | element before after _ ih =>
      simp only [isNumberless, areNumberless_eq_all, List.all_append, List.all_cons, ih]
  | member before after key _ ih =>
      simp only [isNumberless, haveNumberless_eq_all, List.all_append, List.all_cons, ih]

theorem Reordered.isNumberless_eq {a b : Json} (h : Reordered a b) :
    a.isNumberless = b.isNumberless := by
  induction h with
  | refl => rfl
  | tail _ h ih => exact ih.trans (isNumberless_within h)

theorem Within.restating {a b : Json} (h : Within Exchange a b) : Within Restating a b := by
  induction h with
  | here h => exact .here (.exchange h)
  | element before after _ ih => exact .element before after ih
  | member before after key _ ih => exact .member before after key ih

end Json

theorem ForeignKey.isNumberless_toJson (key : ForeignKey) : key.toJson.isNumberless := rfl

theorem Column.isNumberless_toJson (c : Column) : c.toJson.isNumberless := by
  obtain ⟨name, type, isPrimaryKey, isNullable, default, key⟩ := c
  cases default <;> cases key <;> rfl

theorem Table.isNumberless_toJson (t : Table) : t.toJson.isNumberless := by
  have columns : (t.columns.map Column.toJson).all isNumberless := by
    simp [Column.isNumberless_toJson]
  simp [Table.toJson, Json.record, Json.text, isNumberless, haveNumberless, areNumberless_eq_all,
    columns]

theorem Schema.isNumberless_toJson (s : Schema) : s.toJson.isNumberless := by
  have tables : (s.tables.map Table.toJson).all isNumberless := by
    simp [Table.isNumberless_toJson]
  simp [Schema.toJson, Json.record, isNumberless, haveNumberless, areNumberless_eq_all, tables]

namespace Schema

/-- The schema that a text holds in its JSON form. -/
def load? (t : Text) : Option Schema := (parse? t).bind ofJson?

def save (s : Schema) : Text := compact s.toJson

def resave? (t : Text) : Option Text := (load? t).map save

theorem ofJson?_reordered {s : Schema} {j : Json} (h : Reordered s.toJson j) :
    ofJson? j = some s := by
  have hrestated : Relation.EqvGen (Within Restating) s.toJson j := by
    induction h with
    | refl => exact .refl _
    | tail _ h ih => exact .trans _ _ _ ih (.rel _ _ h.restating)
  rw [← ofJson?_restated hrestated, ofJson?_toJson]

theorem load?_written {s : Schema} {j : Json} (h : Reordered s.toJson j) :
    load? (compact j) = some s ∧ load? (pretty j).toList = some s := by
  have hnumberless : j.isNumberless := h.isNumberless_eq ▸ s.isNumberless_toJson
  rw [load?, load?, parse?_compact hnumberless, parse?_pretty hnumberless]
  exact ⟨ofJson?_reordered h, ofJson?_reordered h⟩

theorem load?_save (s : Schema) : load? s.save = some s := (load?_written .refl).1

/-- The JSON form loses nothing. Whatever the order of the members and in both layouts, the text
of a schema loads to that schema; so whatever a load accepts is saved as a text that loads to the
same schema, and saving that again changes nothing. Two texts are loaded alike if they hold the
same records up to the order of members, unknown members, and values that are left out or `null`. -/
theorem save_loses_nothing :
    (∀ (s : Schema) (j : Json), Reordered s.toJson j →
      load? (compact j) = some s ∧ load? (pretty j).toList = some s) ∧
    (∀ t u : Text, resave? t = some u → load? u = load? t ∧ resave? u = some u) ∧
    (∀ (t u : Text) (a b : Json), parse? t = some a → parse? u = some b →
      Relation.EqvGen (Within Restating) a b → load? t = load? u) := by
  refine ⟨fun s j h => load?_written h, ?_, ?_⟩
  · intro t u h
    obtain ⟨s, hload, rfl⟩ := Option.map_eq_some_iff.mp h
    rw [resave?, load?_save, hload]
    exact ⟨rfl, rfl⟩
  · intro t u a b ht hu h
    rw [load?, load?, ht, hu]
    exact ofJson?_restated h

/-- A table whose name is written before its columns, a schema whose records are arrays, and a
column with and without the `null` at its end. -/
theorem save_loses_nothing_of_users :
    load? (compact (.record [("tables", .array [.record [("name", .text "users"),
        ("columns", .array [])]])])) = some ⟨[⟨"users", []⟩]⟩ ∧
    load? (save ⟨[⟨"users", []⟩]⟩) =
      load? (compact (.array [.array [.array [.text "users", .array []]]])) ∧
    load? (compact (.array [.array [.array [.text "users", .array [.array [.text "id",
        .text "integer", .bool true, .bool false, .null]]]]])) =
      load? (compact (.array [.array [.array [.text "users", .array [.array [.text "id",
        .text "integer", .bool true, .bool false]]]]])) := by
  have hresave : resave? (compact (.array [.array [.array [.text "users", .array []]]])) =
      some (save ⟨[⟨"users", []⟩]⟩) := by
    rw [resave?, load?, parse?_compact rfl]
    rfl
  refine ⟨(save_loses_nothing.1 ⟨[⟨"users", []⟩]⟩ _ ?_).1, (save_loses_nothing.2.1 _ _ hresave).1,
    save_loses_nothing.2.2 _ _ _ _ (parse?_compact rfl) (parse?_compact rfl) ?_⟩
  · exact .single (.member [] [] _ (.element [] [] (.here ⟨[], [], _, _⟩)))
  · exact .rel _ _ (.element [] [] (.element [] [] (.element [.text "users"] []
      (.element [] [] (.here (.short _ _ _ _ [] (by decide)))))))

end Schema
end SchemaDump
