import Mathlib.Data.List.Forall2
import Mathlib.Logic.Relation
import SchemaDump.Schema.Json
/- Writing the same records in another way. What is read of a record does not depend on the order
of its members, on members that are no fields, or on whether a missing value is written as `null`. -/
namespace SchemaDump

namespace Json

/-- A change somewhere inside a value. -/
inductive Within (change : Json → Json → Prop) : Json → Json → Prop
  | here {a b : Json} : change a b → Within change a b
  | element {a b : Json} (before after : List Json) :
      Within change a b → Within change (.array (before ++ a :: after)) (.array (before ++ b :: after))
  | member {a b : Json} (before after : List (Option String × Json)) (key : Option String) :
      Within change a b →
        Within change (.object (before ++ (key, a) :: after)) (.object (before ++ (key, b) :: after))

/-- Two neighbouring members of an object change places. -/
inductive Exchange : Json → Json → Prop
  | mk (before after : List (Option String × Json)) (first second : Option String × Json) :
      Exchange (.object (before ++ first :: second :: after))
        (.object (before ++ second :: first :: after))

/-- The same value with the members of its objects in another order. -/
def Reordered : Json → Json → Prop := Relation.ReflTransGen (Within Exchange)

def fieldNames : List String :=
  ["tables", "name", "columns", "declaredType", "isPrimaryKey", "isNullable", "defaultValue",
    "foreignKey", "column", "referencesTable", "referencesColumn"]

/-- Writing the same record in another way: members change places, a member that is no field is
left out, and so is a value that is `null`, be it a member or one of the last two values of a
column that is given as an array. -/
inductive Restating : Json → Json → Prop
  | exchange {a b : Json} : Exchange a b → Restating a b
  | unknown (before after : List (Option String × Json)) (key : String) (value : Json) :
      key ∉ fieldNames →
        Restating (.object (before ++ (some key, value) :: after)) (.object (before ++ after))
  | absent (before after : List (Option String × Json)) (key : String) :
      (∀ m ∈ before ++ after, m.1 ≠ some key) →
        Restating (.object (before ++ (some key, .null) :: after)) (.object (before ++ after))
  | short (name type : Json) (isPrimaryKey isNullable : Bool) (rest : List Json) :
      rest.length ≤ 1 →
        Restating (.array (name :: type :: .bool isPrimaryKey :: .bool isNullable :: (rest ++ [.null])))
          (.array (name :: type :: .bool isPrimaryKey :: .bool isNullable :: rest))

/-- Equal, or one restates a part of the other. -/
abbrev Alike : Json → Json → Prop := Relation.ReflGen (Within Restating)

/-- Values of a field that may be missing, which counts as `null`. -/
def FieldAlike (x y : Option Json) : Prop := Alike (x.getD .null) (y.getD .null)

variable {a b : Json} {names : List String} {name key : String}
  {before after members members' : List (Option String × Json)}

theorem member?_congr
    (h : members.filter (·.1 = some name) = members'.filter (·.1 = some name)) :
    member? members name = member? members' name := by
  rw [member?, member?, h]

/-- A field that stands in an object twice cannot be read. -/
theorem member?_of_repeated {m : Option String × Json} (hm : m.1 = some name)
    (hagain : ∃ n ∈ before ++ after, n.1 = some name) :
    member? (before ++ m :: after) name = none := by
  obtain ⟨n, hn, hname⟩ := hagain
  have again : 0 < ((before ++ after).filter (·.1 = some name)).length :=
    List.length_pos_of_mem (List.mem_filter.mpr ⟨hn, decide_eq_true hname⟩)
  have twice : 2 ≤ ((before ++ m :: after).filter (·.1 = some name)).length := by
    simp only [List.filter_append, List.length_append] at again ⊢
    rw [List.filter_cons_of_pos (by simpa using hm), List.length_cons]
    omega
  rw [member?]
  split
  · rename_i hfound; rw [hfound] at twice; simp at twice
  · rename_i hfound; rw [hfound] at twice; simp at twice
  · rfl

theorem filter_eq_nil_of_absent (h : ∀ m ∈ members, m.1 ≠ some name) :
    members.filter (·.1 = some name) = [] :=
  List.filter_eq_nil_iff.mpr fun m hm hname => h m hm (of_decide_eq_true hname)

theorem member?_of_absent (h : ∀ m ∈ members, m.1 ≠ some name) :
    member? members name = some none := by
  rw [member?, filter_eq_nil_of_absent h]

theorem member?_of_only (h : ∀ m ∈ before ++ after, m.1 ≠ some name) (value : Json) :
    member? (before ++ (some name, value) :: after) name = some (some value) := by
  rw [member?, List.filter_append, List.filter_cons_of_pos (by simp),
    filter_eq_nil_of_absent fun m hm => h m (List.mem_append_left _ hm),
    filter_eq_nil_of_absent fun m hm => h m (List.mem_append_right _ hm)]
  rfl

theorem member?_insert {m : Option String × Json} (h : m.1 ≠ some name) :
    member? (before ++ m :: after) name = member? (before ++ after) name :=
  member?_congr (by simp [h])

theorem member?_exchange (first second : Option String × Json) (name : String) :
    member? (before ++ first :: second :: after) name =
      member? (before ++ second :: first :: after) name := by
  by_cases hfirst : first.1 = some name
  · by_cases hsecond : second.1 = some name
    · rw [member?_of_repeated hfirst ⟨second, by simp, hsecond⟩,
        member?_of_repeated hsecond ⟨first, by simp, hfirst⟩]
    · exact member?_congr (by simp [hfirst, hsecond])
  · exact member?_congr (by simp [List.filter_cons, hfirst])

/-- Values of one field, read from two writings of a record. -/
abbrev ReadAlike : Option (Option Json) → Option (Option Json) → Prop := Option.Rel FieldAlike

theorem readAlike_of_eq {x y : Option (Option Json)} (h : x = y) : ReadAlike x y := by
  subst h
  cases x with
  | none => exact .none
  | some value => exact .some (Relation.ReflGen.refl)

theorem member?_within (h : Within Restating a b) (key : Option String) (name : String) :
    ReadAlike (member? (before ++ (key, a) :: after) name)
      (member? (before ++ (key, b) :: after) name) := by
  by_cases hkey : key = some name
  · by_cases hagain : ∃ m ∈ before ++ after, m.1 = some name
    · rw [member?_of_repeated hkey hagain, member?_of_repeated hkey hagain]
      exact .none
    · subst hkey
      have honly : ∀ m ∈ before ++ after, m.1 ≠ some name := fun m hm hname =>
        hagain ⟨m, hm, hname⟩
      rw [member?_of_only honly, member?_of_only honly]
      exact .some (.single h)
  · exact readAlike_of_eq (by rw [member?_insert hkey, member?_insert hkey])

theorem member?_restating (h : Restating (.object members) (.object members'))
    (hname : name ∈ fieldNames) : ReadAlike (member? members name) (member? members' name) := by
  generalize ha : Json.object members = a at h
  generalize hb : Json.object members' = b at h
  cases h with
  | exchange h =>
      cases h
      cases ha; cases hb
      exact readAlike_of_eq (member?_exchange ..)
  | unknown before after key value hkey =>
      cases ha; cases hb
      exact readAlike_of_eq (member?_insert fun heq => hkey (by cases heq; exact hname))
  | absent before after key honly =>
      cases ha; cases hb
      by_cases hkey : some key = some name
      · cases hkey
        rw [member?_of_only honly, member?_of_absent honly]
        exact .some (Relation.ReflGen.refl)
      · exact readAlike_of_eq (member?_insert hkey)
  | short => cases ha

theorem member?_alike (h : Within Restating (.object members) (.object members'))
    (hname : name ∈ fieldNames) : ReadAlike (member? members name) (member? members' name) := by
  generalize ha : Json.object members = a at h
  generalize hb : Json.object members' = b at h
  cases h with
  | here h => subst ha hb; exact member?_restating h hname
  | element => cases ha
  | member before after key h => cases ha; cases hb; exact member?_within h key name

/-- A change keeps the keys of an object readable. -/
theorem keys_alike (h : Within Restating (.object members) (.object members')) :
    members.all (·.1.isSome) = members'.all (·.1.isSome) := by
  generalize ha : Json.object members = a at h
  generalize hb : Json.object members' = b at h
  cases h with
  | here h =>
      cases h with
      | exchange h =>
          cases h
          cases ha; cases hb
          simp only [List.all_append, List.all_cons]
          ac_rfl
      | unknown => cases ha; cases hb; simp
      | absent => cases ha; cases hb; simp
      | short => cases ha
  | element => cases ha
  | member before after key h => cases ha; cases hb; simp

theorem mapM_alike {α : Type} {β γ : Type} {r : β → γ → Prop} {f : α → Option β} {g : α → Option γ} :
    ∀ {l : List α}, (∀ x ∈ l, Option.Rel r (f x) (g x)) →
      Option.Rel (List.Forall₂ r) (l.mapM f) (l.mapM g)
  | [], _ => .some .nil
  | x :: l, h => by
      have hrest := mapM_alike fun y hy => h y (List.mem_cons_of_mem x hy)
      have hx := h x List.mem_cons_self
      rw [List.mapM_cons, List.mapM_cons]
      generalize f x = fx at hx ⊢
      generalize g x = gx at hx ⊢
      generalize l.mapM f = fl at hrest ⊢
      generalize l.mapM g = gl at hrest ⊢
      cases hx with
      | none => exact .none
      | some hx =>
          cases hrest with
          | none => exact .none
          | some hrest => exact .some (.cons hx hrest)

theorem forall₂_fieldAlike_refl (values : List (Option Json)) :
    List.Forall₂ FieldAlike values values :=
  List.forall₂_same.mpr fun _ _ => Relation.ReflGen.refl

theorem fields?_array (elements : List Json) (h : elements.length ≤ names.length) :
    (Json.array elements).fields? names =
      some (elements.map some ++ List.replicate (names.length - elements.length) none) :=
  if_pos h

theorem fields?_array_of_long {elements : List Json} (h : names.length < elements.length) :
    (Json.array elements).fields? names = none :=
  if_neg (by omega)

theorem forall₂_element (h : Within Restating a b) (before after : List Json) :
    List.Forall₂ FieldAlike ((before ++ a :: after).map some) ((before ++ b :: after).map some) := by
  simp only [List.map_append, List.map_cons]
  exact List.rel_append (forall₂_fieldAlike_refl _) (.cons (.single h) (forall₂_fieldAlike_refl _))

theorem fields?_append_null (elements : List Json) (h : elements.length < names.length) :
    Option.Rel (List.Forall₂ FieldAlike) ((Json.array (elements ++ [.null])).fields? names)
      ((Json.array elements).fields? names) := by
  rw [fields?_array _ (by rw [List.length_append]; exact h), fields?_array _ (by omega)]
  obtain ⟨missing, hmissing⟩ : ∃ missing, names.length - elements.length = missing + 1 :=
    ⟨names.length - elements.length - 1, by omega⟩
  rw [List.length_append, List.length_singleton, ← Nat.sub_sub, hmissing, Nat.add_sub_cancel,
    List.map_append, List.replicate_succ, List.append_assoc]
  exact .some (List.rel_append (forall₂_fieldAlike_refl _)
    (.cons Relation.ReflGen.refl (forall₂_fieldAlike_refl _)))

/-- A change keeps the fields of a record alike. A value that is left out at the end of an array
was the fifth or the sixth, which only records of six fields have. -/
theorem fields?_alike (h : Within Restating a b) (hnames : names ⊆ fieldNames)
    (hlength : names.length < 4 ∨ 5 < names.length) :
    Option.Rel (List.Forall₂ FieldAlike) (a.fields? names) (b.fields? names) := by
  cases a with
  | object members =>
      obtain ⟨members', rfl⟩ : ∃ members', b = .object members' := by
        rcases h with (⟨⟨⟩⟩ | _ | _) | _ | _ <;> exact ⟨_, rfl⟩
      rw [fields?, fields?, keys_alike h]
      split
      · exact mapM_alike fun name hname => member?_alike h (hnames hname)
      · exact .none
  | array elements =>
      cases h with
      | here h =>
          cases h with
          | exchange h => cases h
          | short name type isPrimaryKey isNullable rest hrest =>
              rcases hlength with hfew | hmany
              · rw [fields?_array_of_long (by simp; omega), fields?_array_of_long (by simp; omega)]
                exact .none
              · exact fields?_append_null (name :: type :: .bool isPrimaryKey :: .bool isNullable :: rest)
                  (by simp; omega)
      | @element a b before after h =>
          have hlength : (before ++ b :: after).length = (before ++ a :: after).length := by simp
          by_cases hfits : (before ++ a :: after).length ≤ names.length
          · rw [fields?_array _ hfits, fields?_array _ (by omega), hlength]
            exact .some (List.rel_append (forall₂_element h before after)
              (forall₂_fieldAlike_refl _))
          · rw [fields?_array_of_long (by omega), fields?_array_of_long (by omega)]
            exact .none
  | _ => rcases h with (⟨⟨⟩⟩ | _ | _) | _ | _

theorem asString?_alike (h : Alike a b) : a.asString? = b.asString? := by
  rcases h with _ | ((⟨⟨⟩⟩ | _ | _) | _ | _) <;> rfl

theorem asBool?_alike (h : Alike a b) : a.asBool? = b.asBool? := by
  rcases h with _ | ((⟨⟨⟩⟩ | _ | _) | _ | _) <;> rfl

theorem asOptional?_alike {α : Type} {read? : Json → Option α}
    (hread : ∀ {a b}, Alike a b → read? a = read? b) (h : Alike a b) :
    a.asOptional? read? = b.asOptional? read? := by
  have hvalue := hread h
  rcases h with _ | ((⟨⟨⟩⟩ | _ | _) | _ | _) <;> simp only [asOptional?, hvalue]

theorem mapM_eq_none_of_mem {α β : Type} {f : α → Option β} {x : α} (hx : f x = none) :
    ∀ {l : List α}, x ∈ l → l.mapM f = none
  | y :: l, h => by
      rw [List.mapM_cons]
      rcases List.mem_cons.mp h with rfl | h
      · rw [hx]; rfl
      · rw [mapM_eq_none_of_mem hx h]; cases f y <;> rfl

/-- A list of records; none of them is a truth value. -/
theorem records_alike {α : Type} {read? : Json → Option α}
    (hread : ∀ {a b}, Alike a b → read? a = read? b) (hbool : ∀ v, read? (.bool v) = none)
    (h : Alike a b) :
    (a.asArray?.bind (·.mapM read?)) = (b.asArray?.bind (·.mapM read?)) := by
  rcases h with _ | ((⟨⟨⟩⟩ | _ | _ | ⟨name, type, isPrimaryKey, isNullable, rest⟩) | ⟨before, after, h⟩ | _)
  case refl => rfl
  case single.here.short =>
    simp only [asArray?, Option.bind_some]
    rw [mapM_eq_none_of_mem (hbool isPrimaryKey) (by simp),
      mapM_eq_none_of_mem (hbool isPrimaryKey) (by simp)]
  case single.element =>
    simp only [asArray?, Option.bind_some, List.mapM_append, List.mapM_cons, hread (.single h)]
  all_goals rfl

end Json
end SchemaDump
