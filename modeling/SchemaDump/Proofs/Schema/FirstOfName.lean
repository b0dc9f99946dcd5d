import SchemaDump.Schema.Draft
/- Drafts find a table or column by the position at which its name was first used. A change made
in this way reaches the first bearer of a name and no other. -/
namespace SchemaDump

/-- No earlier element has the name at a position. -/
def IsFirst (names : List String) (position : Nat) : Prop :=
  ∀ earlier < position, names[earlier]? ≠ names[position]?

instance (names : List String) (position : Nat) : Decidable (IsFirst names position) :=
  inferInstanceAs (Decidable (∀ earlier < position, names[earlier]? ≠ names[position]?))

theorem isFirst_of_findIdx? {names : List String} {name : String} {position : Nat}
    (h : names.findIdx? (· = name) = some position) : IsFirst names position ∧ names[position]? = some name := by
  obtain ⟨hlt, hname, hearlier⟩ := List.findIdx?_eq_some_iff_getElem.mp h
  have hposition : names[position]? = some name := by
    rw [List.getElem?_eq_getElem hlt, of_decide_eq_true hname]
  refine ⟨fun earlier hless heq => ?_, hposition⟩
  obtain ⟨hrange, hother⟩ := List.getElem?_eq_some_iff.mp (heq.trans hposition)
  exact hearlier earlier hless (decide_eq_true hother)

theorem exists_findIdx?_of_mem {names : List String} {name : String} (h : name ∈ names) :
    ∃ position, names.findIdx? (· = name) = some position := by
  rw [← Option.isSome_iff_exists, List.findIdx?_isSome, List.any_eq_true]
  exact ⟨name, h, decide_eq_true rfl⟩

variable {α : Type} {key : α → String} {seen : List String} {name : String} {f g : α → α}
  {l : List α}

/-- Changes each element that is the first of its name and whose name was not seen before. -/
def mapFirst (key : α → String) (f : α → α) : (seen : List String) → List α → List α
  | _, [] => []
  | seen, a :: l =>
      (if key a ∈ seen then a else f a) :: mapFirst key f (key a :: seen) l

example : mapFirst id (· ++ "!") ["c"] ["a", "b", "a", "c"] = ["a!", "b!", "a", "c"] := by cbv

@[simp] theorem length_mapFirst : (mapFirst key f seen l).length = l.length := by
  induction l generalizing seen with
  | nil => rfl
  | cons a l ih => simp [mapFirst, ih]

theorem map_key_mapFirst (hf : ∀ a, key (f a) = key a) :
    (mapFirst key f seen l).map key = l.map key := by
  induction l generalizing seen with
  | nil => rfl
  | cons a l ih =>
      simp only [mapFirst, List.map_cons, ih]
      split
      · rfl
      · rw [hf]

theorem mapFirst_mapFirst (hg : ∀ a, key (g a) = key a) :
    mapFirst key f seen (mapFirst key g seen l) = mapFirst key (fun a => f (g a)) seen l := by
  induction l generalizing seen with
  | nil => rfl
  | cons a l ih =>
      by_cases h : key a ∈ seen
      · simp [mapFirst, h, ih]
      · simp [mapFirst, h, hg, ih]

theorem mapFirst_congr (h : ∀ a ∈ l, f a = g a) : mapFirst key f seen l = mapFirst key g seen l := by
  induction l generalizing seen with
  | nil => rfl
  | cons a l ih =>
      rw [mapFirst, mapFirst, h a List.mem_cons_self, ih fun b hb => h b (List.mem_cons_of_mem a hb)]

theorem mapFirst_id (h : ∀ a ∈ l, f a = a) : mapFirst key f seen l = l := by
  induction l generalizing seen with
  | nil => rfl
  | cons a l ih =>
      rw [mapFirst, h a List.mem_cons_self, ite_self, ih fun b hb => h b (List.mem_cons_of_mem a hb)]

theorem map_mapFirst {β : Type} {look : β → String} {view : α → β} {h : β → β}
    (hkey : ∀ a, look (view a) = key a) (hview : ∀ a, view (f a) = h (view a)) :
    (mapFirst key f seen l).map view = mapFirst look h seen (l.map view) := by
  induction l generalizing seen with
  | nil => rfl
  | cons a l ih =>
      rw [mapFirst, List.map_cons, List.map_cons, mapFirst, ih, hkey, apply_ite view, hview]

theorem forall_mem_mapFirst {P : α → Prop} (hl : ∀ a ∈ l, P a) (hf : ∀ a, P a → P (f a)) :
    ∀ a ∈ mapFirst key f seen l, P a := by
  induction l generalizing seen with
  | nil => exact hl
  | cons b l ih =>
      intro a ha
      rcases List.mem_cons.mp ha with rfl | ha
      · split
        · exact hl b List.mem_cons_self
        · exact hf b (hl b List.mem_cons_self)
      · exact ih (fun c hc => hl c (List.mem_cons_of_mem b hc)) a ha

theorem getElem?_mapFirst_of_first {position : Nat} {a : α} (ha : l[position]? = some a)
    (hseen : key a ∉ seen) (hfirst : IsFirst (l.map key) position) :
    (mapFirst key f seen l)[position]? = some (f a) := by
  induction l generalizing seen position with
  | nil => cases ha
  | cons b l ih =>
      cases position with
      | zero =>
          obtain rfl := Option.some.inj ha
          simp [mapFirst, hseen]
      | succ position =>
          rw [List.getElem?_cons_succ] at ha
          rw [mapFirst, List.getElem?_cons_succ]
          have hne : key b ≠ key a := by
            intro heq
            apply hfirst 0 (Nat.succ_pos position)
            simp [ha, heq]
          apply ih ha
          · intro hmem
            rcases List.mem_cons.mp hmem with heq | hmem
            · exact hne heq.symm
            · exact hseen hmem
          · intro earlier hlt
            have h := hfirst (earlier + 1) (Nat.succ_lt_succ hlt)
            simpa only [List.map_cons, List.getElem?_cons_succ] using h

theorem getElem?_mapFirst_of_seen {position : Nat} {a : α} (ha : l[position]? = some a)
    (hseen : key a ∈ seen) : (mapFirst key f seen l)[position]? = some a := by
  induction l generalizing seen position with
  | nil => cases ha
  | cons b l ih =>
      cases position with
      | zero =>
          obtain rfl := Option.some.inj ha
          simp [mapFirst, hseen]
      | succ position =>
          rw [List.getElem?_cons_succ] at ha
          exact ih ha (List.mem_cons_of_mem _ hseen)

theorem getElem?_mapFirst_of_not_first {position : Nat}
    (hfirst : ¬IsFirst (l.map key) position) :
    (mapFirst key f seen l)[position]? = l[position]? := by
  induction l generalizing seen position with
  | nil => rfl
  | cons b l ih =>
      cases position with
      | zero =>
          exact absurd (fun earlier hlt => absurd hlt (Nat.not_lt_zero earlier)) hfirst
      | succ position =>
          rw [mapFirst, List.getElem?_cons_succ, List.getElem?_cons_succ]
          by_cases hlater : IsFirst (l.map key) position
          · cases ha : l[position]? with
            | none => simpa using ha
            | some a =>
                -- only the head can bear the name already
                have hb : key b = key a := by
                  apply Classical.byContradiction
                  intro hne
                  apply hfirst
                  intro earlier hlt
                  cases earlier with
                  | zero => simpa [ha] using hne
                  | succ earlier =>
                      simpa only [List.map_cons, List.getElem?_cons_succ] using
                        hlater earlier (Nat.lt_of_succ_lt_succ hlt)
                exact getElem?_mapFirst_of_seen ha (by rw [hb]; exact List.mem_cons_self)
          · exact ih hlater

/-- Where no name is used twice, every element is the first of its name. -/
theorem mapFirst_of_nodup (hl : (l.map key).Nodup) : mapFirst key f [] l = l.map f := by
  have hgen : ∀ seen : List String, (∀ a ∈ l, key a ∉ seen) → mapFirst key f seen l = l.map f := by
    induction l with
    | nil => intros; rfl
    | cons a l ih =>
        intro seen hseen
        obtain ⟨ha, hl⟩ := List.nodup_cons.mp hl
        rw [mapFirst, if_neg (hseen a List.mem_cons_self), List.map_cons, ih hl]
        intro b hb hmem
        rcases List.mem_cons.mp hmem with heq | hmem
        · exact ha (heq ▸ List.mem_map.mpr ⟨b, hb, rfl⟩)
        · exact hseen b (List.mem_cons_of_mem a hb) hmem
  exact hgen [] fun _ _ => List.not_mem_nil

theorem mapFirst_eq_self_of_seen (change : α → α) (hname : name ∈ seen) :
    mapFirst key (fun a => if key a = name then change a else a) seen l = l := by
  induction l generalizing seen with
  | nil => rfl
  | cons a l ih =>
      rw [mapFirst, ih (List.mem_cons_of_mem _ hname)]
      by_cases ha : key a = name
      · rw [if_pos (ha ▸ hname)]
      · rw [if_neg ha, ite_self]

theorem mapFirst_eq_modify (change : α → α) (hname : name ∉ seen) :
    mapFirst key (fun a => if key a = name then change a else a) seen l =
      match (l.map key).findIdx? (· = name) with
      | some position => l.modify position change
      | none => l := by
  induction l generalizing seen with
  | nil => rfl
  | cons a l ih =>
      by_cases ha : key a = name
      · have hrest : mapFirst key (fun a => if key a = name then change a else a) (name :: seen) l = l :=
          mapFirst_eq_self_of_seen change List.mem_cons_self
        simp [mapFirst, hrest, ha, hname, List.findIdx?_cons]
      · have hnot : name ∉ key a :: seen := by
          intro hmem
          rcases List.mem_cons.mp hmem with heq | hmem
          · exact ha heq.symm
          · exact hname hmem
        have hrest := ih hnot
        simp only [mapFirst, ha, if_false, ite_self, hrest, List.map_cons, List.findIdx?_cons,
          decide_false, Bool.false_eq_true]
        cases (l.map key).findIdx? (· = name) <;> rfl

end SchemaDump
