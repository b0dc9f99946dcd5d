import SchemaDump.Definition.Identifier
import SchemaDump.Proofs.Definition.Split
import SchemaDump.Proofs.Text.CharClass
/- Lists of identifiers. The names in a list are those at the starts of its items. -/
namespace SchemaDump

/-- Items of a list with commas between them, which a blank may follow. -/
def commaJoin (spaced : Bool) : List Text → Text
  | [] => []
  | [item] => item
  | item :: items => item ++ ',' :: ((if spaced then [' '] else []) ++ commaJoin spaced items)

/-- The name at the start of an item, if there is one. -/
def itemName? (item : Text) : Option String :=
  match leadingIdentifier item.trim with
  | [] => none
  | c :: name => some (.ofList (c :: name))

theorem splitIdentifiers_eq (list : Text) :
    splitIdentifiers list = (list.splitAtChar ',').filterMap itemName? := rfl

theorem itemName?_blanks {blanks : Text} (h : ∀ c ∈ blanks, isBlank c) (item : Text) :
    itemName? (blanks ++ item) = itemName? item := by
  induction blanks with
  | nil => rfl
  | cons c blanks ih =>
      have htrim : Text.trim (c :: (blanks ++ item)) = Text.trim (blanks ++ item) := by
        rw [Text.trim, trimStart_cons_blank (h c List.mem_cons_self), Text.trim]
      rw [List.cons_append, itemName?, htrim, ← itemName?, ih fun d hd => h d (List.mem_cons_of_mem c hd)]

theorem splitIdentifiers_blank (t : Text) : splitIdentifiers (' ' :: t) = splitIdentifiers t := by
  obtain ⟨part, parts, hparts, hcons⟩ := splitAtChar_cons (d := ',') (c := ' ') (t := t) (by decide)
  have hitem : itemName? (' ' :: part) = itemName? part := @itemName?_blanks [' '] (by decide) part
  rw [splitIdentifiers_eq, splitIdentifiers_eq, hcons, hparts, List.filterMap_cons,
    List.filterMap_cons, hitem]

theorem splitIdentifiers_commaJoin (spaced : Bool) (items : List Text)
    (hcomma : ∀ item ∈ items, ',' ∉ item) :
    splitIdentifiers (commaJoin spaced items) = items.filterMap itemName? := by
  induction items with
  | nil => rfl
  | cons item items ih =>
      have hitem := hcomma item List.mem_cons_self
      cases items with
      | nil =>
          rw [commaJoin, splitIdentifiers_eq, splitAtChar_of_not_mem hitem]
      | cons next items =>
          have hrest := ih fun i hi => hcomma i (List.mem_cons_of_mem item hi)
          have hsplit : splitIdentifiers (commaJoin spaced (item :: next :: items)) =
              [item].filterMap itemName? ++ splitIdentifiers
                ((if spaced then [' '] else []) ++ commaJoin spaced (next :: items)) := by
            rw [commaJoin, splitIdentifiers_eq, splitAtChar_append, splitAtChar_of_not_mem hitem,
              splitIdentifiers_eq, List.filterMap_append]
            exact List.cons_ne_nil next items
          have hskip : splitIdentifiers
              ((if spaced then [' '] else []) ++ commaJoin spaced (next :: items)) =
                splitIdentifiers (commaJoin spaced (next :: items)) := by
            cases spaced with
            | false => rfl
            | true => exact splitIdentifiers_blank _
          rw [hsplit, hskip, hrest, ← List.filterMap_append, List.singleton_append]

/-- A quoted name, with or without something behind it. -/
theorem itemName?_quoted {quote : Char} {name : Text} (hquote : quote = '"' ∨ quote = backQuote)
    (hname : quote ∉ name) (hne : name ≠ []) (rest : Text) :
    itemName? (quote :: (name ++ quote :: rest)) = some (.ofList name) := by
  have hsolid : ∀ c ∈ some quote, isBlank c = false := by
    intro c hc
    rw [← Option.some.inj hc]
    rcases hquote with rfl | rfl <;> decide
  have htrimmed : Trimmed (quote :: (name ++ [quote])) :=
    ⟨hsolid, by rwa [← List.cons_append, List.getLast?_concat]⟩
  have htrim : Text.trim (quote :: (name ++ quote :: rest)) = quote :: (name ++ quote :: rest.trimEnd) := by
    simpa using htrimmed.trim_append (List.cons_ne_nil _ _) rest
  have htake : (name ++ quote :: rest.trimEnd).takeWhile (· != quote) = name := by
    rw [List.takeWhile_append_of_pos, List.takeWhile_cons_of_neg (by simp), List.append_nil]
    intro c hc
    exact bne_iff_ne.mpr fun h => hname (h ▸ hc)
  rw [itemName?, htrim, leadingIdentifier, if_pos (by simpa using hquote), htake]
  cases name with
  | nil => exact absurd rfl hne
  | cons c name => rfl

theorem trimmed_of_wordChars {name : Text} (hname : ∀ c ∈ name, isWordChar c) : Trimmed name :=
  ⟨fun c hc => isBlank_eq_false_of_isWordChar (hname c (List.mem_of_mem_head? hc)),
    fun c hc => isBlank_eq_false_of_isWordChar (hname c (List.mem_of_getLast? hc))⟩

/-- A bare name ends where a blank or a parenthesis follows. -/
theorem itemName?_bare {name rest : Text} (hname : ∀ c ∈ name, isWordChar c) (hne : name ≠ [])
    (hrest : ∀ c ∈ rest.head?, isBlank c ∨ c = '(') : itemName? (name ++ rest) = some (.ofList name) := by
  have hparen : isWordChar '(' = false := by decide
  have hdouble : isWordChar '"' = false := by decide
  have hback : isWordChar backQuote = false := by decide
  have hall : ∀ c ∈ name, (!(isBlank c || c == '(')) = true := by
    intro c hc
    have hne' : (c == '(') = false := by
      rw [beq_eq_false_iff_ne]
      rintro rfl
      rw [hname _ hc] at hparen
      cases hparen
    simp [isBlank_eq_false_of_isWordChar (hname c hc), hne']
  have htake : (name ++ rest.trimEnd).takeWhile (fun d => !(isBlank d || d == '(')) = name := by
    rw [List.takeWhile_append_of_pos hall]
    cases hend : rest.trimEnd with
    | nil => rw [List.takeWhile_nil, List.append_nil]
    | cons c u =>
        obtain ⟨v, hv⟩ := trimEnd_prefix rest
        have hc : isBlank c ∨ c = '(' := hrest c (by rw [← hv, hend]; rfl)
        rw [List.takeWhile_cons_of_neg (by rcases hc with hc | hc <;> simp [hc]), List.append_nil]
  rw [itemName?, (trimmed_of_wordChars hname).trim_append hne]
  cases name with
  | nil => exact absurd rfl hne
  | cons c name =>
      have hc := hname c List.mem_cons_self
      rw [List.cons_append, leadingIdentifier, if_neg, ← List.cons_append, htake]
      rw [Bool.or_eq_true, decide_eq_true_eq, decide_eq_true_eq]
      rintro (rfl | rfl)
      · rw [hc] at hdouble
        cases hdouble
      · rw [hc] at hback
        cases hback

theorem mem_commaJoin {spaced : Bool} {items : List Text} {c : Char} (h : c ∈ commaJoin spaced items) :
    c = ',' ∨ c = ' ' ∨ ∃ item ∈ items, c ∈ item := by
  induction items with
  | nil => cases h
  | cons item items ih =>
      cases items with
      | nil => exact .inr (.inr ⟨item, List.mem_singleton_self item, h⟩)
      | cons next items =>
          rcases List.mem_append.mp h with h | h
          · exact .inr (.inr ⟨item, List.mem_cons_self, h⟩)
          rcases List.mem_cons.mp h with rfl | h
          · exact .inl rfl
          rcases List.mem_append.mp h with h | h
          · cases spaced with
            | true => exact .inr (.inl (List.mem_singleton.mp h))
            | false => cases h
          rcases ih h with h | h | ⟨other, hother, h⟩
          · exact .inl h
          · exact .inr (.inl h)
          · exact .inr (.inr ⟨other, List.mem_cons_of_mem item hother, h⟩)

theorem commaJoin_ne_nil {spaced : Bool} {item : Text} (hitem : item ≠ []) (items : List Text) :
    commaJoin spaced (item :: items) ≠ [] := by
  cases items with
  | nil => exact hitem
  | cons next items => exact List.append_ne_nil_of_left_ne_nil hitem _

/-- Names that are each read back from their item are read back from the list. -/
theorem splitIdentifiers_map {α : Type} (spaced : Bool) (text : α → Text) (name : α → String)
    {l : List α} (h : ∀ a ∈ l, ',' ∉ text a ∧ itemName? (text a) = some (name a)) :
    splitIdentifiers (commaJoin spaced (l.map text)) = l.map name := by
  have hcomma : ∀ item ∈ l.map text, ',' ∉ item := by
    intro item hitem
    obtain ⟨a, ha, rfl⟩ := List.mem_map.mp hitem
    exact (h a ha).1
  rw [splitIdentifiers_commaJoin spaced _ hcomma]
  induction l with
  | nil => rfl
  | cons a l ih =>
      rw [List.map_cons, List.filterMap_cons, (h a List.mem_cons_self).2, List.map_cons,
        ih (fun b hb => h b (List.mem_cons_of_mem a hb))
          fun item hitem => hcomma item (List.mem_cons_of_mem _ hitem)]

end SchemaDump
