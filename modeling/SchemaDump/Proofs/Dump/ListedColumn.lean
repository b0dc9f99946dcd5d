import SchemaDump.Proofs.Definition.ShallowText
import SchemaDump.Proofs.PostgreSQL.SpelledWord
/- Columns in the lists of keys. A list is cut at its commas and each item is read up to the end of its name, so
that it gives back the names that the columns have on lines of their own. -/
namespace SchemaDump
open SqlPattern Pattern
open PostgreSQL (Word Indent)

/-- The quote that a dialect puts around identifiers. -/
def Dialect.quote : Dialect → Char
  | .postgresql => '"'
  | .mysql => backQuote

/-- An identifier that means the same on a line of its own and in a list. A list is cut at every comma, even within
quotes, and on a line MySQL takes away all quotes and the blanks at the ends of a name. -/
inductive Identifier (d : Dialect)
  | bare (word : Word)
  | quoted (text : Text) (nonempty : text ≠ []) (closed : d.quote ∉ text)
      (plain : ∀ c ∈ text, c ≠ ',' ∧ c ≠ '(' ∧ c ≠ ')') (kept : d = .mysql → unquote text = text)

namespace Identifier

variable {d : Dialect} (n : Identifier d)

def content : Identifier d → Text
  | bare word => word.text
  | quoted text _ _ _ _ => text

def text : Identifier d → Text
  | bare word => word.text
  | quoted text _ _ _ _ => d.quote :: (text ++ [d.quote])

def string : String := .ofList n.content

theorem content_ne_nil : n.content ≠ [] := by
  cases n with
  | bare word => exact word.nonempty
  | quoted text nonempty _ _ _ => exact nonempty

theorem string_ne_empty : n.string ≠ "" := by
  intro h
  have hlist := congrArg String.toList h
  rw [string, String.toList_ofList] at hlist
  exact n.content_ne_nil hlist

theorem text_chars : ∀ c ∈ n.text, c ≠ ',' ∧ c ≠ '(' ∧ c ≠ ')' := by
  intro c hc
  cases n with
  | bare word =>
      have hword := word.chars c hc
      exact ⟨ne_of_isWordChar (by decide) hword, ne_of_isWordChar (by decide) hword,
        ne_of_isWordChar (by decide) hword⟩
  | quoted text _ _ plain _ =>
      have hquote : d.quote ≠ ',' ∧ d.quote ≠ '(' ∧ d.quote ≠ ')' := by cases d <;> decide
      rcases List.mem_cons.mp hc with rfl | hc
      · exact hquote
      rcases List.mem_append.mp hc with hc | hc
      · exact plain c hc
      · rwa [List.mem_singleton.mp hc]

theorem text_ne_nil : n.text ≠ [] := by
  cases n with
  | bare word => exact word.nonempty
  | quoted text _ _ _ _ => exact List.cons_ne_nil _ _

theorem quote_cases (d : Dialect) : d.quote = '"' ∨ d.quote = backQuote := by
  cases d with
  | postgresql => exact .inl rfl
  | mysql => exact .inr rfl

theorem itemName?_text {rest : Text} (hrest : ∀ word, n = .bare word → ∀ c ∈ rest.head?, isBlank c ∨ c = '(') :
    itemName? (n.text ++ rest) = some n.string := by
  cases n with
  | bare word => exact itemName?_bare word.chars word.nonempty (hrest word rfl)
  | quoted text nonempty closed plain kept =>
      have htext : (quoted text nonempty closed plain kept).text ++ rest =
          d.quote :: (text ++ d.quote :: rest) := by simp [Identifier.text]
      rw [htext]
      exact itemName?_quoted (quote_cases d) closed nonempty rest

end Identifier

/-- A name in the style of either dialect, whichever dialect the table is in: bare, in double quotes or in
back quotes. -/
structure WrittenName where
  style : Dialect
  name : Identifier style

def WrittenName.text (n : WrittenName) : Text := n.name.text

def WrittenName.string (n : WrittenName) : String := n.name.string

/-- A name in a list, and what may be said of it there, such as a length or an order. Only a bare name needs
to stand apart from it. -/
structure ListedName where
  indent : Indent
  name : WrittenName
  rest : Text
  apart : ∀ word, name.name = .bare word → ∀ c ∈ rest.head?, isBlank c ∨ c = '('
  single : ',' ∉ rest
  shallow : Shallow rest

namespace ListedName

variable (i : ListedName)

def text : Text := i.indent.text ++ (i.name.text ++ i.rest)

def string : String := i.name.string

def listText (items : List ListedName) : Text := commaJoin false (items.map text)

theorem itemName?_text : itemName? i.text = some i.string := by
  rw [text, itemName?_blanks i.indent.blank]
  exact i.name.name.itemName?_text i.apart

theorem comma_not_mem_text : ',' ∉ i.text := by
  intro hmem
  rcases List.mem_append.mp hmem with h | h
  · exact absurd (i.indent.blank _ h) (by decide)
  rcases List.mem_append.mp h with h | h
  · exact (i.name.name.text_chars _ h).1 rfl
  · exact i.single h

theorem shallow_text : Shallow i.text := by
  have hindent : Shallow i.indent.text := .of_forall fun c hc => by
    have hblank := i.indent.blank c hc
    exact ⟨by rintro rfl; exact absurd hblank (by decide), by rintro rfl; exact absurd hblank (by decide)⟩
  have hname : Shallow i.name.text := .of_forall fun c hc => (i.name.name.text_chars c hc).2
  exact hindent.append (hname.append i.shallow)

theorem close_not_mem_text (h : ')' ∉ i.rest) : ')' ∉ i.text := by
  intro hc
  rcases List.mem_append.mp hc with hc | hc
  · exact absurd (i.indent.blank _ hc) (by decide)
  rcases List.mem_append.mp hc with hc | hc
  · exact (i.name.name.text_chars _ hc).2.2 rfl
  · exact h hc

theorem text_ne_nil : i.text ≠ [] :=
  List.append_ne_nil_of_right_ne_nil _ (List.append_ne_nil_of_left_ne_nil i.name.name.text_ne_nil _)

variable {items : List ListedName}

theorem splitIdentifiers_listText (items : List ListedName) :
    splitIdentifiers (listText items) = items.map string :=
  splitIdentifiers_map false text string fun i _ => ⟨i.comma_not_mem_text, i.itemName?_text⟩

theorem shallow_listText (items : List ListedName) : Shallow (listText items) := by
  refine .commaJoin fun item hitem => ?_
  obtain ⟨i, -, rfl⟩ := List.mem_map.mp hitem
  exact i.shallow_text

theorem close_not_mem_listText (h : ∀ i ∈ items, ')' ∉ i.rest) : ∀ c ∈ listText items, c ≠ ')' := by
  rintro c hc rfl
  rcases mem_commaJoin hc with hc | hc | ⟨item, hitem, hc⟩
  · exact absurd hc (by decide)
  · exact absurd hc (by decide)
  obtain ⟨i, hi, rfl⟩ := List.mem_map.mp hitem
  exact i.close_not_mem_text (h i hi) hc

theorem listText_ne_nil (hne : items ≠ []) : listText items ≠ [] := by
  obtain ⟨i, items, rfl⟩ := List.exists_cons_of_ne_nil hne
  exact commaJoin_ne_nil i.text_ne_nil _

end ListedName

/-- A column in a list, and what may be said of it there, such as a length or an order. -/
structure ListedColumn (d : Dialect) where
  indent : Indent
  column : Identifier d
  rest : Text
  apart : ∀ c ∈ rest.head?, isBlank c ∨ c = '('
  single : ',' ∉ rest
  shallow : Shallow rest

namespace ListedColumn

variable {d : Dialect}

/-- A column of which nothing is said, behind blanks. -/
def plain (indent : Indent) (column : Identifier d) : ListedColumn d :=
  ⟨indent, column, [], nofun, List.not_mem_nil, .nil⟩

def text (i : ListedColumn d) : Text := i.indent.text ++ (i.column.text ++ i.rest)

def listText (items : List (ListedColumn d)) : Text := commaJoin false (items.map (·.text))

/-- The column as a name in a list. -/
def listed (i : ListedColumn d) : ListedName where
  indent := i.indent
  name := ⟨d, i.column⟩
  rest := i.rest
  apart := fun _ _ => i.apart
  single := i.single
  shallow := i.shallow

theorem listText_eq (items : List (ListedColumn d)) : listText items = ListedName.listText (items.map listed) := by
  rw [listText, ListedName.listText, List.map_map]
  rfl

theorem splitIdentifiers_listText (items : List (ListedColumn d)) :
    splitIdentifiers (listText items) = items.map (·.column.string) := by
  rw [listText_eq, ListedName.splitIdentifiers_listText, List.map_map]
  rfl

theorem shallow_listText (items : List (ListedColumn d)) : Shallow (listText items) := by
  rw [listText_eq]
  exact ListedName.shallow_listText _

theorem close_not_mem_listText {items : List (ListedColumn d)} (h : ∀ i ∈ items, ')' ∉ i.rest) :
    ∀ c ∈ listText items, c ≠ ')' := by
  rw [listText_eq]
  refine ListedName.close_not_mem_listText fun i hi => ?_
  obtain ⟨j, hj, rfl⟩ := List.mem_map.mp hi
  exact h j hj

theorem listText_ne_nil {items : List (ListedColumn d)} (hne : items ≠ []) : listText items ≠ [] := by
  rw [listText_eq]
  exact ListedName.listText_ne_nil (by simpa using hne)

end ListedColumn

end SchemaDump
