import SchemaDump.Proofs.MySQL.Rendering
import SchemaDump.Proofs.Pattern.Find
import SchemaDump.Proofs.Pattern.Keyword
import SchemaDump.Proofs.Pattern.Reads
/- Column lines with any literals in the default and in the comment. How such a line is read depends on them
in one way only: a default that ends with the opening of a comment takes the quote behind it for the one that
the comment starts with, so that a comment may not follow. -/
namespace SchemaDump.MySQL
open SqlPattern Pattern

/-- What may stand between quotes on a line. -/
structure Content where
  text : Text
  chars : ∀ c ∈ text, c ≠ '\'' ∧ c ≠ '\\' ∧ c ≠ '\n'

def Content.quoted (l : Content) : Text := '\'' :: (l.text ++ ['\''])

/-- What stands in front of the literal of a comment. -/
def commentOpening : SqlPattern := blanks ++ keyword "COMMENT" ++ blanks

/-- A default with any content. -/
inductive FreeDefault
  | literal (content : Content)
  | bare (token : Text) (nonempty : token ≠ [])
      (chars : ∀ c ∈ token, isWordChar c ∨ c = '.' ∨ c = '+' ∨ c = '-')

namespace FreeDefault

def text : FreeDefault → Text
  | literal content => content.quoted
  | bare token _ _ => token

def value : FreeDefault → Text
  | literal content => content.text
  | bare token _ _ => token

end FreeDefault

structure FreeLine where
  name : Name
  type : ColumnType
  notNull : Bool
  autoIncrement : Bool
  default : Option FreeDefault
  comment : Option Content
  settled : comment ≠ none → ∀ content, default = some (.literal content) →
    (commentOpening ++ textEnd).occursIn content.text = false

namespace FreeLine

def defaultText : Option FreeDefault → Text
  | some d => ' ' :: ("DEFAULT".toList ++ ' ' :: d.text)
  | none => []

def commentText : Option Content → Text
  | some l => ' ' :: ("COMMENT".toList ++ ' ' :: l.quoted)
  | none => []

def optionText (c : FreeLine) : Text :=
  ColumnLine.markText c.notNull c.autoIncrement ++ (defaultText c.default ++ commentText c.comment)

def text (c : FreeLine) : Text := c.name.quoted ++ ' ' :: (c.type.text ++ c.optionText)

def Holds (c : FreeLine) (l : Content) : Prop := c.default = some (.literal l) ∨ c.comment = some l

/-- The column that a line defines, as long as no key of the table takes it. -/
def column (c : FreeLine) : Column where
  name := c.name.string
  declaredType := .ofList c.type.text
  isNullable := !c.notNull
  defaultValue := c.default.map fun d => .ofList d.value

end FreeLine

variable {before : Option Char} {t : Text} {q : SqlPattern} {r : Match Part}

theorem mem_readings_commentOpening (h : r ∈ (commentOpening ++ q).readings before t) :
    ∃ g e w, t = g ++ (e ++ w) ∧ g ≠ [] ∧ (∀ c ∈ g, isBlank c) ∧
      spells sameLetter "COMMENT".toList e ∧ ¬(blanks ++ q).Rejects w := by
  rw [commentOpening, readings_seq_assoc, readings_seq_assoc] at h
  obtain ⟨a, ha, b, hb, -⟩ := mem_readings_seq.mp h
  obtain ⟨e, he, d, hd, -⟩ := mem_readings_seq.mp hb
  obtain ⟨hne, -, ht, hblank⟩ := mem_readings_run1 ha
  obtain ⟨-, hspells, hrest⟩ := mem_readings_keyword.mp he
  refine ⟨a.read, e.read, e.rest, by rw [ht, hrest], hne, hblank, hspells, ?_⟩
  intro hrejects
  exact List.ne_nil_of_mem hd (readings_eq_nil_iff.mpr (hrejects _))

theorem encloses_commentOpening (q : SqlPattern) : Encloses (commentOpening ++ q) isBlank "COMMENT" := by
  intro before t r hr
  obtain ⟨g, e, w, rfl, hne, hblank, hspells, htail⟩ := mem_readings_commentOpening hr
  cases g with
  | nil => exact absurd rfl hne
  | cons c g =>
      refine ⟨c, g, e, w, rfl, hblank c List.mem_cons_self,
        fun d hd => hblank d (List.mem_cons_of_mem c hd), hspells, ?_⟩
      intro d hd
      cases w with
      | nil => cases hd
      | cons k w =>
          obtain rfl := Option.some.inj hd
          cases hk : isWordChar k with
          | false => rfl
          | true =>
              exact absurd (rejects_blanks (stops_cons.mpr (isBlank_eq_false_of_isWordChar hk)))
                htail

theorem Literal.no_commentOpening (l : Literal) : (commentOpening ++ textEnd).occursIn l.text = false := by
  have hsilent : (commentOpening ++ textEnd : SqlPattern).Silent none l.text [] :=
    silent_of_hasWord (encloses_commentOpening textEnd) (by decide) (by decide)
      (fun c hc => isWordChar_eq_false_of_isBlank hc) l.noComment (.inl (stops_nil _)) (.inl (stops_nil _))
  exact occursIn_eq_false_of_silent (consumes_of_not_nullable rfl) hsilent

def Literal.content (l : Literal) : Content :=
  ⟨l.text, fun c hc => ⟨(l.chars c hc).1, (l.chars c hc).2.1, (l.chars c hc).2.2.2⟩⟩

def Default.free : Default → FreeDefault
  | literal content => .literal content.content
  | bare token nonempty chars => .bare token nonempty chars

namespace ColumnLine

variable (c : ColumnLine)

def free : FreeLine where
  name := c.name
  type := c.type
  notNull := c.notNull
  autoIncrement := c.autoIncrement
  default := c.default.map (·.free)
  comment := c.comment.map (·.content)
  settled := by
    intro _ content hcontent
    obtain ⟨d, -, hd⟩ := Option.map_eq_some_iff.mp hcontent
    cases d with
    | literal l => exact FreeDefault.literal.inj hd ▸ l.no_commentOpening
    | bare => cases hd

theorem free_optionText : c.free.optionText = c.optionText := by
  have hdefault : FreeLine.defaultText (c.default.map (·.free)) = defaultText c.default := by
    cases hd : c.default with
    | none => rfl
    | some d => cases d <;> rfl
  have hcomment : FreeLine.commentText (c.comment.map (·.content)) = commentText c.comment := by
    cases c.comment <;> rfl
  rw [FreeLine.optionText, optionText, ← hdefault, ← hcomment]
  rfl

theorem free_text : c.free.text = c.text := by
  rw [FreeLine.text, free_optionText, text]
  rfl

theorem exists_of_holds {l : Content} (h : c.free.Holds l) : ∃ literal : Literal, literal.content = l := by
  rcases h with h | h
  · obtain ⟨d, -, hd⟩ := Option.map_eq_some_iff.mp h
    cases d with
    | literal literal => exact ⟨literal, FreeDefault.literal.inj hd⟩
    | bare => cases hd
  · obtain ⟨literal, -, hl⟩ := Option.map_eq_some_iff.mp h
    exact ⟨literal, hl⟩

end ColumnLine

end SchemaDump.MySQL
