import SchemaDump.Proofs.PostgreSQL.ColumnLine
/- Words of a statement as they may be spelled: keywords in any letter case, with any blanks between them. -/
namespace SchemaDump.PostgreSQL
open SqlPattern Pattern

variable {p q s : SqlPattern} {u v : Text} {word other : String} {ps : List (Part × Text)}

/-- A keyword in any letter case. -/
structure KeywordText (word : String) where
  text : Text
  spelled : spells sameLetter word.toList text

namespace KeywordText

def plain (word : String) : KeywordText word := ⟨word.toList, spells_self sameLetter_self _⟩

variable {word : String} (k : KeywordText word)

theorem reads (v : Text) : (keyword word : SqlPattern).Reads k.text v [] :=
  .of_single fun _ => readings_spelled k.spelled

theorem exists_head {letter : Char} {letters : Text} (hword : word.toList = letter :: letters) :
    ∃ c rest, k.text = c :: rest ∧ sameLetter letter c := by
  have hspelled := k.spelled
  rw [hword] at hspelled
  cases htext : k.text with
  | nil =>
      rw [htext] at hspelled
      cases hspelled
  | cons c rest =>
      rw [htext] at hspelled
      exact ⟨c, rest, rfl, (Bool.and_eq_true_iff.mp hspelled).1⟩

theorem text_ne_nil {letter : Char} {letters : Text} (hword : word.toList = letter :: letters) : k.text ≠ [] := by
  obtain ⟨c, rest, htext, -⟩ := k.exists_head hword
  rw [htext]
  exact List.cons_ne_nil c rest

/-- A keyword starts neither with a blank nor with the letter of another one. -/
theorem stops {letter : Char} {letters : Text} (hword : word.toList = letter :: letters)
    {accepts : Char → Bool} (h : ∀ c, sameLetter letter c → accepts c = false) (v : Text) :
    Stops accepts (k.text ++ v) := by
  obtain ⟨c, rest, htext, hc⟩ := k.exists_head hword
  rw [htext]
  exact stops_cons.mpr (h c hc)

theorem stops_blank {letter : Char} {letters : Text} (hword : word.toList = letter :: letters)
    (hletter : letter.isAlpha) (v : Text) : Stops isBlank (k.text ++ v) :=
  k.stops hword (fun _ h => isBlank_eq_false_of_isWordChar (isWordChar_of_sameLetter hletter h)) v

theorem stops_letter {letter other : Char} {letters : Text} (hword : word.toList = letter :: letters)
    (hletter : letter.isAlpha) (hother : other.isAlpha) (hne : letter.toLower ≠ other.toLower) (v : Text) :
    Stops (sameLetter other) (k.text ++ v) :=
  k.stops hword (fun _ h => sameLetter_eq_false_of_ne hletter hother hne h) v

theorem rejects {other : String} (hother : ∀ c ∈ other.toList, c.isAlpha) (hword : ∀ c ∈ word.toList, c.isAlpha)
    (hclash : clashes other.toList word.toList) (v : Text) :
    (keyword other : SqlPattern).Rejects (k.text ++ v) := by
  refine .of_clash ?_ v
  rw [clashes_spelled hother hword k.spelled]
  exact hclash

end KeywordText

def Indent.single : Indent := ⟨[' '], by decide⟩

/-- Blanks between two words. -/
structure Spacing extends Indent where
  nonempty : text ≠ []

namespace Spacing

def single : Spacing := ⟨.single, by decide⟩

variable (b : Spacing)

theorem stops {accepts : Char → Bool} (h : ∀ c, isBlank c → accepts c = false) (v : Text) :
    Stops accepts (b.text ++ v) := by
  obtain ⟨c, rest, htext⟩ := List.exists_cons_of_ne_nil b.nonempty
  rw [htext]
  exact stops_cons.mpr (h c (b.blank c (by rw [htext]; exact List.mem_cons_self)))

theorem blankAhead (v : Text) : BlankAhead (b.text ++ v) := by
  intro hstop
  obtain ⟨c, rest, htext⟩ := List.exists_cons_of_ne_nil b.nonempty
  have hblank := b.blank c (by rw [htext]; exact List.mem_cons_self)
  rw [htext, List.cons_append, stops_cons, hblank] at hstop
  cases hstop

theorem reads (hv : Stops isBlank v) : (blanks : SqlPattern).Reads b.text v [] :=
  reads_run1 b.nonempty b.blank hv

end Spacing

theorem Indent.reads (i : Indent) (hv : Stops isBlank v) : (gap : SqlPattern).Reads i.text v [] :=
  reads_run i.blank hv

theorem Indent.stops (i : Indent) {accepts : Char → Bool} (h : ∀ c, isBlank c → accepts c = false)
    (hv : Stops accepts v) : Stops accepts (i.text ++ v) := by
  cases htext : i.text with
  | nil => exact hv
  | cons c rest => exact stops_cons.mpr (h c (i.blank c (htext ▸ List.mem_cons_self)))

theorem Indent.trim_append (i : Indent) (t : Text) : Text.trim (i.text ++ t) = t.trim := by
  rw [Text.trim, Text.trimStart, List.dropWhile_append_of_pos i.blank]
  rfl

/-- A keyword with the blanks behind it. -/
structure SpacedWord (word : String) where
  keyword : KeywordText word
  behind : Spacing

namespace SpacedWord

def plain (word : String) : SpacedWord word := ⟨.plain word, .single⟩

variable (k : SpacedWord word)

def text : Text := k.keyword.text ++ k.behind.text

theorem reads_seq (hv : Stops isBlank (u ++ v)) (h : q.Reads u v ps) :
    (Pattern.keyword word ++ (blanks ++ q)).Reads (k.text ++ u) v ps := by
  have hall := (k.keyword.reads _).seq ((k.behind.reads hv).seq h)
  rw [text, List.append_assoc]
  simpa only [List.append_nil] using hall

theorem reads_phrase {words : List String} (hv : Stops isBlank (u ++ v))
    (h : (phrase (other :: words) ++ q).Reads u v ps) :
    (phrase (word :: other :: words) ++ q).Reads (k.text ++ u) v ps := by
  have hphrase : (phrase (word :: other :: words) : SqlPattern) =
      Pattern.keyword word ++ blanks ++ phrase (other :: words) := rfl
  rw [hphrase, reads_assoc, reads_assoc]
  exact k.reads_seq hv h

theorem stops_blank {letter : Char} {letters : Text} (hword : word.toList = letter :: letters)
    (hletter : letter.isAlpha) (v : Text) : Stops isBlank (k.text ++ v) := by
  rw [text, List.append_assoc]
  exact k.keyword.stops_blank hword hletter _

theorem chars (hword : ∀ c ∈ word.toList, c.isAlpha) : ∀ c ∈ k.keyword.text, isWordChar c :=
  isWordChar_of_spells hword k.keyword.spelled

theorem rejects_other (hword : ∀ c ∈ word.toList, c.isAlpha) (hother : ∀ c ∈ other.toList, c.isAlpha)
    (hne : other.toList ≠ []) (hlength : other.toList.length ≠ word.toList.length) (q : SqlPattern) (v : Text) :
    (Pattern.keyword other ++ (blanks ++ q)).Rejects (k.text ++ v) := by
  rw [text, List.append_assoc]
  refine read?_keyword_seq_eq_none hother hne (endsWord_blanks.seq q) (k.chars hword)
    (k.behind.blankAhead v).stopsWord (.inl ?_)
  rw [Bool.eq_false_iff]
  intro hspells
  exact hlength ((spells_length hspells).symm.trans (spells_length k.keyword.spelled))

end SpacedWord

end SchemaDump.PostgreSQL
