import SchemaDump.Proofs.Pattern.WordAhead
import SchemaDump.Proofs.PostgreSQL.KeyLine
/- The texts of types and casts. A keyword that no type contains is not read in them, since what
ends it would have to end a word of the type as well. -/
namespace SchemaDump.PostgreSQL
open SqlPattern Pattern

variable {p q : SqlPattern} {word : String} {before : Option Char} {t u v : Text}

theorem Word.spells_eq_false {w : Word} {keywords : List String} (h : w.isOneOf keywords = false)
    (hword : word ∈ keywords) : spells sameLetter word.toList w.text = false := by
  rw [Word.isOneOf, List.any_eq_false] at h
  exact Bool.eq_false_iff.mpr (h word hword)

/-- The name of a table is not read as a keyword that something else has to follow. -/
theorem rejects_keyword_target (hword : ∀ c ∈ word.toList, c.isAlpha) (hne : word.toList ≠ [])
    (hq : EndsWord q) (hdot : ∀ v, q.Rejects ('.' :: v)) (target : Target) (hv : Stops isWordChar v)
    (h : q.Rejects v) : (keyword word ++ q).Rejects (target.text ++ v) := by
  rw [Target.text]
  cases target.qualified with
  | true =>
      have hschema := read?_keyword_seq_eq_none (w := "public".toList) hword hne hq (by decide)
        (v := '.' :: (target.name.text ++ v)) (stops_cons.mpr (by decide)) (.inr (hdot _))
      simpa only [if_true, List.append_assoc, List.cons_append, List.nil_append] using hschema
  | false =>
      rw [if_neg Bool.false_ne_true, List.nil_append]
      cases target.name with
      | bare table => exact read?_keyword_seq_eq_none hword hne hq table.chars hv (.inr h)
      | quoted text nonempty chars trimmed =>
          obtain ⟨letter, letters, hletters⟩ := List.exists_cons_of_ne_nil hne
          have halpha := hword letter (by rw [hletters]; exact List.mem_cons_self)
          have hquote : (keyword word : SqlPattern).Rejects ('"' :: (text ++ ['"'] ++ v)) :=
            .keyword hletters (stops_cons.mpr (sameLetter_eq_false halpha (by decide)))
          exact hquote.seq q

theorem TypeWord.rejects_keyword (w : TypeWord) (hword : word ∈ reservedWords) (hq : EndsWord q)
    (hv : Stops isWordChar v) : (keyword word ++ q).Rejects (w.text ++ v) := by
  have hletters : ∀ word ∈ reservedWords, (∀ c ∈ word.toList, c.isAlpha) ∧ word.toList ≠ [] := by
    decide
  obtain ⟨halpha, hne⟩ := hletters word hword
  exact read?_keyword_seq_eq_none halpha hne hq w.chars hv
    (.inl (Word.spells_eq_false w.plain hword))

/-- The characters that stand behind the words of a type. -/
def extentMarks : Text := ['(', ',', ')', '[', ']']

namespace Extent

theorem mem_numberText {numbers : Option (Digits × Option Digits)} {c : Char}
    (h : c ∈ numberText numbers) : c.isDigit ∨ c ∈ extentMarks := by
  have hmark : ∀ {d}, d ∈ extentMarks → c = d → c.isDigit ∨ c ∈ extentMarks := by
    rintro d hd rfl
    exact .inr hd
  match numbers, h with
  | some (length, .none), h =>
      simp only [numberText, List.mem_cons, List.mem_append, List.not_mem_nil, or_false] at h
      rcases h with h | h | h
      · exact hmark (by decide) h
      · exact .inl (length.chars c h)
      · exact hmark (by decide) h
  | some (precision, some scale), h =>
      simp only [numberText, List.mem_cons, List.mem_append, List.not_mem_nil, or_false] at h
      rcases h with h | h | h | h | h
      · exact hmark (by decide) h
      · exact .inl (precision.chars c h)
      · exact hmark (by decide) h
      · exact .inl (scale.chars c h)
      · exact hmark (by decide) h

theorem mem_dimensionText {n : Nat} {c : Char} (h : c ∈ dimensionText n) : c = '[' ∨ c = ']' := by
  induction n with
  | zero => cases h
  | succ n ih =>
      rcases List.mem_cons.mp h with h | h
      · exact .inl h
      · rcases List.mem_cons.mp h with h | h
        · exact .inr h
        · exact ih h

theorem mem_text {e : Extent} {c : Char} (h : c ∈ e.text) : c.isDigit ∨ c ∈ extentMarks := by
  rcases List.mem_append.mp h with h | h
  · exact mem_numberText h
  · rcases mem_dimensionText h with rfl | rfl
    · exact .inr (by decide)
    · exact .inr (by decide)

theorem isBlank_eq_false {e : Extent} {c : Char} (h : c ∈ e.text) : isBlank c = false := by
  have hmarks : ∀ c ∈ extentMarks, isBlank c = false := by decide
  rcases mem_text h with h | h
  · exact isBlank_eq_false_of_isWordChar (isWordChar_of_isDigit h)
  · exact hmarks c h

theorem stops (e : Extent) (hv : Stops isWordChar v) : Stops isWordChar (e.text ++ v) := by
  have hdimensions : ∀ n, Stops isWordChar (dimensionText n ++ v) := by
    intro n
    cases n with
    | zero => exact hv
    | succ n => exact stops_cons.mpr (by decide)
  rw [text, List.append_assoc]
  match e.numbers with
  | .none => exact hdimensions e.dimensions
  | some (length, .none) => exact stops_cons.mpr (by decide)
  | some (precision, some scale) => exact stops_cons.mpr (by decide)

end Extent

theorem unbroken_extent (e : Extent) : Unbroken e.text := by
  have hmarks : Unbroken extentMarks := by decide
  intro c hc
  rcases Extent.mem_text hc with h | h
  · exact unbroken_wordChar (isWordChar_of_isDigit h)
  · exact hmarks c h

theorem unbroken_type (type : ColumnType) : Unbroken type.text := by
  have hword : ∀ w : TypeWord × Extent, Unbroken (ColumnType.wordText w) :=
    fun w => (unbroken_word w.1.toWord).append (unbroken_extent w.2)
  exact (hword type.first).append (unbroken_flatMap (fun w => .cons (by decide) (hword w)) type.more)

theorem unbroken_cast (c : Cast) : Unbroken c.text :=
  .cons (by decide) (.cons (by decide) ((unbroken_type c.words).append (unbroken_extent c.extent)))

theorem endsSolid_word (w : Word) : EndsSolid w.text := endsSolid_of_forall fun c hc =>
  ⟨isBlank_eq_false_of_isWordChar (w.chars c hc), ne_of_isWordChar (by decide) (w.chars c hc)⟩

theorem endsSolid_extent (e : Extent) : EndsSolid e.text := by
  have hclose : ∀ u : Text, EndsSolid (u ++ [')']) := fun u => EndsSolid.behind (by decide) (by decide) u
  have hnumbers : EndsSolid (Extent.numberText e.numbers) := by
    match e.numbers with
    | .none => decide
    | some (length, .none) => exact hclose ('(' :: length.text)
    | some (precision, some scale) =>
        have h := hclose ('(' :: (precision.text ++ ',' :: scale.text))
        simpa [Extent.numberText] using h
  have hdimensions : EndsSolid (Extent.dimensionText e.dimensions) := by
    apply endsSolid_of_forall
    intro c hc
    rcases Extent.mem_dimensionText hc with rfl | rfl <;> decide
  exact hnumbers.append hdimensions

theorem endsSolid_type (type : ColumnType) : EndsSolid type.text := by
  have hword : ∀ w : TypeWord × Extent, EndsSolid (ColumnType.wordText w) :=
    fun w => (endsSolid_word w.1.toWord).append (endsSolid_extent w.2)
  have hmore : ∀ w : TypeWord × Extent, EndsSolid (' ' :: ColumnType.wordText w) := fun w =>
    (hword w).behind (List.append_ne_nil_of_left_ne_nil w.1.nonempty _) [' ']
  exact (hword type.first).append (endsSolid_flatMap hmore type.more)

theorem trimmed_type (type : ColumnType) : Trimmed type.text := by
  refine (endsSolid_type type).trimmed ?_
  have hstops := type.first.1.stops (fun _ => isBlank_eq_false_of_isWordChar)
  simp only [ColumnType.text, ColumnType.wordText, List.append_assoc]
  exact hstops _

theorem endsSolid_cast (c : Cast) : EndsSolid c.text := by
  have h := (endsSolid_type c.words).append (endsSolid_extent c.extent)
  exact h.behind (List.append_ne_nil_of_left_ne_nil (List.append_ne_nil_of_left_ne_nil
    (List.append_ne_nil_of_left_ne_nil c.first.nonempty _) _) _) [':', ':']

/-- A pattern that is not read in a type, where `Starts` and `Follows` tell what stands in front
of its words and behind them. -/
structure SilentInTypes (p : SqlPattern) (Starts : Option Char → Prop) (Follows : Text → Prop) :
    Prop where
  startsBlank : Starts (some ' ')
  startsColon : Starts (some ':')
  word : ∀ (w : TypeWord) before v, Starts before → Follows v → p.Silent before w.text v
  extent : ∀ (e : Extent) before v, Follows v → p.Silent before e.text v
  blank : ∀ (w : TypeWord) v, Follows v → p.Rejects (' ' :: (w.text ++ v))
  colon : ∀ v, p.Rejects (':' :: v)
  followsExtent : ∀ (e : Extent) v, Follows v → Follows (e.text ++ v)
  followsWord : ∀ (w : TypeWord) v, Follows v → Follows (' ' :: (w.text ++ v))
  followsColon : ∀ v, Follows (':' :: v)

namespace SilentInTypes

variable {Starts : Option Char → Prop} {Follows : Text → Prop}

theorem wordText (h : SilentInTypes p Starts Follows) (w : TypeWord × Extent)
    (hbefore : Starts before) (hv : Follows v) :
    p.Silent before (ColumnType.wordText w) v :=
  (h.word w.1 before _ hbefore (h.followsExtent w.2 v hv)).append (h.extent w.2 _ v hv)

theorem follows_more (h : SilentInTypes p Starts Follows) (more : List (TypeWord × Extent))
    (hv : Follows v) : Follows (more.flatMap (fun w => ' ' :: ColumnType.wordText w) ++ v) := by
  induction more with
  | nil => exact hv
  | cons w more ih =>
      simp only [List.flatMap_cons, ColumnType.wordText, List.cons_append, List.append_assoc]
      exact h.followsWord w.1 _ (h.followsExtent w.2 _ ih)

theorem more (h : SilentInTypes p Starts Follows) (more : List (TypeWord × Extent)) (before : Option Char)
    (hv : Follows v) :
    p.Silent before (more.flatMap fun w => ' ' :: ColumnType.wordText w) v := by
  induction more generalizing before with
  | nil => exact silent_nil v
  | cons w more ih =>
      have hfollows := h.follows_more more hv
      have hblank : p.read? before (' ' :: ((ColumnType.wordText w ++
          more.flatMap fun w => ' ' :: ColumnType.wordText w) ++ v)) = none := by
        rw [ColumnType.wordText, List.append_assoc, List.append_assoc]
        exact h.blank w.1 _ (h.followsExtent w.2 _ hfollows) before
      have hword := h.wordText w h.startsBlank hfollows
      exact silent_cons.mpr ⟨hblank, hword.append (ih _)⟩

theorem type (h : SilentInTypes p Starts Follows) (type : ColumnType)
    (hbefore : Starts before) (hv : Follows v) :
    p.Silent before type.text v :=
  (h.wordText type.first hbefore (h.follows_more type.more hv)).append (h.more type.more _ hv)

theorem follows_casts (h : SilentInTypes p Starts Follows) (casts : List Cast) (hv : Follows v) :
    Follows (casts.flatMap (·.text) ++ v) := by
  cases casts with
  | nil => exact hv
  | cons c casts => exact h.followsColon _

theorem casts (h : SilentInTypes p Starts Follows) (casts : List Cast) (before : Option Char)
    (hv : Follows v) : p.Silent before (casts.flatMap (·.text)) v := by
  induction casts generalizing before with
  | nil => exact silent_nil v
  | cons c casts ih =>
      have hfollows := h.follows_casts casts hv
      have hmarks : p.Silent before [':', ':']
          ((c.words.text ++ c.extent.text) ++ (casts.flatMap (·.text) ++ v)) :=
        silent_cons.mpr ⟨h.colon _ _, silent_cons.mpr ⟨h.colon _ _, silent_nil _⟩⟩
      have hwords : p.Silent (some ':') c.words.text
          (c.extent.text ++ (casts.flatMap (·.text) ++ v)) :=
        h.type c.words h.startsColon (h.followsExtent c.extent _ hfollows)
      have hcast := hmarks.append (hwords.append (h.extent c.extent _ _ hfollows))
      rw [List.flatMap_cons]
      exact hcast.append (ih _)

/-- A pattern that opens with words that no type contains is not read in a type. -/
theorem of_opensWith {words : List String} {Ends : Text → Prop} (h : OpensWith words Ends p)
    (hwords : ∀ word ∈ words, word ∈ reservedWords) :
    SilentInTypes p (fun _ => True) (Stops isWordChar) :=
  have hreserved : Lettered reservedWords := by decide
  have hletters : Lettered words := fun word hword => hreserved word (hwords word hword)
  have hplain : ∀ w : TypeWord, ∀ word ∈ words, spells sameLetter word.toList w.text = false :=
    fun w word hword => Word.spells_eq_false w.plain (hwords word hword)
  { startsBlank := trivial
    startsColon := trivial
    word := fun w _ _ _ hv => h.silent_word w.chars hv (.inl (hplain w))
    extent := fun e _ _ _ => h.silent_marks hletters fun c hc =>
      ⟨Extent.isBlank_eq_false hc, (Extent.mem_text hc).symm.imp_left fun hmark => by
        have hmarks : ∀ c ∈ extentMarks, isWordChar c = false := by decide
        exact hmarks c hmark⟩
    blank := fun w _ hv => h.rejects_blank_word w.chars w.nonempty hv (.inl (hplain w))
    colon := h.rejects_cons hletters (by decide) (.inl (by decide))
    followsExtent := fun e _ => e.stops
    followsWord := fun _ _ _ => stops_cons.mpr (by decide)
    followsColon := fun _ => stops_cons.mpr (by decide) }

end SilentInTypes

end SchemaDump.PostgreSQL
