import SchemaDump.Proofs.Pattern.Keyword
import SchemaDump.Proofs.PostgreSQL.QuotedName
import SchemaDump.Proofs.PostgreSQL.TypeText
/- Where statements open. A statement opens with two words that stand next to each other, so it is not
read where a name or a word is followed by something else than the second of these words. -/
namespace SchemaDump.PostgreSQL
open SqlPattern Pattern

variable {before : Option Char} {t u v w : Text}

/-- The two forms of statements. -/
inductive Form
  | creation
  | alteration

namespace Form

/-- The word that a statement of a form opens with. -/
def word : Form → String
  | creation => "CREATE"
  | alteration => "ALTER"

def rest : Form → SqlPattern
  | creation => maybe tableKind ++ (keyword "TABLE" ++ blanks)
  | alteration => keyword "TABLE" ++ blanks

def opening (f : Form) : SqlPattern := keyword f.word ++ (blanks ++ f.rest)

/-- A pattern that is read only where a statement of a form opens. -/
structure Heads (f : Form) (p : SqlPattern) : Prop where
  opening : ∀ before t, f.opening.read? before t = none → p.read? before t = none

/-- A pattern that reads statements of a form. -/
structure Opens (f : Form) (p : SqlPattern) : Prop extends Heads f p where
  name : Moves Inside (fun _ => False) p

/-- The text behind a word does not make it the opening of a statement. -/
structure Apart (f : Form) (v : Text) : Prop where
  stops : Stops isWordChar v
  rejects : (blanks ++ f.rest).Rejects v

theorem letters (f : Form) : ∀ c ∈ f.word.toList, c.isAlpha := by
  cases f <;> decide

theorem starts_opening (f : Form) {c : Char} (hc : isWordChar c = false ∨ c.isDigit) :
    f.opening.starts c = false := by
  have hnull : (keyword f.word : SqlPattern).nullable = false := by cases f <;> rfl
  rw [Form.opening, append_eq_seq, starts, hnull, Bool.false_and, Bool.or_false]
  rcases hc with hc | hc
  · exact starts_keyword_eq_false f.letters hc
  · exact starts_keyword_digit f.letters hc

variable {f : Form} {p : SqlPattern}

/-- The words that may stand behind the first one. -/
def nextWords : List String := ["TABLE", "UNLOGGED", "TEMPORARY", "TEMP"]

theorem rejects_rest (h : ∀ next ∈ nextWords, (keyword next : SqlPattern).Rejects t) :
    f.rest.Rejects t := by
  have htable : (keyword "TABLE" ++ blanks : SqlPattern).Rejects t := (h "TABLE" (by decide)).seq _
  cases f with
  | alteration => exact htable
  | creation =>
      have hkind : tableKind.Rejects t := Rejects.seq ((h "UNLOGGED" (by decide)).alt
        ((h "TEMPORARY" (by decide)).alt (h "TEMP" (by decide)))) blanks
      exact hkind.missing htable

theorem rejects_rest_cons {c : Char} (hc : isWordChar c = false) (v : Text) :
    f.rest.Rejects (c :: v) := by
  have hnext : ∀ next ∈ nextWords, (keyword next : SqlPattern).nullable = false ∧
      ∀ d ∈ next.toList, d.isAlpha := by
    decide
  exact rejects_rest fun next h =>
    .of_starts (hnext next h).1 (stops_cons.mpr (starts_keyword_eq_false (hnext next h).2 hc))

theorem apart_cons {c : Char} (hblank : isBlank c = false) (hword : isWordChar c = false)
    (v : Text) : f.Apart (c :: v) :=
  ⟨stops_cons.mpr hword, rejects_blanks (stops_cons.mpr hblank)⟩

theorem apart_blanks {g : Text} (hg : ∀ c ∈ g, isBlank c) (hne : g ≠ []) (hstops : Stops isBlank v)
    (hv : f.rest.Rejects v) : f.Apart (g ++ v) := by
  refine ⟨?_, rejects_blanks_run hg hstops
    (fun _ hc => rejects_rest_cons (isWordChar_eq_false_of_isBlank hc)) hv⟩
  obtain ⟨c, g, rfl⟩ := List.exists_cons_of_ne_nil hne
  exact stops_cons.mpr (isWordChar_eq_false_of_isBlank (hg c List.mem_cons_self))

theorem apart_word {word : String} (hword : word ∈ ["PRIMARY", "FOREIGN", "ADD", "NOT", "REFERENCES",
    "DEFAULT"]) {g : Text} (hg : ∀ c ∈ g, isBlank c) (hne : g ≠ []) (v : Text) :
    f.Apart (g ++ (word.toList ++ v)) := by
  have hclash : ∀ word ∈ ["PRIMARY", "FOREIGN", "ADD", "NOT", "REFERENCES", "DEFAULT"],
      word.toList ≠ [] ∧ Stops isBlank word.toList ∧
        ∀ next ∈ nextWords, clashes next.toList word.toList := by decide
  obtain ⟨hword, hblank, hnext⟩ := hclash word hword
  exact apart_blanks hg hne (stops_append hword hblank v)
    (rejects_rest fun next h => .of_clash (hnext next h) v)

theorem apart_mark {g : Text} (hg : ∀ c ∈ g, isBlank c) (hne : g ≠ []) {c : Char}
    (hblank : isBlank c = false) (hword : isWordChar c = false) (v : Text) : f.Apart (g ++ c :: v) :=
  apart_blanks hg hne (stops_cons.mpr hblank) (rejects_rest_cons hword v)

namespace Heads

theorem silent_of_opening (h : f.Heads p) (ho : f.opening.Silent before u v) : p.Silent before u v := by
  rw [silent_iff] at ho ⊢
  intro x y hu hy
  exact h.opening _ _ (ho x y hu hy)

theorem rejects_cons (h : f.Heads p) {c : Char} (hc : isWordChar c = false ∨ c.isDigit) (v : Text) :
    p.Rejects (c :: v) := by
  intro before
  apply h.opening
  have hnull : f.opening.nullable = false := by cases f <;> rfl
  exact read?_eq_none_of_starts hnull (stops_cons.mpr (f.starts_opening hc))

theorem silent_marks (h : f.Heads p) (hu : ∀ c ∈ u, isWordChar c = false ∨ c.isDigit) :
    p.Silent before u v := by
  rw [silent_iff]
  intro x y hxy hy
  obtain ⟨c, rest, rfl⟩ := List.exists_cons_of_ne_nil hy
  exact h.rejects_cons (hu c (by rw [hxy]; simp)) _ _

theorem silent_fixed (h : f.Heads p) (hu : hasSpelling f.word u = false)
    (hseam : Stops isWordChar v ∨ ∀ c ∈ u.getLast?, isWordChar c = false) : p.Silent before u v :=
  h.silent_of_opening (silent_keyword f.letters hu hseam).seq

theorem silent_word (h : f.Heads p) (hw : ∀ c ∈ w, isWordChar c) (hv : f.Apart v) :
    p.Silent before w v := by
  apply h.silent_of_opening
  rw [silent_iff]
  intro x y hxy _
  rw [Form.opening, read?_seq_eq_none]
  intro a ha
  obtain ⟨-, hspells, htext⟩ := mem_readings_keyword.mp ha
  have hchars := isWordChar_of_spells f.letters hspells
  rcases exists_append_of_length htext with ⟨z, hy, hrest⟩ | ⟨c, z, hread, hv'⟩
  · rw [hrest]
    cases z with
    | nil => exact hv.rejects _
    | cons c z =>
        have hc : isWordChar c := hw c (by rw [hxy, hy]; simp)
        exact rejects_blanks (stops_cons.mpr (isBlank_eq_false_of_isWordChar hc)) _
  · have hstop := hv.stops
    rw [hv', stops_cons, hchars c (by simp [hread])] at hstop
    cases hstop

theorem silent_of_name (h : f.Heads p) (target : Target)
    (hname : ∀ before, p.Silent before target.name.text v) : p.Silent before target.text v := by
  rw [Target.text]
  cases target.qualified with
  | false => exact hname before
  | true =>
      have hschema : hasSpelling f.word ("public".toList ++ ['.']) = false := by
        cases f <;> decide
      exact (h.silent_fixed (u := "public".toList ++ ['.']) hschema (.inr (by decide))).append (hname _)

end Heads

namespace Opens

theorem silent_quotedName (h : f.Opens p) {text : Text} (chars : ∀ c ∈ text, isWordChar c ∨ c = ' ')
    (trimmed : Trimmed text) : p.Silent before ('"' :: (text ++ ['"'])) v := by
  have hquote : ∀ before w, p.Silent before ['"'] w := fun before w => h.silent_marks (by decide)
  have htext : ∀ before, p.Silent before text ('"' :: v) := by
    intro before
    rw [silent_iff]
    intro x y hxy hy
    have hall : NameEnd (x ++ y) := ⟨hxy ▸ chars, hxy ▸ trimmed.2⟩
    exact h.name.rejects ⟨hall.suffix, hy⟩ v _
  exact (hquote before (text ++ ['"'] ++ v)).append (w := text ++ ['"'])
    (Silent.append (by simpa using htext _) (hquote _ v))

theorem silent_name (h : f.Opens p) (n : Name) (hv : f.Apart v) : p.Silent before n.text v := by
  cases n with
  | bare word => exact h.silent_word word.chars hv
  | quoted text _ chars trimmed => exact h.silent_quotedName chars trimmed

theorem silent_target (h : f.Opens p) (target : Target) (hv : f.Apart v) :
    p.Silent before target.text v :=
  h.silent_of_name target fun _ => h.silent_name target.name hv

theorem silent_nameList (h : f.Opens p) (spaced : Bool) (names : List Name) (v : Text) :
    p.Silent before (KeyClause.nameList spaced names) (')' :: v) := by
  have hmark : ∀ c v, isBlank c = false ∧ isWordChar c = false → f.Apart (c :: v) :=
    fun c v hc => apart_cons hc.1 hc.2 v
  rw [KeyClause.nameList]
  induction names generalizing before with
  | nil => exact silent_nil _
  | cons n names ih =>
      cases names with
      | nil => exact h.silent_name n (hmark ')' v (by decide))
      | cons next names =>
          have hseparator : ∀ c ∈ ',' :: (if spaced then [' '] else []),
              isWordChar c = false ∨ c.isDigit := by
            cases spaced <;> decide
          exact (h.silent_name n (hmark ',' _ (by decide))).append
            ((h.silent_marks hseparator).append ih)

theorem silent_namedText (h : f.Opens p) (name : Option Name) (hv : f.Apart (' ' :: v)) :
    p.Silent before (namedText (name.map (·.text))) v := by
  cases name with
  | none => exact silent_nil _
  | some n =>
      have hblank : ∀ before v, p.Silent before [' '] v := fun before v => h.silent_marks (by decide)
      have hkeyword : hasSpelling f.word "CONSTRAINT".toList = false := by
        cases f <;> decide
      have hfirst : p.Silent before "CONSTRAINT".toList (' ' :: (n.text ++ [' ']) ++ v) :=
        h.silent_fixed hkeyword (.inl (stops_cons.mpr (by decide)))
      have hname : ∀ before, p.Silent before (n.text ++ [' ']) v :=
        fun before => (h.silent_name n hv).append (hblank _ v)
      exact hfirst.append ((hblank _ (n.text ++ [' '] ++ v)).append (hname _))

theorem apart_spacedWords {word next : String} (hword : word ∈ ["PRIMARY", "FOREIGN", "ADD", "NOT",
    "REFERENCES", "DEFAULT"]) (u v : Text) : f.Apart (' ' :: ((spacedWords [word, next] ++ u) ++ v)) := by
  have h := apart_word (f := f) hword (g := [' ']) (by decide) (by decide) (' ' :: next.toList ++ u ++ v)
  simpa only [spacedWords, List.append_assoc, List.cons_append, List.nil_append] using h

/-- The words of a key with the list of its columns. -/
theorem silent_keyList (h : f.Opens p) {words : List String}
    (hwords : words = ["PRIMARY", "KEY"] ∨ words = ["FOREIGN", "KEY"]) (spaced : Bool)
    (columns : List Name) (v : Text) :
    p.Silent before (spacedWords words ++ ' ' :: '(' :: (KeyClause.nameList spaced columns ++ [')'])) v := by
  have hfixed : hasSpelling f.word (spacedWords words) = false := by
    rcases hwords with rfl | rfl <;> cases f <;> decide
  have hclose : ∀ before, p.Silent before [')'] v := fun before => h.silent_marks (by decide)
  have hopen : ∀ before w, p.Silent before [' ', '('] w := fun before w => h.silent_marks (by decide)
  have hlist : ∀ before, p.Silent before (KeyClause.nameList spaced columns ++ [')']) v := fun before =>
    (h.silent_nameList spaced columns v).append (hclose _)
  exact (h.silent_fixed hfixed (.inl (stops_cons.mpr (by decide)))).append
    ((hopen _ (KeyClause.nameList spaced columns ++ [')'] ++ v)).append (hlist _))

/-- The table that a key refers to, with the list of its columns. -/
def referenceText (table : Target) (space spaced : Bool) (references : List Name) : Text :=
  ' ' :: ("REFERENCES".toList ++ ' ' :: (table.text ++ (KeyClause.spaceText space ++
    '(' :: (KeyClause.nameList spaced references ++ [')']))))

theorem silent_referenceText (h : f.Opens p) (table : Target) (space spaced : Bool)
    (references : List Name) (v : Text) :
    p.Silent before (referenceText table space spaced references) v := by
  have hmarks : ∀ {before w} {u : Text}, (∀ c ∈ u, isWordChar c = false ∨ c.isDigit) →
      p.Silent before u w := fun hu => h.silent_marks hu
  have hfixed : hasSpelling f.word "REFERENCES".toList = false := by
    cases f <;> decide
  have hlist : ∀ before, p.Silent before ('(' :: (KeyClause.nameList spaced references ++ [')'])) v :=
    fun before => (hmarks (u := ['(']) (w := KeyClause.nameList spaced references ++ [')'] ++ v)
      (by decide)).append ((h.silent_nameList spaced references v).append (hmarks (by decide)))
  have htable : ∀ before, p.Silent before table.text
      (KeyClause.spaceText space ++ '(' :: (KeyClause.nameList spaced references ++ [')']) ++ v) := by
    intro before
    apply h.silent_target
    cases space with
    | false => exact apart_cons (by decide) (by decide) _
    | true => exact apart_mark (g := [' ']) (by decide) (by decide) (by decide) (by decide) _
  have hspace : ∀ before w, p.Silent before (KeyClause.spaceText space) w := by
    intro before w
    cases space
    · exact silent_nil _
    · exact hmarks (by decide)
  have hrest : ∀ before, p.Silent before (table.text ++ (KeyClause.spaceText space ++
      '(' :: (KeyClause.nameList spaced references ++ [')']))) v :=
    fun before => (htable before).append ((hspace _ _).append (hlist _))
  have hkeyword : ∀ before w, p.Silent before ("REFERENCES".toList ++ [' ']) w := fun before w =>
    (h.silent_fixed hfixed (.inl (stops_cons.mpr (by decide)))).append (hmarks (by decide))
  have hfirst : ∀ w, p.Silent before [' '] w := fun w => hmarks (by decide)
  have hall := (hfirst (("REFERENCES".toList ++ [' ']) ++ (table.text ++ (KeyClause.spaceText space ++
    '(' :: (KeyClause.nameList spaced references ++ [')']))) ++ v)).append
      ((hkeyword _ _).append (hrest _))
  have hsplit : referenceText table space spaced references = [' '] ++ (("REFERENCES".toList ++ [' ']) ++
      (table.text ++ (KeyClause.spaceText space ++
        '(' :: (KeyClause.nameList spaced references ++ [')'])))) := by
    simp only [referenceText, List.append_assoc, List.cons_append, List.nil_append]
  rw [hsplit]
  exact hall

theorem silent_keyText (h : f.Opens p) (k : KeyClause) : p.Silent before k.keyText v := by
  rw [KeyClause.keyText]
  cases k.key with
  | primaryKey spaced columns _ =>
      have hname : ∀ u, f.Apart (' ' :: (spacedWords ["PRIMARY", "KEY"] ++ u ++ v)) :=
        fun u => apart_spacedWords (by decide) u v
      exact (h.silent_namedText k.constraintName (hname _)).append
        (h.silent_keyList (.inl rfl) spaced columns v)
  | foreignKey spaced columns _ table space references _ suffix =>
      have hname : ∀ u, f.Apart (' ' :: (spacedWords ["FOREIGN", "KEY"] ++ u ++ v)) :=
        fun u => apart_spacedWords (by decide) u v
      have hkey : ∀ before, p.Silent before ((spacedWords ["FOREIGN", "KEY"] ++ ' ' :: '(' ::
          (KeyClause.nameList spaced columns ++ [')'])) ++
            referenceText table space spaced references) v := fun before =>
        (h.silent_keyList (.inr rfl) spaced columns _).append
          (h.silent_referenceText table space spaced references v)
      have hopen := hname (' ' :: '(' :: (KeyClause.nameList spaced columns ++ [')']) ++
        referenceText table space spaced references)
      rw [← List.append_assoc (spacedWords ["FOREIGN", "KEY"])] at hopen
      have hnamed : p.Silent before (namedText (k.constraintName.map (·.text))) _ :=
        h.silent_namedText k.constraintName hopen
      have hall := hnamed.append (hkey _)
      have hsplit : foreignKeyText (k.constraintName.map (·.text)) (KeyClause.nameList spaced columns)
          table.text (KeyClause.spaceText space) (KeyClause.nameList spaced references) =
            namedText (k.constraintName.map (·.text)) ++ ((spacedWords ["FOREIGN", "KEY"] ++ ' ' :: '(' ::
              (KeyClause.nameList spaced columns ++ [')'])) ++
                referenceText table space spaced references) := by
        simp only [foreignKeyText, referenceText, List.append_assoc, List.cons_append, List.nil_append]
      rw [← hsplit] at hall
      exact hall

theorem silent_suffixText (h : f.Opens p) (k : KeyClause) (hv : Stops isWordChar v) :
    p.Silent before k.suffixText v := by
  rw [KeyClause.suffixText]
  cases k.key with
  | primaryKey => exact silent_nil _
  | foreignKey spaced columns _ table space references _ suffix =>
      refine h.silent_fixed ?_ (.inl hv)
      cases f with
      | creation => exact suffix.noCreate
      | alteration => exact suffix.noAlter

theorem silent_keyClause (h : f.Opens p) (k : KeyClause) (hv : Stops isWordChar v) :
    p.Silent before k.text v :=
  (h.silent_keyText k).append (h.silent_suffixText k hv)

end Opens

theorem opens_tableBlock : creation.Opens tableBlock := by
  refine ⟨⟨fun before t h => ?_⟩, moves_tableBlock⟩
  have hopening : (keyword "CREATE" ++ blanks ++ maybe tableKind ++ keyword "TABLE" ++ blanks :
      SqlPattern).read? before t = none := by
    rw [← h]
    simp only [read?_seq_assoc]
    rfl
  iterate 9 refine read?_seq_none ?_
  exact hopening

theorem opens_alterTable (h : Moves Inside (fun _ => False) (alterTable ++ p)) :
    alteration.Opens (alterTable ++ p) := by
  refine ⟨⟨fun before t h => read?_seq_none ?_⟩, h⟩
  have hopening : (phrase ["ALTER", "TABLE"] ++ blanks : SqlPattern).read? before t = none := by
    rw [← h]
    exact (read?_seq_assoc _ _ _ _ _).trans (read?_seq_assoc _ _ _ _ _)
  iterate 6 refine read?_seq_none ?_
  exact hopening

theorem opens_alterPrimaryKey : alteration.Opens alterPrimaryKey := opens_alterTable moves_alterPrimaryKey

theorem opens_alterForeignKey : alteration.Opens alterForeignKey := opens_alterTable moves_alterForeignKey

end Form

end SchemaDump.PostgreSQL
