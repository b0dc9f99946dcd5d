import SchemaDump.Proofs.Definition.Identifier
import SchemaDump.Proofs.Definition.ShallowText
import SchemaDump.Proofs.MySQL.OptionLine
/- Values of defaults. A value is read to its end if it is a literal in either quote, an expression whose parentheses
are paired and not nested twice, or a text without blanks and commas that starts like neither of them. So is an
expression that is nested deeper, as long as it is such a text itself. -/
namespace SchemaDump.MySQL
open SqlPattern Pattern

variable {t u v : Text}

/-- What may follow a part of a line: nothing, a comma, or a blank and a letter. -/
def EndsPart (t : Text) : Prop := t = [] ∨ (∃ u, t = ',' :: u) ∨ ∃ c u, t = ' ' :: c :: u ∧ c.isAlpha

theorem EndsPart.stops (h : EndsPart t) {accepts : Char → Bool} (hends : accepts ' ' = false ∧ accepts ',' = false) :
    Stops accepts t := by
  rcases h with rfl | ⟨u, rfl⟩ | ⟨c, u, rfl, -⟩
  · exact stops_nil accepts
  · exact stops_cons.mpr hends.2
  · exact stops_cons.mpr hends.1

inductive QuoteMark
  | single
  | double

def QuoteMark.char : QuoteMark → Char
  | single => '\''
  | double => '"'

/-- What may stand within quotes: a backslash takes the character behind it along, and a quote is written twice. -/
inductive LiteralText (quote : Char) : Text → Prop
  | nil : LiteralText quote []
  | char {c : Char} {t : Text} (hc : c ≠ quote ∧ c ≠ '\\') (ht : LiteralText quote t) : LiteralText quote (c :: t)
  | escape {c : Char} {t : Text} (hc : c ≠ '\n') (ht : LiteralText quote t) : LiteralText quote ('\\' :: c :: t)
  | doubled {t : Text} (ht : LiteralText quote t) : LiteralText quote (quote :: quote :: t)

def literalStep (quote : Char) : SqlPattern :=
  anyOf [one (noneOf [quote, '\\']), one (· == '\\') ++ one (· != '\n'),
    one (· == quote) ++ one (· == quote)]

namespace LiteralText

variable {mark : QuoteMark}

theorem of_forall {quote : Char} (h : ∀ c ∈ t, c ≠ quote ∧ c ≠ '\\') : LiteralText quote t := by
  induction t with
  | nil => exact .nil
  | cons c t ih => exact .char (h c List.mem_cons_self) (ih fun d hd => h d (List.mem_cons_of_mem c hd))

theorem rejects_step (hv : Stops (· == mark.char) v) : (literalStep mark.char).Rejects (mark.char :: v) := by
  have hclass : (one (noneOf [mark.char, '\\']) : SqlPattern).Rejects (mark.char :: v) :=
    .of_starts rfl (stops_cons.mpr (by cases mark <;> decide))
  have hescape : (one (· == '\\') : SqlPattern).Rejects (mark.char :: v) :=
    .of_starts rfl (stops_cons.mpr (by cases mark <;> decide))
  have hdouble : (one (· == mark.char) ++ one (· == mark.char) : SqlPattern).Rejects (mark.char :: v) :=
    .behind (u := [mark.char]) (fun before => readings_one (by simp) before v) (.of_starts rfl hv)
  exact hclass.alt ((hescape.seq _).alt hdouble)

theorem reads (h : LiteralText mark.char t) (hv : Stops (· == mark.char) v) :
    (literalText mark.char).Reads t (mark.char :: v) [] := by
  have hconsumes : (literalStep mark.char).Consumes := consumes_of_not_nullable rfl
  induction h with
  | nil => exact reads_rounds_none hconsumes (rejects_step hv)
  | @char c t hc _ ih =>
      have hstep : ∀ d ∈ [c], ∀ w, (literalStep mark.char).Reads [d] w [] := by
        intro d hd w
        obtain rfl := List.mem_singleton.mp hd
        exact (reads_one (by simp [noneOf, hc]) w).preferred _
      exact Reads.characters hconsumes hstep ih
  | @escape c t hc _ ih =>
      have hclass : (one (noneOf [mark.char, '\\']) : SqlPattern).Rejects (['\\', c] ++ (t ++ mark.char :: v)) :=
        .of_starts rfl (stops_cons.mpr (by cases mark <;> decide))
      have hslash : ∀ w, (one (· == '\\') : SqlPattern).Reads ['\\'] w [] := reads_one rfl
      have hother : ∀ w, (one (· != '\n') : SqlPattern).Reads [c] w [] := reads_one (bne_iff_ne.mpr hc)
      have hpair : (one (· == '\\') ++ one (· != '\n') : SqlPattern).Reads ['\\', c] (t ++ mark.char :: v) [] :=
        (hslash _).seq (hother _)
      exact Reads.round hconsumes (.other hclass (hpair.preferred _)) ih
  | @doubled t _ ih =>
      have hclass : (one (noneOf [mark.char, '\\']) : SqlPattern).Rejects
          ([mark.char, mark.char] ++ (t ++ mark.char :: v)) :=
        .of_starts rfl (stops_cons.mpr (by cases mark <;> decide))
      have hescape : (one (· == '\\') : SqlPattern).Rejects ([mark.char, mark.char] ++ (t ++ mark.char :: v)) :=
        .of_starts rfl (stops_cons.mpr (by cases mark <;> decide))
      have hquote : ∀ w, (one (· == mark.char) : SqlPattern).Reads [mark.char] w [] := reads_one (by simp)
      have hpair : (one (· == mark.char) ++ one (· == mark.char) : SqlPattern).Reads [mark.char, mark.char]
          (t ++ mark.char :: v) [] := (hquote _).seq (hquote _)
      exact Reads.round hconsumes (.other hclass (.other (hescape.seq _) hpair)) ih

theorem reads_within (h : LiteralText mark.char t) (hv : Stops (· == mark.char) v) :
    (within mark.char (literalText mark.char)).Reads (mark.char :: (t ++ [mark.char])) v [] :=
  SqlPattern.reads_within (h.reads hv)

end LiteralText

theorem Content.literalText (l : Content) : LiteralText QuoteMark.single.char l.text :=
  .of_forall fun c hc => ⟨(l.chars c hc).1, (l.chars c hc).2.1⟩

theorem reads_quoted (l : Content) (hv : Stops (· == '\'') v) :
    (within '\'' (literalText '\'')).Reads l.quoted v [] := l.literalText.reads_within hv

def defaultValue : SqlPattern :=
  anyOf [within '\'' (literalText '\''), within '"' (literalText '"'),
    literal "(" ++ shallowText ++ literal ")", run1 (fun c => !(isBlank c || c == ',')) .longest]

/-- The characters of a default that is no literal and no group. -/
def isDefaultChar (c : Char) : Bool := !(isBlank c || c == ',')

theorem isDefaultChar_iff {c : Char} : isDefaultChar c ↔ isBlank c = false ∧ c ≠ ',' := by simp [isDefaultChar]

/-- A default that is read to its end wherever it stands: a literal, an expression with groups that are not nested, an
expression without blanks and commas that is nested deeper, or a token. -/
inductive WholeDefault
  | literal (mark : QuoteMark) (content : Text) (closed : LiteralText mark.char content) (oneLine : '\n' ∉ content)
  | group (inner : Text) (shallow : Shallow inner) (oneLine : '\n' ∉ inner)
  | nested (outer inner rest : Text) (shallow : Shallow outer) (plain : ∀ c ∈ inner, c ≠ '(' ∧ c ≠ ')')
      (solid : ∀ c ∈ outer ++ '(' :: (inner ++ '(' :: rest), isDefaultChar c)
  | token (text : Text) (nonempty : text ≠ []) (opens : ∀ c ∈ text.head?, c ≠ '\'' ∧ c ≠ '"' ∧ c ≠ '(')
      (solid : ∀ c ∈ text, isDefaultChar c)

namespace WholeDefault

def text : WholeDefault → Text
  | literal mark content _ _ => mark.char :: (content ++ [mark.char])
  | group inner _ _ => '(' :: (inner ++ [')'])
  | nested outer inner rest _ _ _ => '(' :: (outer ++ '(' :: (inner ++ '(' :: rest))
  | token text _ _ _ => text

/-- What a default says: only the quotes of a literal do not count. -/
def value : WholeDefault → Text
  | literal _ content _ _ => content
  | d => d.text

theorem no_lineBreak (d : WholeDefault) : '\n' ∉ d.text := by
  cases d with
  | literal mark content closed oneLine =>
      have hmark : '\n' ≠ mark.char := by cases mark <;> decide
      simp only [text, List.mem_cons, List.mem_append, not_or]
      exact ⟨hmark, oneLine, hmark, List.not_mem_nil⟩
  | group inner shallow oneLine =>
      simp only [text, List.mem_cons, List.mem_append, not_or]
      exact ⟨by decide, oneLine, by decide, List.not_mem_nil⟩
  | nested outer inner rest shallow plain solid =>
      exact List.not_mem_cons_of_ne_of_not_mem (by decide) fun hmem => absurd (solid _ hmem) (by decide)
  | token text nonempty opens solid => exact fun hmem => absurd (solid _ hmem) (by decide)

end WholeDefault

/-- A text that is read as a default, and what it says. -/
structure IsDefault (t value : Text) : Prop where
  nonempty : t ≠ []
  stops : ∀ v, Stops isBlank (t ++ v)
  solid : EndsSolid t
  reads : ∀ {v}, EndsPart v → defaultValue.Reads t v []
  clean : DefaultValue.clean false t = value

theorem solid_of_isWordChar {c : Char} (h : isWordChar c) : isBlank c = false ∧ c ≠ ',' := by
  refine ⟨isBlank_eq_false_of_isWordChar h, ?_⟩
  rintro rfl
  exact absurd h (by decide)

theorem bareDefault_char {c : Char} (h : isWordChar c ∨ c = '.' ∨ c = '+' ∨ c = '-') :
    c ≠ '\'' ∧ c ≠ '"' ∧ c ≠ '(' ∧ c ≠ ',' ∧ isBlank c = false := by
  rcases h with h | rfl | rfl | rfl
  · refine ⟨?_, ?_, ?_, ?_, isBlank_eq_false_of_isWordChar h⟩
    all_goals
      rintro rfl
      exact absurd h (by decide)
  all_goals decide

theorem endsSolid_quoted (l : Content) : EndsSolid l.quoted :=
  EndsSolid.behind (v := ['\'']) (by decide) (by decide) ('\'' :: l.text)

theorem reads_defaultValue_group (h : Shallow u) (v : Text) : defaultValue.Reads ('(' :: (u ++ [')'])) v [] :=
  .other (.of_starts rfl (stops_cons.mpr (by decide)))
    (.other (.of_starts rfl (stops_cons.mpr (by decide))) ((h.reads_group v).preferred _))

/-- A default that opens neither a literal nor a group goes on to the next blank or comma. -/
theorem reads_defaultValue_run {c : Char} (hc : c ≠ '\'' ∧ c ≠ '"')
    (hgroup : (literal "(" ++ shallowText ++ literal ")" : SqlPattern).Rejects (c :: t ++ v))
    (hsolid : ∀ d ∈ c :: t, isDefaultChar d) (hv : Stops isDefaultChar v) : defaultValue.Reads (c :: t) v [] := by
  have hrun : (run1 isDefaultChar .longest : SqlPattern).Reads (c :: t) v [] :=
    reads_run1 (List.cons_ne_nil _ _) hsolid hv
  refine .other (.of_starts rfl (stops_cons.mpr ?_)) (.other (.of_starts rfl (stops_cons.mpr ?_)) (.other hgroup hrun))
  · simpa [within, append_eq_seq, starts, nullable] using hc.1
  · simpa [within, append_eq_seq, starts, nullable] using hc.2

theorem clean_of_no_quote {c : Char} (hc : c ≠ '\'' ∧ c ≠ '"') (hblank : isBlank c = false)
    (hlast : ∀ d ∈ (c :: t).getLast?, isBlank d = false) : DefaultValue.clean false (c :: t) = c :: t := by
  have htrim : Trimmed (c :: t) := ⟨fun d hd => Option.some.inj hd ▸ hblank, hlast⟩
  rw [DefaultValue.clean, htrim.trim_eq]
  simp [DefaultValue.unquoteLiteral, DefaultValue.between?, hc]

namespace IsDefault

theorem of_literal {mark : QuoteMark} (h : LiteralText mark.char t) :
    IsDefault (mark.char :: (t ++ [mark.char])) t where
  nonempty := List.cons_ne_nil _ _
  stops v := stops_cons.mpr (by cases mark <;> decide)
  solid := EndsSolid.behind (v := [mark.char]) (by cases mark <;> decide) (List.cons_ne_nil _ _) (mark.char :: t)
  reads hv := by
    have hread := h.reads_within (hv.stops (by cases mark <;> decide))
    cases mark with
    | single => exact hread.preferred _
    | double => exact .other (.of_starts rfl (stops_cons.mpr (by decide))) (hread.preferred _)
  clean := by
    have hblank : isBlank mark.char = false := by cases mark <;> decide
    have htrim : Trimmed (mark.char :: (t ++ [mark.char])) := by
      refine ⟨fun c hc => Option.some.inj hc ▸ hblank, fun c hc => ?_⟩
      rw [← List.cons_append, List.getLast?_concat] at hc
      exact Option.some.inj hc ▸ hblank
    rw [DefaultValue.clean, htrim.trim_eq]
    cases mark <;> simp [QuoteMark.char, DefaultValue.unquoteLiteral, DefaultValue.between?]

/-- A default that is read as a run of its characters. -/
theorem of_run (hne : t ≠ []) (hopens : ∀ c ∈ t.head?, c ≠ '\'' ∧ c ≠ '"') (hsolid : ∀ c ∈ t, isDefaultChar c)
    (hgroup : ∀ v, (literal "(" ++ shallowText ++ literal ")" : SqlPattern).Rejects (t ++ v)) : IsDefault t t := by
  obtain ⟨c, t, rfl⟩ := List.exists_cons_of_ne_nil hne
  have hblank := fun d hd => (isDefaultChar_iff.mp (hsolid d hd)).1
  exact
    { nonempty := hne
      stops := fun v => stops_cons.mpr (hblank c List.mem_cons_self)
      solid := endsSolid_of_forall fun d hd => isDefaultChar_iff.mp (hsolid d hd)
      reads := fun hv => reads_defaultValue_run (hopens c rfl) (hgroup _) hsolid (hv.stops (by decide))
      clean := clean_of_no_quote (hopens c rfl) (hblank c List.mem_cons_self) fun d hd =>
        hblank d (List.mem_of_getLast? hd) }

end IsDefault

theorem rejects_group_of_head (hne : t ≠ []) (hopens : ∀ c ∈ t.head?, c ≠ '(') (v : Text) :
    (literal "(" ++ shallowText ++ literal ")" : SqlPattern).Rejects (t ++ v) := by
  obtain ⟨c, t, rfl⟩ := List.exists_cons_of_ne_nil hne
  exact rejects_group fun _ _ _ h => hopens c rfl (List.cons.inj h).1

theorem WholeDefault.isDefault (d : WholeDefault) : IsDefault d.text d.value := by
  cases d with
  | literal mark content closed => exact .of_literal closed
  | group inner shallow =>
      have hclose : EndsSolid [')'] := by decide
      have hsolid : EndsSolid ('(' :: (inner ++ [')'])) := hclose.behind (by decide) ('(' :: inner)
      exact
        { nonempty := List.cons_ne_nil _ _
          stops := fun v => stops_cons.mpr (by decide)
          solid := hsolid
          reads := fun _ => reads_defaultValue_group shallow _
          clean := clean_of_no_quote (by decide) (by decide) fun c hc => (hsolid c hc).1 }
  | nested outer inner rest shallow plain solid =>
      refine .of_run (List.cons_ne_nil _ _) (fun c hc => Option.some.inj hc ▸ by decide)
        (List.forall_mem_cons.mpr ⟨by decide, solid⟩) fun v => rejects_group fun x y hx h => ?_
      refine shallow.ne_closes (v := rest ++ v) (y := y) plain hx ?_
      simpa [text] using h
  | token text nonempty opens solid =>
      exact .of_run nonempty (fun c hc => ⟨(opens c hc).1, (opens c hc).2.1⟩) solid
        (rejects_group_of_head nonempty fun c hc => (opens c hc).2.2)

theorem FreeDefault.isDefault (d : FreeDefault) : IsDefault d.text d.value := by
  cases d with
  | literal content => exact .of_literal content.literalText
  | bare token nonempty chars =>
      have hchars := fun c hc => bareDefault_char (chars c hc)
      have hhead := fun c (hc : c ∈ token.head?) => hchars c (List.mem_of_mem_head? hc)
      exact .of_run nonempty (fun c hc => ⟨(hhead c hc).1, (hhead c hc).2.1⟩)
        (fun c hc => isDefaultChar_iff.mpr ⟨(hchars c hc).2.2.2.2, (hchars c hc).2.2.2.1⟩)
        (rejects_group_of_head nonempty fun c hc => (hhead c hc).2.2.1)

end SchemaDump.MySQL
