import SchemaDump.Proofs.Definition.DistinctKinds
import SchemaDump.Proofs.Definition.Taking
import SchemaDump.Proofs.MySQL.ColumnDefinition
import SchemaDump.Proofs.MySQL.KeyLine
import SchemaDump.Proofs.PostgreSQL.DeclaredKey
/- The marks among attributes. Where neither a comment nor a default is left, the attributes are a reference and
flags: words with blanks in front of them. The reference is taken off with its actions, and each flag is found
whatever stands around it. What stands behind a comma adds the marks that it holds itself. -/
namespace SchemaDump.MySQL
open SqlPattern Pattern
open PostgreSQL (KeywordText Spacing Indent NamePart reads_reference)

variable {before : Option Char} {p : SqlPattern} {t u v : Text} {marks : List (Bool × Attribute)} {k : AttributeKind}
  {words : List String} {Ends : Text → Prop}

/-- An option that says something about its column by its words alone. -/
def ColumnOption.isMark : ColumnOption → Bool
  | default _ => false
  | comment _ => false
  | _ => true

namespace Attribute

/-- An attribute that neither is a default nor a comment. -/
def isMark : Attribute → Bool
  | option o => o.isMark
  | default _ => false
  | _ => true

def isFlag : Attribute → Bool
  | references _ => false
  | a => a.isMark

/-- The words of a flag. -/
def flagWords : Attribute → List Text
  | option .notNull => ["NOT".toList, "NULL".toList]
  | option .primaryKey => ["PRIMARY".toList, "KEY".toList]
  | option .autoIncrement => ["AUTO_INCREMENT".toList]
  | null => ["NULL".toList]
  | collate word _ => ["COLLATE".toList, word.text]
  | _ => []

theorem isMark_iff {a : Attribute} : a.isMark ↔ a.kind ≠ .option .default ∧ a.kind ≠ .option .comment := by
  cases a with
  | option o => cases o <;> simp [isMark, ColumnOption.isMark, kind, ColumnOption.kind]
  | _ => simp [isMark, kind]

theorem isFlag_iff {a : Attribute} : a.isFlag ↔ a.isMark ∧ a.kind ≠ .references := by
  cases a with
  | option o => simp [isFlag, kind]
  | _ => simp [isFlag, isMark, kind]

theorem eq_primaryKey {a : Attribute} (h : a.kind = .option .primaryKey) : a = option .primaryKey := by
  cases a with
  | option o => cases o <;> first | rfl | cases h
  | _ => cases h

theorem eq_notNull {a : Attribute} (h : a.kind = .option .notNull) : a = option .notNull := by
  cases a with
  | option o => cases o <;> first | rfl | cases h
  | _ => cases h

theorem exists_eq_references {a : Attribute} (h : a.kind = .references) : ∃ r, a = references r := by
  cases a with
  | references r => exact ⟨r, rfl⟩
  | _ => cases h

theorem kind_of_reference? {a : Attribute} {r : ColumnReference} (h : a.reference? = some r) : a.kind = .references := by
  cases a <;> first | rfl | cases h

def fixedFlags : List Attribute := [option .notNull, option .primaryKey, option .autoIncrement, null]

theorem flag_cases {a : Attribute} (h : a.isFlag) : a ∈ fixedFlags ∨ ∃ word plain, a = collate word plain := by
  cases a with
  | option o =>
      cases o with
      | default => cases h
      | comment => cases h
      | _ => exact .inl (by simp [fixedFlags])
  | null => exact .inl (by simp [fixedFlags])
  | collate word plain => exact .inr ⟨word, plain, rfl⟩
  | references => cases h
  | default => cases h

theorem text_flagWords {a : Attribute} (h : a.isFlag) : a.text = a.flagWords.flatMap fun w => ' ' :: w := by
  have hfixed : ∀ a ∈ fixedFlags, a.text = a.flagWords.flatMap fun w => ' ' :: w := by decide
  rcases flag_cases h with h | ⟨word, plain, rfl⟩
  · exact hfixed a h
  · simp [text, flagWords]

theorem flagWords_ne_nil {a : Attribute} (h : a.isFlag) : a.flagWords ≠ [] := by
  have hfixed : ∀ a ∈ fixedFlags, a.flagWords ≠ [] := by decide
  rcases flag_cases h with h | ⟨word, plain, rfl⟩
  · exact hfixed a h
  · exact List.cons_ne_nil _ _

theorem flagWords_chars {a : Attribute} (h : a.isFlag) : ∀ w ∈ a.flagWords, w ≠ [] ∧ ∀ c ∈ w, isWordChar c := by
  have hfixed : ∀ a ∈ fixedFlags, ∀ w ∈ a.flagWords, w ≠ [] ∧ ∀ c ∈ w, isWordChar c := by decide
  rcases flag_cases h with h | ⟨word, plain, rfl⟩
  · exact hfixed a h
  · intro w hw
    rcases List.mem_cons.mp hw with rfl | hw
    · decide
    · obtain rfl := List.mem_singleton.mp hw
      exact ⟨word.nonempty, word.chars⟩

/-- The words that a pattern looks for are not those of the flags of other kinds. -/
theorem no_word {a : Attribute} (hplain : ∀ word ∈ words, word ∈ attributeWords)
    (hfixed : ∀ b ∈ fixedFlags, b.kind ≠ k →
      ∀ w ∈ b.flagWords, ∀ word ∈ words, spells sameLetter word.toList w = false)
    (hcollate : ∀ word ∈ words, spells sameLetter word.toList "COLLATE".toList = false)
    (h : a.isFlag) (hk : a.kind ≠ k) : ∀ w ∈ a.flagWords, ∀ word ∈ words, spells sameLetter word.toList w = false := by
  rcases flag_cases h with h | ⟨word, plain, rfl⟩
  · exact hfixed a h hk
  · intro w hw other hother
    rcases List.mem_cons.mp hw with rfl | hw
    · exact hcollate other hother
    · obtain rfl := List.mem_singleton.mp hw
      simpa using List.any_eq_false.mp plain other (hplain other hother)

end Attribute

/-- A mark, with one blank more in front of it if a default was cut out there. -/
def wideText (m : Bool × Attribute) : Text := (if m.1 then [' '] else []) ++ m.2.text

def wideTexts (marks : List (Bool × Attribute)) : Text := marks.flatMap wideText

theorem stops_wideTexts (hv : Stops isWordChar v) : Stops isWordChar (wideTexts marks ++ v) := by
  cases marks with
  | nil => exact hv
  | cons m marks =>
      obtain ⟨wide, a⟩ := m
      obtain ⟨d, u, htext, -⟩ := a.exists_text_eq
      cases wide <;> simp [wideTexts, wideText, htext, stops_cons, show isWordChar ' ' = false from by decide]

/-- The blank that a default leaves behind comes in front of the next mark, or of nothing. -/
theorem exists_wideTexts (front back : List Attribute) (wide : Bool) :
    ∃ marks tail, (∀ c ∈ tail, isBlank c) ∧ marks.map (·.2) = front ++ back ∧
      attributesText front ++ ((if wide then [' '] else []) ++ attributesText back) = wideTexts marks ++ tail := by
  have hplain : ∀ attributes : List Attribute, wideTexts (attributes.map (false, ·)) = attributesText attributes := by
    intro attributes
    rw [wideTexts, List.flatMap_map]
    rfl
  cases back with
  | nil =>
      refine ⟨front.map (false, ·), if wide then [' '] else [], by cases wide <;> decide, ?_, ?_⟩
      · simp [Function.comp_def]
      · rw [hplain]
        simp [attributesText]
  | cons a back =>
      refine ⟨front.map (false, ·) ++ (wide, a) :: back.map (false, ·), [], blank_nil, ?_, ?_⟩
      · simp [Function.comp_def]
      · have hback := hplain back
        have hfront := hplain front
        simp only [wideTexts] at hback hfront
        simp only [wideTexts, List.flatMap_append, List.flatMap_cons, hback, hfront, wideText, attributesText_cons,
          List.append_assoc, List.append_nil]

theorem silent_words (h : OpensWith words Ends p) {texts : List Text}
    (hchars : ∀ w ∈ texts, w ≠ [] ∧ ∀ c ∈ w, isWordChar c)
    (hno : ∀ w ∈ texts, ∀ word ∈ words, spells sameLetter word.toList w = false) (hv : Stops isWordChar v)
    (wide : Bool) (hwide : wide → texts ≠ []) :
    p.Silent before ((if wide then [' '] else []) ++ texts.flatMap fun w => ' ' :: w) v := by
  induction texts generalizing before wide with
  | nil =>
      cases wide with
      | false => exact silent_nil v
      | true => exact absurd rfl (hwide rfl)
  | cons w texts ih =>
      obtain ⟨⟨hne, hw⟩, hchars⟩ := List.forall_mem_cons.mp hchars
      obtain ⟨hnow, hno⟩ := List.forall_mem_cons.mp hno
      have hg : ∀ c ∈ (if wide then [' '] else []) ++ [' '], isBlank c := by cases wide <;> decide
      have hstops : Stops isWordChar ((texts.flatMap fun w => ' ' :: w) ++ v) := by
        cases texts with
        | nil => exact hv
        | cons => exact stops_cons.mpr (by decide)
      have hsplit : (if wide then [' '] else []) ++ (w :: texts).flatMap (fun w => ' ' :: w) =
          (((if wide then [' '] else []) ++ [' ']) ++ w) ++ texts.flatMap fun w => ' ' :: w := by simp
      rw [hsplit]
      exact (h.silent_blanks_word hg hw hne hstops (.inl hnow)).append (ih hchars hno false nofun)

theorem silent_flag (h : OpensWith words Ends p) {m : Bool × Attribute} (hm : m.2.isFlag)
    (hno : ∀ w ∈ m.2.flagWords, ∀ word ∈ words, spells sameLetter word.toList w = false) (hv : Stops isWordChar v) :
    p.Silent before (wideText m) v := by
  rw [wideText, m.2.text_flagWords hm]
  exact silent_words h (m.2.flagWords_chars hm) hno hv m.1 fun _ => m.2.flagWords_ne_nil hm

theorem silent_flags (h : ∀ m ∈ marks, ∀ before v, Stops isWordChar v → p.Silent before (wideText m) v)
    (hv : Stops isWordChar v) : p.Silent before (wideTexts marks) v := by
  induction marks generalizing before with
  | nil => exact silent_nil v
  | cons m marks ih =>
      obtain ⟨hm, hmarks⟩ := List.forall_mem_cons.mp h
      exact (hm _ _ (stops_wideTexts hv)).append (ih hmarks)

/-- A pattern that reads the flags of one kind and is silent in flags of other kinds. -/
structure FindsFlag (p : SqlPattern) (k : AttributeKind) : Prop where
  nullable : p.nullable = false
  comma : p.starts ',' = false
  silent : ∀ {m : Bool × Attribute}, m.2.isFlag → m.2.kind ≠ k →
    ∀ {before v}, Stops isWordChar v → p.Silent before (wideText m) v
  silentBlanks : ∀ {before t v}, (∀ c ∈ t, isBlank c) → IsTrail v → p.Silent before t v
  reads : ∀ {m : Bool × Attribute}, m.2.kind = k → ∀ {v}, Stops isWordChar v → p.Reads (wideText m) v []

theorem findsFlag_primaryKey : FindsFlag primaryKeyMarker (.option .primaryKey) where
  nullable := rfl
  comma := rfl
  silent hflag hkind _ _ hv := silent_flag opensWith_primaryKeyMarker hflag
    (Attribute.no_word (by decide) (by decide) (by decide) hflag hkind) hv
  silentBlanks ht hv := opensWith_primaryKeyMarker.silent_blanks (by decide) ht (hv.stops (by decide))
  reads {m} hkind _ hv := by
    obtain ⟨wide, a⟩ := m
    obtain rfl := Attribute.eq_primaryKey hkind
    cases wide with
    | false => exact reads_primaryKeyMarker (g := [' ']) (by decide) (by decide) hv
    | true => exact reads_primaryKeyMarker (g := [' ', ' ']) (by decide) (by decide) hv

theorem findsFlag_notNull : FindsFlag notNullMarker (.option .notNull) where
  nullable := rfl
  comma := rfl
  silent hflag hkind _ _ hv := silent_flag opensWith_notNullMarker hflag
    (Attribute.no_word (by decide) (by decide) (by decide) hflag hkind) hv
  silentBlanks ht hv := opensWith_notNullMarker.silent_blanks (by decide) ht (hv.stops (by decide))
  reads {m} hkind _ hv := by
    obtain ⟨wide, a⟩ := m
    obtain rfl := Attribute.eq_notNull hkind
    cases wide with
    | false => exact reads_notNullMarker (g := [' ']) (by decide) (by decide) hv
    | true => exact reads_notNullMarker (g := [' ', ' ']) (by decide) (by decide) hv

theorem balanced_wideTexts (h : ∀ m ∈ marks, m.2.isFlag) : Nesting.after (wideTexts marks) = .outermost := by
  refine foldl_next_of_plain (fun c hc => ?_) _
  obtain ⟨⟨wide, a⟩, hm, hc⟩ := List.mem_flatMap.mp hc
  have hplain : isBlank c ∨ isWordChar c := by
    have hflag : a.isFlag := h _ hm
    rw [wideText, a.text_flagWords hflag] at hc
    rcases List.mem_append.mp hc with hc | hc
    · have hblank : ∀ wide : Bool, ∀ c ∈ (if wide then [' '] else [] : Text), isBlank c := by decide
      exact .inl (hblank wide c hc)
    · obtain ⟨w, hw, hc⟩ := List.mem_flatMap.mp hc
      rcases List.mem_cons.mp hc with rfl | hc
      · exact .inl (by decide)
      · exact .inr ((a.flagWords_chars hflag w hw).2 c hc)
  refine ⟨?_, ?_, ?_⟩ <;>
  · rintro rfl
    revert hplain
    decide

theorem balanced_wideTexts_append (h : ∀ m ∈ marks, m.2.isFlag) (ht : ∀ c ∈ t, isBlank c) :
    Nesting.after (wideTexts marks ++ t) = .outermost := by
  have hmarks := balanced_wideTexts h
  rw [Nesting.after] at hmarks ⊢
  rw [List.foldl_append, hmarks]
  refine foldl_next_of_plain (fun c hc => ⟨?_, ?_, ?_⟩) _ <;>
  · rintro rfl
    exact absurd (ht _ hc) (by decide)

theorem FindsFlag.consumes (h : FindsFlag p k) : p.Consumes := consumes_of_not_nullable h.nullable

theorem FindsFlag.takes (h : FindsFlag p k) (hflags : ∀ m ∈ marks, m.2.isFlag) (hv : Stops isWordChar v) :
    p.Takes Nesting.isOutermost v .outermost before (wideTexts marks)
      (wideTexts (marks.filter fun m => m.2.kind ≠ k)) ((marks.map (·.2.kind)).contains k) := by
  induction marks generalizing before with
  | nil => exact .done
  | cons m marks ih =>
      obtain ⟨hflag, hflags⟩ := List.forall_mem_cons.mp hflags
      have hstops : Stops isWordChar (wideTexts marks ++ v) := stops_wideTexts hv
      have hlevel : (wideText m).foldl Nesting.next .outermost = .outermost := by
        have hsingle : Nesting.after (wideTexts [m]) = .outermost :=
          balanced_wideTexts fun n hn => List.mem_singleton.mp hn ▸ hflag
        rwa [wideTexts, List.flatMap_singleton] at hsingle
      have hrest : p.Takes Nesting.isOutermost v .outermost (lastOf before (wideText m)) (wideTexts marks)
          (wideTexts (marks.filter fun m => m.2.kind ≠ k)) ((marks.map (·.2.kind)).contains k) := ih hflags
      rw [← hlevel] at hrest
      have htext : ∀ marks, wideTexts (m :: marks) = wideText m ++ wideTexts marks := fun _ => List.flatMap_cons
      rw [htext, List.filter_cons, List.map_cons, List.contains_cons]
      by_cases hkind : m.2.kind = k
      · rw [if_neg (by simpa using hkind), hkind, BEq.rfl]
        exact (takes_of_reads rfl (h.reads hkind hstops)).append hrest
      · rw [if_pos (by simpa using hkind), htext, beq_eq_false_iff_ne.mpr (Ne.symm hkind)]
        exact (takes_of_silent (h.silent hflag hkind hstops)).append hrest

/-- The flags of a kind are taken off, and what is found behind them. -/
theorem FindsFlag.takeAll (h : FindsFlag p k) (hflags : ∀ m ∈ marks, m.2.isFlag) (ht : ∀ c ∈ t, isBlank c)
    (hv : IsTrail v) : IsTrail (Markers.takeAll p v).1 ∧ Markers.takeAll p (wideTexts marks ++ (t ++ v)) =
      (wideTexts (marks.filter fun m => m.2.kind ≠ k) ++ (t ++ (Markers.takeAll p v).1),
        (marks.map (·.2.kind)).contains k || (Markers.takeAll p v).2) := by
  have hstops : Stops isWordChar (t ++ v) := stops_blanks_append ht (hv.stops (by decide))
  have hblanks : p.Takes Nesting.isOutermost v ((wideTexts marks).foldl Nesting.next .outermost)
      (lastOf none (wideTexts marks)) t t false := takes_of_silent (h.silentBlanks ht hv)
  obtain ⟨hhead, htake⟩ := Markers.takeAll_append h.consumes (hv.rejects h.nullable h.comma)
    ((h.takes hflags hstops).append hblanks) (balanced_wideTexts_append hflags ht)
  rw [List.append_assoc, List.append_assoc, Bool.or_false] at htake
  exact ⟨fun c hc => hv c (hhead ▸ hc), htake⟩

theorem TargetName.isIdentifier (n : TargetName) : IsIdentifier n.text := by
  cases n with
  | quoted name => exact name.isIdentifier
  | bare word => exact isIdentifier_bare word.nonempty fun c hc => by simp [isBareChar, word.chars c hc]

theorem TargetName.splitIdentifiers_text (n : TargetName) (h : ',' ∉ n.text) :
    splitIdentifiers n.text = [.ofList n.content] := by
  have hitem : itemName? n.text = some (.ofList n.content) := by
    cases n with
    | quoted name => exact itemName?_quoted (.inr rfl) (fun hmem => (name.chars _ hmem).1 rfl) name.nonempty []
    | bare word =>
        have hname := @itemName?_bare word.text [] word.chars word.nonempty (by simp)
        rwa [List.append_nil] at hname
  exact splitIdentifiers_map false (fun n : TargetName => n.text) (fun n => .ofList n.content) (l := [n])
    fun a ha => List.mem_singleton.mp ha ▸ ⟨h, hitem⟩

namespace ColumnReference

variable (r : ColumnReference)

def inline : InlineReference := ⟨.ofList r.table.text, [.ofList r.column.content]⟩

def gap : PostgreSQL.Indent := ⟨if r.spaced then [' '] else [], by cases r.spaced <;> decide⟩

theorem front_eq : r.front = (KeywordText.plain "REFERENCES").text ++ (Spacing.single.text ++ (r.table.text ++
    (r.gap.text ++ '(' :: (r.column.text ++ [')'])))) := rfl

theorem reads_front (v : Text) :
    (keyword "REFERENCES" ++ (blanks ++ (part .table qualified ++ (Pattern.gap ++ (literal "(" ++
    (part .columns (run (· != ')') .longest) ++ literal ")"))))) : SqlPattern).Reads r.front v
      [(.columns, r.column.text), (.table, r.table.text)] := by
  have hlist : (run (· != ')') .longest : SqlPattern).Reads r.column.text (')' :: v) [] :=
    reads_run (fun c hc => bne_iff_ne.mpr (r.listed c hc).2) (stops_cons.mpr (by decide))
  rw [front_eq]
  exact reads_reference _ _ r.table.isIdentifier.isQualified r.gap (fun _ h => h.part Part.table)
    (hlist.part Part.columns)

theorem reads_wideText (wide : Bool) (hv : EndsReference v) :
    referenceMarker.Reads (wideText (wide, .references r)) v [(.columns, r.column.text), (.table, r.table.text)] := by
  obtain ⟨u, hu⟩ : ∃ u, r.front = 'R' :: u := ⟨_, rfl⟩
  have hg : ∀ c ∈ (if wide then [' '] else []) ++ [' '], isBlank c := by cases wide <;> decide
  have htext : wideText (wide, .references r) =
      (((if wide then [' '] else []) ++ [' ']) ++ r.front) ++ actionText r.actions := by
    simp only [wideText, Attribute.text, text, List.append_assoc, List.nil_append, List.cons_append]
  rw [htext, referenceMarker, reads_assoc]
  refine Reads.seq ?_ (reads_actionText r.actions hv)
  have hfront := r.reads_front (actionText r.actions ++ v)
  rw [hu] at hfront ⊢
  simp only [reads_assoc]
  exact reads_unnamed (List.append_ne_nil_of_right_ne_nil _ (List.cons_ne_nil ' ' [])) hg (by decide) (by decide) hfront

end ColumnReference

/-- What stands behind the reference ends it: blanks, and the words of a flag if there is one, or a comma. -/
theorem endsReference_wideTexts (ht : ∀ c ∈ t, isBlank c) (hv : IsTrail v) :
    EndsReference (wideTexts marks ++ (t ++ v)) := by
  cases marks with
  | nil =>
      have htrail : ∀ word ∈ ["MATCH", "ON"], (keyword word : SqlPattern).Rejects v := fun word hword =>
        have hword : ∀ word ∈ ["MATCH", "ON"],
            (keyword word : SqlPattern).nullable = false ∧ (keyword word : SqlPattern).starts ',' = false := by decide
        hv.rejects (hword word ‹_›).1 (hword word ‹_›).2
      have hends : EndsReference (t ++ v) := endsReference_of_blanks ht (hv.stops (by decide)) htrail
      exact hends
  | cons m marks =>
      obtain ⟨wide, a⟩ := m
      obtain ⟨d, u, htext, hd⟩ := a.exists_text_eq
      have hg : ∀ c ∈ (if wide then [' '] else []) ++ [' '], isBlank c := by cases wide <;> decide
      have hsolid : ∀ d ∈ optionLetters, isBlank d = false := by decide
      have hclash : ∀ d ∈ optionLetters, ∀ word ∈ ["MATCH", "ON"], clashes word.toList [d] := by decide
      have hends := endsReference_of_blanks (v := d :: (u ++ (wideTexts marks ++ (t ++ v)))) hg
        (stops_cons.mpr (hsolid d hd)) fun word hword => .of_clash (hclash d hd word hword) _
      simpa [wideTexts, wideText, htext] using hends

/-- Behind a reference no other one is looked for. -/
def referenceBehind (referred : Bool) (v : Text) : Text × Option InlineReference :=
  if referred then (v, none) else Markers.takeReference v

theorem silent_referenceMarker_flags (hflags : ∀ m ∈ marks, m.2.isFlag) (hv : Stops isWordChar v) :
    referenceMarker.Silent before (wideTexts marks) v :=
  silent_flags (fun m hm _ _ hv => silent_flag opensWith_referenceMarker (hflags m hm)
    (Attribute.no_word (k := .references) (by decide) (by decide) (by decide) (hflags m hm)
      (Attribute.isFlag_iff.mp (hflags m hm)).2) hv) hv

theorem takeReference_reference (hflags : ∀ m ∈ marks, m.2.isFlag) (wide : Bool) (r : ColumnReference)
    (hv : EndsReference v) :
    Markers.takeReference (wideTexts marks ++ (wideText (wide, .references r) ++ v)) =
      (wideTexts marks ++ v, some r.inline) := by
  have hstops : Stops isWordChar (wideText (wide, .references r) ++ v) := by
    cases wide <;> exact stops_cons.mpr (by decide)
  obtain ⟨o, os, htop, -, hbefore, hreading, -⟩ := topLevel_eq_cons (consumes_of_not_nullable rfl)
    (passes_of_silent (silent_referenceMarker_flags hflags hstops)) (r.reads_wideText wide hv _)
    (balanced_wideTexts hflags)
  have hafter : o.after = v := congrArg Match.rest hreading
  have hcolumns : o.part .columns = r.column.text := by
    rw [Occurrence.part_eq, hreading]
    rfl
  have htable : o.part .table = r.table.text := by
    rw [Occurrence.part_eq, hreading]
    rfl
  rw [Markers.takeReference, htop]
  simp only [hbefore, hafter, hcolumns, htable, r.column.splitIdentifiers_text fun hmem => (r.listed _ hmem).1 rfl]
  rfl

theorem takeReference_flags (hflags : ∀ m ∈ marks, m.2.isFlag) (ht : ∀ c ∈ t, isBlank c) (hv : IsTrail v) :
    IsTrail (Markers.takeReference v).1 ∧ Markers.takeReference (wideTexts marks ++ (t ++ v)) =
      (wideTexts marks ++ (t ++ (Markers.takeReference v).1), (Markers.takeReference v).2) := by
  have hsilent : referenceMarker.Silent none (wideTexts marks ++ t) v :=
    (silent_referenceMarker_flags hflags (stops_blanks_append ht (hv.stops (by decide)))).append
      (opensWith_referenceMarker.silent_blanks (by decide) ht (hv.stops (by decide)))
  obtain ⟨hhead, htake⟩ := Markers.takeReference_append (hv.rejects rfl rfl) (passes_of_silent hsilent)
    (balanced_wideTexts_append hflags ht)
  rw [List.append_assoc, List.append_assoc] at htake
  exact ⟨fun c hc => hv c (hhead ▸ hc), htake⟩

/-- The reference among marks is taken off, or the one that is found behind them. -/
theorem takeReference_marks (hsingle : (marks.map (·.2.kind)).count .references ≤ 1) (hmarks : ∀ m ∈ marks, m.2.isMark)
    (ht : ∀ c ∈ t, isBlank c) (hv : IsTrail v) :
    IsTrail (referenceBehind ((marks.map (·.2.kind)).contains .references) v).1 ∧
      Markers.takeReference (wideTexts marks ++ (t ++ v)) =
        (wideTexts (marks.filter fun m => m.2.kind ≠ .references) ++
            (t ++ (referenceBehind ((marks.map (·.2.kind)).contains .references) v).1),
          (marks.findSome? (·.2.reference?)).map (·.inline) <|>
            (referenceBehind ((marks.map (·.2.kind)).contains .references) v).2) := by
  have hreference : ∀ {m : Bool × Attribute} {r : ColumnReference}, m.2.reference? = some r →
      m.2.kind = .references := Attribute.kind_of_reference?
  by_cases hmem : .references ∈ marks.map (·.2.kind)
  · rw [List.contains_iff_mem.mpr hmem]
    obtain ⟨front, ⟨wide, a⟩, back, rfl, hkind, hfilter⟩ := exists_split_of_mem_kind hsingle hmem
    obtain ⟨r, rfl⟩ := Attribute.exists_eq_references hkind
    have hfront : ∀ m ∈ front, m.2.isFlag := fun m hm => by
      have hother : m ∈ front ++ back := List.mem_append_left _ hm
      rw [← hfilter, List.mem_filter] at hother
      exact Attribute.isFlag_iff.mpr ⟨hmarks m hother.1, of_decide_eq_true hother.2⟩
    have htext : wideTexts (front ++ (wide, .references r) :: back) ++ (t ++ v) =
        wideTexts front ++ (wideText (wide, .references r) ++ (wideTexts back ++ (t ++ v))) := by
      simp [wideTexts]
    have hrest : wideTexts (front ++ back) ++ (t ++ v) = wideTexts front ++ (wideTexts back ++ (t ++ v)) := by
      simp [wideTexts]
    have hvalue : (front ++ (wide, .references r) :: back).findSome? (·.2.reference?) = some r :=
      (findSome?_eq_some_iff_of_kind hreference hsingle).mpr ⟨_, List.mem_append_right _ List.mem_cons_self, rfl⟩
    have hends : EndsReference (wideTexts back ++ (t ++ v)) := endsReference_wideTexts ht hv
    refine ⟨hv, ?_⟩
    rw [hfilter, hvalue, referenceBehind, if_pos rfl, hrest, htext, takeReference_reference hfront wide r hends]
    rfl
  · have hcontains : (marks.map (·.2.kind)).contains .references = false :=
      Bool.eq_false_iff.mpr fun hcontains => hmem (List.contains_iff_mem.mp hcontains)
    have hflags : ∀ m ∈ marks, m.2.isFlag := fun m hm =>
      Attribute.isFlag_iff.mpr ⟨hmarks m hm, fun heq => hmem (List.mem_map.mpr ⟨m, hm, heq⟩)⟩
    have hnone : marks.findSome? (·.2.reference?) = none := List.findSome?_eq_none_iff.mpr fun m hm =>
      Option.eq_none_iff_forall_ne_some.mpr fun r hr => hmem (List.mem_map.mpr ⟨m, hm, hreference hr⟩)
    obtain ⟨htrail, htake⟩ := takeReference_flags hflags ht hv
    rw [hcontains, filter_kind_of_not_mem hmem, hnone, referenceBehind, if_neg Bool.false_ne_true, htake]
    exact ⟨htrail, rfl⟩

/-- What attributes say to their column by their words. -/
def markersOf (attributes : List Attribute) : Markers where
  primaryKey := (attributes.map (·.kind)).contains (.option .primaryKey)
  notNull := (attributes.map (·.kind)).contains (.option .notNull)
  reference := (attributes.findSome? (·.reference?)).map (·.inline)

def markersBehind (referred : Bool) (v : Text) : Markers :=
  let (v, reference) := referenceBehind referred v
  let (v, primaryKey) := Markers.takeAll primaryKeyMarker v
  { primaryKey, notNull := (Markers.takeAll notNullMarker v).2, reference }

theorem markersBehind_nil (referred : Bool) : markersBehind referred [] = {} := by cases referred <;> decide

theorem take_attributes {front back : List Attribute}
    (hsingle : ((front ++ back).map (·.kind)).count .references ≤ 1) (hmarks : ∀ a ∈ front ++ back, a.isMark)
    (wide : Bool) (hv : IsTrail v) :
    (Markers.take true (attributesText front ++ ((if wide then [' '] else []) ++ (attributesText back ++ v)))).2 =
      (markersOf (front ++ back)).merge (markersBehind (((front ++ back).map (·.kind)).contains .references) v) := by
  obtain ⟨marks, tail, htail, hattributes, htext⟩ := exists_wideTexts front back wide
  have hwhole : attributesText front ++ ((if wide then [' '] else []) ++ (attributesText back ++ v)) =
      wideTexts marks ++ (tail ++ v) := by
    have hall := congrArg (· ++ v) htext
    simpa only [List.append_assoc] using hall
  have hkinds : (front ++ back).map (·.kind) = marks.map (·.2.kind) := by
    rw [← hattributes, List.map_map]
    rfl
  have hreference : (front ++ back).findSome? (·.reference?) = marks.findSome? (·.2.reference?) := by
    rw [← hattributes, List.findSome?_map]
    rfl
  have hmarks : ∀ m ∈ marks, m.2.isMark := fun m hm => hmarks m.2 (hattributes ▸ List.mem_map_of_mem hm)
  rw [markersOf, hreference]
  rw [hkinds] at hsingle ⊢
  have hflags : ∀ m ∈ marks.filter fun m => m.2.kind ≠ .references, m.2.isFlag := fun m hm => by
    rw [List.mem_filter, decide_eq_true_eq] at hm
    exact Attribute.isFlag_iff.mpr ⟨hmarks m hm.1, hm.2⟩
  have hkept : ∀ k ≠ AttributeKind.references,
      ((marks.filter fun m => m.2.kind ≠ .references).map (·.2.kind)).contains k =
      (marks.map (·.2.kind)).contains k := fun _ hk => contains_kind_filter hk
  obtain ⟨hbehind, hfirst⟩ := takeReference_marks hsingle hmarks htail hv
  obtain ⟨hrest, hprimary⟩ := findsFlag_primaryKey.takeAll hflags htail hbehind
  have hfew : ∀ m ∈ (marks.filter fun m => m.2.kind ≠ .references).filter fun m => m.2.kind ≠ .option .primaryKey,
      m.2.isFlag := fun m hm => hflags m (List.mem_filter.mp hm).1
  obtain ⟨-, hnull⟩ := findsFlag_notNull.takeAll hfew htail hrest
  have hboth := @contains_kind_filter _ _ (fun m : Bool × Attribute => m.2.kind) (.option .primaryKey) (.option .notNull)
    (marks.filter fun m => m.2.kind ≠ .references) _ (by decide)
  rw [hwhole, Markers.take]
  simp only [hfirst, hprimary, hnull, hboth, hkept (.option .primaryKey) (by decide),
    hkept (.option .notNull) (by decide)]
  rfl

end SchemaDump.MySQL
