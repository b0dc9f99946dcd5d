import Mathlib.Data.List.DropRight
import SchemaDump.Json.Reader
import SchemaDump.Json.Writer
/- Written JSON is read back as the value that was written, in both layouts. Numbers stay out:
a text after them could continue them. -/
namespace SchemaDump.Json

theorem hexValue?_hexDigit : ∀ n < 16, hexValue? (hexDigit n) = some n := by decide

theorem hexQuad?_hexDigit {n : Nat} (h : n < 0x20) :
    hexQuad? '0' '0' (hexDigit (n / 16)) (hexDigit (n % 16)) = some n := by
  have zero : hexValue? '0' = some 0 := by decide
  have sixteens : hexValue? (hexDigit (n / 16)) = some (n / 16) := hexValue?_hexDigit _ (by omega)
  have ones : hexValue? (hexDigit (n % 16)) = some (n % 16) := hexValue?_hexDigit _ (by omega)
  simp only [hexQuad?, zero, sixteens, ones, Option.bind_eq_bind, Option.bind_some,
    Option.pure_def]
  congr 1
  omega

theorem ofUnit_toNat {c : Char} (h : c.toNat < 0x20) : StringPiece.ofUnit c.toNat = .char c := by
  have noHalf : ¬0xd800 ≤ c.toNat ∧ ¬0xdc00 ≤ c.toNat := by omega
  simp [StringPiece.ofUnit, noHalf, Char.ofNat_toNat]

/-- What is read of a string, with one more character in front. -/
def withChar (c : Char) (read : Option (List StringPiece × Text)) :
    Option (List StringPiece × Text) :=
  read.map fun (pieces, rest) => (.char c :: pieces, rest)

theorem readPieces?_simple {e c : Char} (h : simpleEscape? e = some c) (t : Text) :
    readPieces? ('\\' :: e :: t) = withChar c (readPieces? t) := by
  have noUnit : e ≠ 'u' := by rintro rfl; cases h
  rw [readPieces?.eq_4 _ _ (by rintro a b c d t' rfl; exact fun _ => noUnit rfl), h]
  cases readPieces? t <;> rfl

theorem readPieces?_control {c : Char} (h : c.toNat < 0x20) (t : Text) :
    readPieces? ('\\' :: 'u' :: '0' :: '0' :: hexDigit (c.toNat / 16) :: hexDigit (c.toNat % 16) ::
      t) = withChar c (readPieces? t) := by
  rw [readPieces?, hexQuad?_hexDigit h]
  cases readPieces? t
  · rfl
  · simp only [Option.bind_eq_bind, Option.bind_some, Option.pure_def, ofUnit_toNat h]; rfl

theorem readPieces?_plain {c : Char} (hquote : c ≠ '"') (hslash : c ≠ '\\')
    (hcontrol : ¬c.toNat < 0x20) (t : Text) :
    readPieces? (c :: t) = withChar c (readPieces? t) := by
  rw [readPieces?]
  · simp only [hslash, hcontrol, decide_false, Bool.or_self, Bool.false_eq_true, if_false]
    cases readPieces? t <;> rfl
  all_goals simp [hquote, hslash]

/-- Every written character is one piece of the string. -/
theorem readPieces?_escapeChar (c : Char) (t : Text) :
    readPieces? (escapeChar c ++ t) = withChar c (readPieces? t) := by
  unfold escapeChar
  split
  · subst c; exact readPieces?_simple rfl t
  split
  · subst c; exact readPieces?_simple rfl t
  split
  · subst c; exact readPieces?_simple rfl t
  split
  · subst c; exact readPieces?_simple rfl t
  split
  · subst c; exact readPieces?_simple rfl t
  split
  · subst c; exact readPieces?_simple rfl t
  split
  · subst c; exact readPieces?_simple rfl t
  split
  · exact readPieces?_control ‹_› t
  · exact readPieces?_plain ‹_› ‹_› ‹_› t

theorem readPieces?_written (t rest : Text) :
    readPieces? (t.flatMap escapeChar ++ '"' :: rest) = some (t.map .char, rest) := by
  induction t with
  | nil => rw [List.flatMap_nil, List.nil_append, readPieces?, List.map_nil]
  | cons c t ih =>
      rw [List.flatMap_cons, List.append_assoc, readPieces?_escapeChar, ih]
      rfl

theorem joinPieces_char (t : Text) : joinPieces (t.map .char) = some t := by
  induction t with
  | nil => rfl
  | cons c t ih => rw [List.map_cons, joinPieces, ih, Option.map_some]

theorem writeString_eq_cons (value : Option String) :
    ∃ inside, writeString value = '"' :: inside ∧
      ∀ rest, readString? (inside ++ rest) = some (value, rest) := by
  cases value with
  | none => exact ⟨_, rfl, fun rest => rfl⟩
  | some s =>
      refine ⟨s.toList.flatMap escapeChar ++ ['"'], rfl, fun rest => ?_⟩
      rw [readString?, List.append_assoc, List.singleton_append, readPieces?_written]
      simp only [Option.map_some, joinPieces_char, String.ofList_toList]

def IsGap (gap : Text) : Prop := ∀ c ∈ gap, isSpace c = true

theorem isGap_nil : IsGap [] := by simp [IsGap]

theorem isGap_lineAt (depth : Nat) : IsGap (lineAt depth) := by
  intro c hc
  rcases List.mem_cons.mp hc with rfl | hc
  · rfl
  · rw [List.eq_of_mem_replicate hc]; rfl

theorem skipSpace_append {gap : Text} (h : IsGap gap) (t : Text) :
    skipSpace (gap ++ t) = skipSpace t :=
  List.dropWhile_append_of_pos h

theorem skipSpace_cons {c : Char} (h : isSpace c = false) (t : Text) :
    skipSpace (c :: t) = c :: t :=
  List.dropWhile_cons_of_neg (by simp [h])

theorem skipSpace_skipSpace (t : Text) : skipSpace (skipSpace t) = skipSpace t := by
  rw [skipSpace, skipSpace, List.dropWhile_idempotent]

theorem readValue?_skipSpace (bound : Nat) (t : Text) :
    readValue? bound (skipSpace t) = readValue? bound t := by
  cases bound with
  | zero => rfl
  | succ bound => rw [readValue?, readValue?, skipSpace_skipSpace]

theorem readElements?_skipSpace (bound : Nat) (t : Text) :
    readElements? bound (skipSpace t) = readElements? bound t := by
  cases bound with
  | zero => rfl
  | succ bound => rw [readElements?, readElements?, readValue?_skipSpace]

theorem readMembers?_skipSpace (bound : Nat) (t : Text) :
    readMembers? bound (skipSpace t) = readMembers? bound t := by
  cases bound with
  | zero => rfl
  | succ bound => rw [readMembers?, readMembers?, skipSpace_skipSpace]

theorem readElements?_of_closed {t rest : Text} (h : skipSpace t = ']' :: rest) (bound : Nat) :
    readElements? bound t = none := by
  cases bound with
  | zero => rfl
  | succ bound =>
      have noValue : readValue? bound t = none := by
        cases bound with
        | zero => rfl
        | succ bound => rw [readValue?, h]; rfl
      rw [readElements?, noValue]; rfl

/-- A text is read as a value whatever follows it. -/
def Reads (j : Json) (t : Text) : Prop :=
  ∀ bound rest, t.length ≤ bound → readValue? bound (t ++ rest) = some (j, rest)

/-- Behind the first element a text is read as further elements and the end of the array. -/
def ReadsElements (values : List Json) (t : Text) : Prop :=
  ∀ value first, Reads value first → ∀ bound rest, (first ++ t).length ≤ bound →
    readElements? bound (first ++ t ++ rest) = some (value :: values, rest)

/-- Behind the first member a text is read as further members and the end of the object. -/
def ReadsMembers (members : List (Option String × Json)) (t : Text) : Prop :=
  ∀ key value gap first, IsGap gap → Reads value first → ∀ bound rest,
    (gap ++ writeString key ++ ':' :: first ++ t).length ≤ bound →
    readMembers? bound (gap ++ writeString key ++ ':' :: first ++ t ++ rest) =
      some ((key, value) :: members, rest)

variable {j value : Json} {values : List Json} {key : Option String}
  {members : List (Option String × Json)} {gap t u : Text}

theorem Reads.behindGap (h : Reads j t) (hgap : IsGap gap) : Reads j (gap ++ t) := by
  intro bound rest hbound
  rw [List.append_assoc, ← readValue?_skipSpace, skipSpace_append hgap, readValue?_skipSpace]
  exact h bound rest (by rw [List.length_append] at hbound; omega)

theorem reads_null : Reads .null "null".toList
  | _ + 1, _, _ => rfl

theorem reads_bool : ∀ b : Bool, Reads (.bool b) (compact (.bool b))
  | true, _ + 1, _, _ => rfl
  | false, _ + 1, _, _ => rfl

theorem reads_string (value : Option String) : Reads (.string value) (writeString value) := by
  obtain ⟨inside, hwritten, hread⟩ := writeString_eq_cons value
  rw [hwritten]
  rintro (_ | bound) rest hbound
  · cases hbound
  · rw [List.cons_append, readValue?, skipSpace_cons rfl]
    simp only [hread, Option.map_some]

theorem reads_emptyArray : Reads (.array []) ['[', ']']
  | _ + 1, _, _ => rfl

theorem reads_emptyObject : Reads (.object []) ['\x7b', '\x7d']
  | _ + 1, _, _ => rfl

theorem readsElements_nil (hgap : IsGap gap) : ReadsElements [] (gap ++ [']']) := by
  rintro value first hfirst (_ | bound) rest hbound
  · simp at hbound
  · simp only [List.length_append, List.length_singleton] at hbound
    rw [readElements?, List.append_assoc, hfirst bound _ (by omega)]
    simp only [Option.bind_eq_bind, Option.bind_some, List.append_assoc, skipSpace_append hgap]
    rfl

theorem ReadsElements.cons (h : ReadsElements values u) (hvalue : Reads value t) :
    ReadsElements (value :: values) (',' :: t ++ u) := by
  rintro first text hfirst (_ | bound) rest hbound
  · simp at hbound
  · simp only [List.length_append, List.length_cons] at hbound
    have hrest : readElements? bound (t ++ u ++ rest) = some (value :: values, rest) :=
      h value t hvalue bound rest (by rw [List.length_append]; omega)
    rw [readElements?, List.append_assoc, hfirst bound _ (by omega)]
    simp only [Option.bind_eq_bind, Option.bind_some, List.cons_append,
      skipSpace_cons (c := ',') rfl, hrest]
    rfl

theorem Reads.array (hvalue : Reads value t) (hvalues : ReadsElements values u) :
    Reads (.array (value :: values)) ('[' :: t ++ u) := by
  rintro (_ | bound) rest hbound
  · simp at hbound
  · have hread : readElements? bound (t ++ u ++ rest) = some (value :: values, rest) :=
      hvalues value t hvalue bound rest (by simpa using hbound)
    rw [List.cons_append, List.cons_append, readValue?, skipSpace_cons rfl]
    simp only
    split
    · rename_i hclosed
      rw [readElements?_of_closed hclosed] at hread
      cases hread
    · rw [readElements?_skipSpace, hread]; rfl

section
variable {bound : Nat} {after rest : Text}

/-- Reading a member that others follow comes down to reading those. -/
theorem readMembers?_of_further (hgap : IsGap gap) (hvalue : Reads value t)
    (hbound : t.length ≤ bound) (h : skipSpace after = ',' :: u)
    (hread : readMembers? bound u = some (members, rest)) :
    readMembers? (bound + 1) (gap ++ writeString key ++ ':' :: t ++ after) =
      some ((key, value) :: members, rest) := by
  obtain ⟨inside, hwritten, hkey⟩ := writeString_eq_cons key
  rw [readMembers?, hwritten, List.append_assoc, List.append_assoc, skipSpace_append hgap,
    List.cons_append, skipSpace_cons rfl]
  simp only [hkey, Option.bind_eq_bind, Option.bind_some, List.cons_append,
    skipSpace_cons (c := ':') rfl, hvalue bound after hbound, h, hread]
  rfl

theorem readMembers?_of_closed (hgap : IsGap gap) (hvalue : Reads value t)
    (hbound : t.length ≤ bound) (h : skipSpace after = '\x7d' :: rest) :
    readMembers? (bound + 1) (gap ++ writeString key ++ ':' :: t ++ after) =
      some ([(key, value)], rest) := by
  obtain ⟨inside, hwritten, hkey⟩ := writeString_eq_cons key
  rw [readMembers?, hwritten, List.append_assoc, List.append_assoc, skipSpace_append hgap,
    List.cons_append, skipSpace_cons rfl]
  simp only [hkey, Option.bind_eq_bind, Option.bind_some, List.cons_append,
    skipSpace_cons (c := ':') rfl, hvalue bound after hbound, h]
  rfl

end

theorem readsMembers_nil (hgap : IsGap gap) : ReadsMembers [] (gap ++ ['\x7d']) := by
  rintro key value before first hbefore hfirst (_ | bound) rest hbound
  · simp at hbound
  · simp only [List.length_append, List.length_cons] at hbound
    rw [List.append_assoc]
    refine readMembers?_of_closed hbefore hfirst (by omega) ?_
    rw [List.append_assoc, skipSpace_append hgap]
    rfl

theorem ReadsMembers.cons (h : ReadsMembers members u) (hvalue : Reads value t)
    (hgap : IsGap gap) :
    ReadsMembers ((key, value) :: members) (',' :: gap ++ writeString key ++ ':' :: t ++ u) := by
  rintro first inner before text hbefore hfirst (_ | bound) rest hbound
  · simp at hbound
  · simp only [List.length_append, List.length_cons] at hbound
    have hrest := h key value gap t hgap hvalue bound rest (by
      simp only [List.length_append, List.length_cons]; omega)
    rw [List.append_assoc]
    refine readMembers?_of_further hbefore hfirst (by omega) ?_ hrest
    simp only [List.cons_append, skipSpace_cons (c := ',') rfl]

theorem Reads.object (hvalue : Reads value t) (hmembers : ReadsMembers members u)
    (hgap : IsGap gap) :
    Reads (.object ((key, value) :: members))
      ('\x7b' :: gap ++ writeString key ++ ':' :: t ++ u) := by
  rintro (_ | bound) rest hbound
  · simp at hbound
  · have hread := hmembers key value gap t hgap hvalue bound rest (by simpa using hbound)
    -- the first member starts with a quote, so the object is not taken for an empty one
    have hopen : ∀ rest', skipSpace (gap ++ writeString key ++ ':' :: t ++ u ++ rest) ≠
        '\x7d' :: rest' := by
      obtain ⟨inside, hwritten, -⟩ := writeString_eq_cons key
      intro rest'
      rw [hwritten, List.append_assoc, List.append_assoc, List.append_assoc,
        skipSpace_append hgap, List.cons_append, skipSpace_cons rfl]
      simp
    rw [← readMembers?_skipSpace] at hread
    simp only [List.cons_append] at hopen hread ⊢
    rw [readValue?, skipSpace_cons rfl]
    simp only [hread]
    rfl

mutual

/-- Whether no number occurs in a value. -/
def isNumberless : Json → Bool
  | .number _ => false
  | .array values => areNumberless values
  | .object members => haveNumberless members
  | _ => true

def areNumberless : List Json → Bool
  | [] => true
  | value :: values => isNumberless value && areNumberless values

def haveNumberless : List (Option String × Json) → Bool
  | [] => true
  | (_, value) :: members => isNumberless value && haveNumberless members

end

mutual

theorem reads_compact : ∀ j : Json, j.isNumberless → Reads j (compact j)
  | .null, _ => reads_null
  | .bool b, _ => reads_bool b
  | .string value, _ => reads_string value
  | .array [], _ => reads_emptyArray
  | .array (value :: values), h => by
      rw [isNumberless, areNumberless, Bool.and_eq_true] at h
      exact (reads_compact value h.1).array (readsElements_compact values h.2)
  | .object [], _ => reads_emptyObject
  | .object ((key, value) :: members), h => by
      rw [isNumberless, haveNumberless, Bool.and_eq_true] at h
      exact (reads_compact value h.1).object (readsMembers_compact members h.2) isGap_nil

theorem readsElements_compact :
    ∀ values : List Json, areNumberless values → ReadsElements values (compactElements values)
  | [], _ => readsElements_nil isGap_nil
  | value :: values, h => by
      rw [areNumberless, Bool.and_eq_true] at h
      exact (readsElements_compact values h.2).cons (reads_compact value h.1)

theorem readsMembers_compact : ∀ members : List (Option String × Json),
    haveNumberless members → ReadsMembers members (compactMembers members)
  | [], _ => readsMembers_nil isGap_nil
  | (key, value) :: members, h => by
      rw [haveNumberless, Bool.and_eq_true] at h
      exact (readsMembers_compact members h.2).cons (reads_compact value h.1) isGap_nil

end

theorem isGap_blank : IsGap [' '] := by simp [IsGap, isSpace]

mutual

theorem reads_prettyAt (depth : Nat) : ∀ j : Json, j.isNumberless → Reads j (prettyAt depth j)
  | .null, _ => reads_null
  | .bool true, _ => reads_bool true
  | .bool false, _ => reads_bool false
  | .string value, _ => reads_string value
  | .array [], _ => reads_emptyArray
  | .array (value :: values), h => by
      rw [isNumberless, areNumberless, Bool.and_eq_true] at h
      exact ((reads_prettyAt (depth + 1) value h.1).behindGap (isGap_lineAt _)).array
        (readsElements_pretty depth values h.2)
  | .object [], _ => reads_emptyObject
  | .object ((key, value) :: members), h => by
      rw [isNumberless, haveNumberless, Bool.and_eq_true] at h
      exact ((reads_prettyAt (depth + 1) value h.1).behindGap isGap_blank).object
        (readsMembers_pretty depth members h.2) (isGap_lineAt _)

theorem readsElements_pretty (depth : Nat) : ∀ values : List Json,
    areNumberless values → ReadsElements values (prettyElements depth values)
  | [], _ => readsElements_nil (isGap_lineAt _)
  | value :: values, h => by
      rw [areNumberless, Bool.and_eq_true] at h
      exact (readsElements_pretty depth values h.2).cons
        ((reads_prettyAt (depth + 1) value h.1).behindGap (isGap_lineAt _))

theorem readsMembers_pretty (depth : Nat) : ∀ members : List (Option String × Json),
    haveNumberless members → ReadsMembers members (prettyMembers depth members)
  | [], _ => readsMembers_nil (isGap_lineAt _)
  | (key, value) :: members, h => by
      rw [haveNumberless, Bool.and_eq_true] at h
      exact (readsMembers_pretty depth members h.2).cons
        ((reads_prettyAt (depth + 1) value h.1).behindGap isGap_blank) (isGap_lineAt _)

end

theorem Reads.parse?_eq (h : Reads j t) : parse? t = some j := by
  have hread := h (2 * t.length + 2) [] (by omega)
  rw [List.append_nil] at hread
  rw [parse?, hread]
  rfl

theorem parse?_compact (h : j.isNumberless) : parse? (compact j) = some j :=
  (reads_compact j h).parse?_eq

theorem parse?_pretty (h : j.isNumberless) : parse? (pretty j).toList = some j := by
  rw [pretty, String.toList_ofList]
  exact (reads_prettyAt 0 j h).parse?_eq

end SchemaDump.Json
