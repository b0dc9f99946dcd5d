import SchemaDump.Pattern.Words
/- The classes of characters that patterns distinguish, and how they exclude each other. -/
namespace SchemaDump

def blanksByCode : List Nat :=
  [0x9, 0xa, 0xb, 0xc, 0xd, 0x20, 0x85, 0xa0, 0x1680, 0x2000, 0x2001, 0x2002, 0x2003, 0x2004,
    0x2005, 0x2006, 0x2007, 0x2008, 0x2009, 0x200a, 0x2028, 0x2029, 0x202f, 0x205f, 0x3000]

theorem mem_blanksByCode_of_isBlank {c : Char} (h : isBlank c) : c.toNat ∈ blanksByCode := by
  simp only [isBlank, Bool.or_eq_true, Bool.and_eq_true, decide_eq_true_eq, beq_iff_eq] at h
  simp only [blanksByCode, List.mem_cons, List.not_mem_nil, or_false]
  omega

theorem blank_nil : ∀ c ∈ ([] : Text), isBlank c := fun _ hc => absurd hc List.not_mem_nil

theorem isWordChar_eq_false_of_isBlank {c : Char} (h : isBlank c) : isWordChar c = false := by
  have hall : ∀ n ∈ blanksByCode, isWordChar (Char.ofNat n) = false := by decide +kernel
  have hc := hall _ (mem_blanksByCode_of_isBlank h)
  rwa [Char.ofNat_toNat] at hc

theorem isBlank_eq_false_of_isWordChar {c : Char} (h : isWordChar c) : isBlank c = false := by
  cases hb : isBlank c with
  | false => rfl
  | true => rw [isWordChar_eq_false_of_isBlank hb] at h; cases h

theorem ne_of_isWordChar {c d : Char} (hd : isWordChar d = false) (hc : isWordChar c) : c ≠ d := by
  rintro rfl
  rw [hc] at hd
  cases hd

theorem isAlpha_iff {c : Char} :
    c.isAlpha ↔ (65 ≤ c.toNat ∧ c.toNat ≤ 90) ∨ (97 ≤ c.toNat ∧ c.toNat ≤ 122) := by
  have hupper : c.isUpper ↔ 65 ≤ c.toNat ∧ c.toNat ≤ 90 := decide_eq_true_iff
  have hlower : c.isLower ↔ 97 ≤ c.toNat ∧ c.toNat ≤ 122 :=
    (Bool.and_eq_true _ _).to_iff.trans (and_congr decide_eq_true_iff decide_eq_true_iff)
  exact (Bool.or_eq_true _ _).to_iff.trans (or_congr hupper hlower)

theorem isWordChar_of_isAlpha {c : Char} (h : c.isAlpha) : isWordChar c := by
  have hlt : c.toNat < 0x80 := by
    have := isAlpha_iff.mp h
    omega
  simp [isWordChar, hlt, Char.isAlphanum, h]

theorem isWordChar_of_isDigit {c : Char} (h : c.isDigit) : isWordChar c := by
  have hlt : c.toNat < 0x80 := by
    have hle : c.toNat ≤ 57 := (Bool.and_eq_true_iff.mp h).2 |> of_decide_eq_true
    omega
  simp [isWordChar, hlt, Char.isAlphanum, h]

theorem toNat_toLower (c : Char) :
    c.toLower.toNat = if 65 ≤ c.toNat ∧ c.toNat ≤ 90 then c.toNat + 32 else c.toNat := by
  unfold Char.toLower
  split
  · next h =>
    have hc : 65 ≤ c.toNat ∧ c.toNat ≤ 90 := h
    rw [if_pos hc]
    change (c.val + ('a'.val - 'A'.val)).toNat = c.val.toNat + 32
    have hv : ('a'.val - 'A'.val).toNat = 32 := rfl
    rw [UInt32.toNat_add, hv]
    have : c.val.toNat ≤ 90 := hc.2
    omega
  · next h =>
    have hc : ¬(65 ≤ c.toNat ∧ c.toNat ≤ 90) := h
    rw [if_neg hc]

theorem isAlpha_of_toLower_eq {letter c : Char} (hl : letter.isAlpha)
    (h : c.toLower = letter.toLower) : c.isAlpha := by
  have hn := congrArg Char.toNat h
  rw [toNat_toLower, toNat_toLower] at hn
  rw [isAlpha_iff] at hl ⊢
  split at hn <;> split at hn <;> omega

@[simp] theorem sameLetter_self (c : Char) : sameLetter c c = true := by simp [sameLetter]

/-- The lower-case letter that a character folds to; other characters stay as they are. -/
def foldCase (c : Char) : Char :=
  if c = 'ſ' then 's' else if c = '\u212a' then 'k' else c.toLower

theorem sameLetter_iff {letter c : Char} (hl : letter.isAlpha) :
    sameLetter letter c ↔ foldCase c = letter.toLower := by
  have hascii : ∀ {d : Char}, d.toLower = letter.toLower → d ≠ 'ſ' ∧ d ≠ '\u212a' := by
    intro d hd
    have halpha := isAlpha_of_toLower_eq hl hd
    constructor <;> (rintro rfl; exact absurd halpha (by decide))
  simp only [sameLetter, Bool.or_eq_true, Bool.and_eq_true, beq_iff_eq]
  constructor
  · rintro (((rfl | h) | ⟨rfl, h⟩) | ⟨rfl, h⟩)
    · rw [foldCase, if_neg (hascii rfl).1, if_neg (hascii rfl).2]
    · rw [foldCase, if_neg (hascii h).1, if_neg (hascii h).2, h]
    · rw [foldCase, if_pos rfl, h]
    · rw [foldCase, if_neg (by decide), if_pos rfl, h]
  · intro h
    rw [foldCase] at h
    split at h
    · next hc => exact .inl (.inr ⟨hc, h.symm⟩)
    · split at h
      · next hc => exact .inr ⟨hc, h.symm⟩
      · exact .inl (.inl (.inr h))

theorem isWordChar_of_sameLetter {letter c : Char} (hl : letter.isAlpha)
    (h : sameLetter letter c) : isWordChar c := by
  simp only [sameLetter, Bool.or_eq_true, Bool.and_eq_true, beq_iff_eq] at h
  rcases h with ((rfl | h) | ⟨rfl, -⟩) | ⟨rfl, -⟩
  · exact isWordChar_of_isAlpha hl
  · exact isWordChar_of_isAlpha (isAlpha_of_toLower_eq hl h)
  · decide +kernel
  · decide +kernel

theorem sameLetter_eq_false {letter c : Char} (hl : letter.isAlpha) (hc : isWordChar c = false) :
    sameLetter letter c = false := by
  cases h : sameLetter letter c with
  | false => rfl
  | true => rw [isWordChar_of_sameLetter hl h] at hc; cases hc

theorem sameLetter_eq_false_of_isDigit {letter c : Char} (hl : letter.isAlpha) (hc : c.isDigit) :
    sameLetter letter c = false := by
  cases h : sameLetter letter c with
  | false => rfl
  | true =>
      have hfold := (sameLetter_iff hl).mp h
      have hlong : c ≠ 'ſ' := by rintro rfl; exact absurd hc (by decide)
      have hkelvin : c ≠ '\u212a' := by rintro rfl; exact absurd hc (by decide)
      rw [foldCase, if_neg hlong, if_neg hkelvin] at hfold
      have halpha := isAlpha_iff.mp (isAlpha_of_toLower_eq hl hfold)
      have hdigit : 48 ≤ c.toNat ∧ c.toNat ≤ 57 :=
        (Bool.and_eq_true_iff.mp hc).imp of_decide_eq_true of_decide_eq_true
      omega

end SchemaDump
