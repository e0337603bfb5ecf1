import Chalk.Proofs.C.Denotation

/-!
# Literals of C read by the rules of the language

The language has no octal escapes. In the literal that C gets for some bytes, it reads plain text as
C does; of any other byte it reads the three digits one by one, behind a null byte when the first
digit is a zero, which is then used up, and behind a backslash otherwise. Whatever stands around it,
a byte comes back as itself or as three or four bytes (`readBack`), so the two ways to write strings
agree on plain text and on nothing else (`unescape_escape_eq_iff`).
-/

namespace Chalk.C

/-- What the language reads where a byte is written for C. -/
def readBack (b : UInt8) : List UInt8 :=
  if IsPlainByte b then [b]
  else
    (if b < 0x40 then [0x00] else [0x5c, 0x30 + b / 64 % 8]) ++ [0x30 + b / 8 % 8, 0x30 + b % 8]

variable {b : UInt8} {bytes : List UInt8}

theorem octalDigit_eq_zero_iff : octalDigit b = '0' ↔ b.toNat % 8 = 0 := by
  have hcode := toNat_octalDigit b
  rw [← Char.toNat_inj]
  show (octalDigit b).toNat = 48 ↔ _
  omega

theorem utf8EncodeChar_octalDigit (b : UInt8) :
    String.utf8EncodeChar (octalDigit b) = [0x30 + b % 8] := by
  apply utf8EncodeChar_ofUInt8
  have hcode : (0x30 + b % 8).toNat = 48 + b.toNat % 8 :=
    (toNat_val_ofUInt8 _).symm.trans (toNat_octalDigit b)
  rw [UInt8.le_iff_toNat_le, hcode]
  show 48 + b.toNat % 8 ≤ 126
  omega

/-! ## One byte -/

/-- Behind the first digit of an octal escape, the others are plain characters. -/
theorem unescape_octalDigit (b : UInt8) (cs : List Char) :
    unescape (octalDigit b :: cs) = (0x30 + b % 8) :: unescape cs := by
  have hbackslash : octalDigit b ≠ '\\' := octalDigit_ne rfl b
  rw [unescape]
  simp only [Escape.item, if_neg hbackslash, utf8EncodeChar_octalDigit]
  rfl

theorem simple?_octalDigit (h : b.toNat % 8 ≠ 0) : Escape.simple? (octalDigit b) = none := by
  rw [Escape.simple?, if_neg (octalDigit_ne rfl b), if_neg (octalDigit_ne rfl b),
    if_neg (octalDigit_ne rfl b), if_neg (octalDigit_ne rfl b), if_neg (octalDigit_ne rfl b),
    if_neg (mt octalDigit_eq_zero_iff.1 h)]

/-- A zero makes an escape of its own with the backslash; before any other digit the backslash
stands for itself. -/
theorem unescape_backslash_octalDigit (b : UInt8) (cs : List Char) :
    unescape ('\\' :: octalDigit b :: cs) =
      if b.toNat % 8 = 0 then 0x00 :: unescape cs else 0x5c :: unescape (octalDigit b :: cs) := by
  have hx : octalDigit b ≠ 'x' := octalDigit_ne rfl b
  rw [unescape]
  by_cases hzero : b.toNat % 8 = 0
  · rw [if_pos hzero, octalDigit_eq_zero_iff.2 hzero]
    rfl
  · simp only [Escape.item, if_pos, if_neg hx, simple?_octalDigit hzero, if_neg hzero]
    rfl

/-- The bytes read for one byte do not depend on what follows. -/
theorem unescape_escapeByte_append (b : UInt8) (cs : List Char) :
    unescape (escapeByte b ++ cs) = readBack b ++ unescape cs := by
  rw [readBack]
  split
  · next hplain => exact unescape_escapeByte hplain cs
  · next hplain =>
    have hfirst : (b / 64).toNat % 8 = 0 ↔ b < 0x40 := by
      have hlt : b.toNat < 256 := b.toNat_lt
      rw [UInt8.lt_iff_toNat_lt, UInt8.toNat_div]
      show b.toNat / 64 % 8 = 0 ↔ b.toNat < 64
      omega
    rw [escapeByte_of_not_isPlainByte hplain]
    show unescape ('\\' :: octalDigit (b / 64) :: octalDigit (b / 8) :: octalDigit b :: cs) = _
    simp only [unescape_backslash_octalDigit, unescape_octalDigit, hfirst]
    split <;> rfl

theorem length_readBack_of_isPlainByte (h : IsPlainByte b) : (readBack b).length = 1 := by
  rw [readBack, if_pos h]
  rfl

theorem length_readBack_of_not_isPlainByte (h : ¬ IsPlainByte b) : 3 ≤ (readBack b).length := by
  rw [readBack, if_neg h]
  split
  · exact Nat.le_refl 3
  · exact Nat.le_succ 3

/-! ## All bytes -/

theorem unescape_escape_eq_flatMap (bytes : List UInt8) :
    unescape (escape bytes) = bytes.flatMap readBack := by
  induction bytes with
  | nil => rw [escape, List.flatMap_nil, List.flatMap_nil, unescape]
  | cons b bytes ih =>
    rw [escape, List.flatMap_cons, unescape_escapeByte_append, ← escape, ih, List.flatMap_cons]

/-- Every byte that is no plain text makes the result longer, by two bytes at least. -/
theorem length_unescape_escape (bytes : List UInt8) :
    bytes.length + 2 * bytes.countP (fun b => ¬ IsPlainByte b) ≤
      (unescape (escape bytes)).length := by
  rw [unescape_escape_eq_flatMap]
  induction bytes with
  | nil => exact Nat.le_refl 0
  | cons b bytes ih =>
    rw [List.flatMap_cons, List.length_append, List.length_cons, List.countP_cons]
    by_cases h : IsPlainByte b
    · have hlength := length_readBack_of_isPlainByte h
      simp only [h, not_true_eq_false, decide_false, Bool.false_eq_true, if_false]
      omega
    · have hlength := length_readBack_of_not_isPlainByte h
      simp only [h, not_false_eq_true, decide_true, if_true]
      omega

/-- The language reads back from the literal for C just the bytes it was written for when they are
plain text, and only then; with any other byte among them it reads more bytes than there were. -/
theorem unescape_escape_eq_iff (bytes : List UInt8) :
    (unescape (escape bytes) = bytes ↔ ∀ b ∈ bytes, IsPlainByte b) ∧
      ((∃ b ∈ bytes, ¬ IsPlainByte b) ↔ bytes.length < (unescape (escape bytes)).length) := by
  by_cases hplain : ∀ b ∈ bytes, IsPlainByte b
  · have hnone : ¬ ∃ b ∈ bytes, ¬ IsPlainByte b := fun ⟨b, hb, h⟩ => h (hplain b hb)
    rw [unescape_escape hplain]
    exact ⟨iff_of_true rfl hplain, iff_of_false hnone (Nat.lt_irrefl _)⟩
  · -- more bytes come back, so they cannot be the same
    have hother : ∃ b ∈ bytes, ¬ IsPlainByte b := by simpa using hplain
    have hcount : 0 < bytes.countP (fun b => ¬ IsPlainByte b) := by
      simpa [List.countP_pos_iff] using hother
    have hlength := length_unescape_escape bytes
    have hlt : bytes.length < (unescape (escape bytes)).length := by omega
    refine ⟨iff_of_false (fun heq => ?_) hplain, iff_of_true hother hlt⟩
    rw [heq] at hlt
    exact Nat.lt_irrefl _ hlt

end Chalk.C
