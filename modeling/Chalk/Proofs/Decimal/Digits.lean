import Mathlib.Data.List.Induction
import Mathlib.Data.List.TakeWhile
import Mathlib.Data.Nat.Digits.Defs
import Chalk.Proofs.Grammar.Numeral

/-!
# Rows of digits

The value of a row of digits is the sum of its digits, each times the power of the base for its place
(`digitsValue`). It is what the readers compute from left to right (`ofDigitChars_eq_digitsValue`),
and a value is written with the digits it was read from, less the zeros in front of them
(`toDigits_digitsValue`).
-/

namespace Chalk

namespace Decimal

/-- The value of a digit. -/
def digitValue (c : Char) : Nat :=
  c.toNat - '0'.toNat

/-- The value of a row of digits in base `b`. -/
def digitsValue (b : Nat) (ds : List Char) : Nat :=
  Nat.ofDigits b (ds.reverse.map digitValue)

/-- The row without the zeros in front, apart from the last digit. -/
def stripZeros (ds : List Char) : List Char :=
  match ds.dropWhile (· = '0') with
  | [] => ['0']
  | ds => ds

variable {b : Nat} {c : Char} {ds : List Char}

theorem digitsValue_concat (b : Nat) (ds : List Char) (c : Char) :
    digitsValue b (ds ++ [c]) = digitValue c + b * digitsValue b ds := by
  rw [digitsValue, List.reverse_append, List.map_append, List.reverse_singleton, List.map_singleton,
    List.singleton_append, Nat.ofDigits_cons, digitsValue]

/-- Reading from left to right gives the value. -/
theorem ofDigitChars_eq_digitsValue (b : Nat) (ds : List Char) :
    Nat.ofDigitChars b ds 0 = digitsValue b ds := by
  induction ds using List.reverseRecOn with
  | nil => rfl
  | append_singleton ds c ih =>
    rw [Nat.ofDigitChars_append, ih, digitsValue_concat, Nat.add_comm]
    rfl

theorem digitsValue_toDigits (n : Nat) : digitsValue 10 (Nat.toDigits 10 n) = n := by
  rw [← ofDigitChars_eq_digitsValue, Nat.ofDigitChars_ten_toDigits]

theorem code_of_isDigit (h : c.isDigit = true) : 48 ≤ c.toNat ∧ c.toNat ≤ 57 :=
  Char.isDigit_iff_toNat.1 h

theorem digitValue_lt (h : c.isDigit = true) : digitValue c < 10 := by
  have hcode := code_of_isDigit h
  show c.toNat - 48 < 10
  omega

theorem digitChar_digitValue (h : c.isDigit = true) : (digitValue c).digitChar = c := by
  have hcode := code_of_isDigit h
  rw [← Char.toNat_inj, Nat.toNat_digitChar_of_lt_ten (digitValue_lt h)]
  show 48 + (c.toNat - 48) = c.toNat
  omega

theorem digitValue_eq_zero_iff (h : c.isDigit = true) : digitValue c = 0 ↔ c = '0' := by
  constructor
  · intro hzero
    rw [← digitChar_digitValue h, hzero]
    rfl
  · rintro rfl
    rfl

theorem digitsValue_eq_zero_iff (h : ∀ c ∈ ds, c.isDigit = true) :
    digitsValue 10 ds = 0 ↔ ds.dropWhile (· = '0') = [] := by
  rw [List.dropWhile_eq_nil_iff]
  induction ds using List.reverseRecOn with
  | nil => simp [digitsValue]
  | append_singleton ds c ih =>
    obtain ⟨hds, hc⟩ := List.forall_mem_append.1 h
    have hdigit := digitValue_eq_zero_iff (hc c (List.mem_singleton_self c))
    rw [digitsValue_concat, List.forall_mem_append, List.forall_mem_singleton, ← ih hds,
      decide_eq_true_eq, ← hdigit]
    omega

theorem stripZeros_concat_of_ne_nil (h : ds.dropWhile (· = '0') ≠ []) (c : Char) :
    stripZeros (ds ++ [c]) = stripZeros ds ++ [c] := by
  obtain ⟨d, rest, hrest⟩ := List.exists_cons_of_ne_nil h
  rw [stripZeros, List.dropWhile_append, if_neg (by simpa using h), hrest, stripZeros, hrest]
  rfl

theorem stripZeros_concat_of_eq_nil (h : ds.dropWhile (· = '0') = []) (c : Char) :
    stripZeros (ds ++ [c]) = [c] := by
  rw [stripZeros, List.dropWhile_append, if_pos (by simp [h])]
  by_cases hc : c = '0'
  · simp [hc]
  · simp [hc]

/-- A value is written with the digits it was read from, without zeros in front of them. -/
theorem toDigits_digitsValue (h : ∀ c ∈ ds, c.isDigit = true) :
    Nat.toDigits 10 (digitsValue 10 ds) = stripZeros ds := by
  induction ds using List.reverseRecOn with
  | nil => rfl
  | append_singleton ds c ih =>
    obtain ⟨hds, hc⟩ := List.forall_mem_append.1 h
    have hdigit := hc c (List.mem_singleton_self c)
    have hlast : Nat.toDigits 10 (digitValue c) = [c] := by
      rw [Nat.toDigits_of_lt_base (digitValue_lt hdigit), digitChar_digitValue hdigit]
    rw [digitsValue_concat]
    by_cases hzero : digitsValue 10 ds = 0
    · rw [hzero, Nat.mul_zero, Nat.add_zero, hlast,
        stripZeros_concat_of_eq_nil ((digitsValue_eq_zero_iff hds).1 hzero)]
    · have hpos := Nat.pos_of_ne_zero hzero
      rw [stripZeros_concat_of_ne_nil (mt (digitsValue_eq_zero_iff hds).2 hzero), ← ih hds, ← hlast,
        Nat.toDigits_append_toDigits (by decide) hpos (digitValue_lt hdigit), Nat.add_comm]

theorem stripZeros_eq_of_head? (h : (stripZeros ds).head? = some '0') : stripZeros ds = ['0'] := by
  have hhead := List.head?_dropWhile_not (· = '0') ds
  cases hrest : ds.dropWhile (· = '0') with
  | nil => rw [stripZeros, hrest]
  | cons d rest =>
    rw [stripZeros, hrest, List.head?_cons, Option.some.injEq] at h
    rw [hrest, h] at hhead
    cases hhead

end Decimal

end Chalk
