import Mathlib.Algebra.Order.Field.Power
import Mathlib.Data.Rat.Cast.Order
import Mathlib.Tactic.FieldSimp
import Mathlib.Tactic.Linarith
import Chalk.Decimal.Binary64

/-!
# Which numbers round to an infinite value

The greatest finite value is `2 ^ 1024 - 2 ^ 971`. The next one in its place would be `2 ^ 1024`, and
what lies midway or above it, from `2 ^ 1024 - 2 ^ 970` on, is rounded to an infinite value and
nothing else is (`Binary64.ofRatio_eq_infinite_iff`). The bounds on the number of digits within which
decimals are read at all do not change that (`Binary64.ofDecimal_eq_infinite_iff`).
-/

namespace Chalk.Binary64

/-! ## Quotients of natural numbers -/

variable {num den : Nat}

theorem scale_den_pos (hden : 0 < den) (num : Nat) (q : Int) : 0 < (scale num den q).2 := by
  cases q with
  | ofNat k => exact Nat.mul_pos hden (Nat.two_pow_pos k)
  | negSucc k => exact hden

theorem scale_div (num den : Nat) (q : Int) :
    ((scale num den q).1 : ℚ) / (scale num den q).2 = num / den / 2 ^ q := by
  cases q with
  | ofNat k => simp [scale, div_div]
  | negSucc k => simp [scale, zpow_negSucc, div_mul_eq_mul_div]

/-- A comparison of scaled numbers is one of the quotient with a power of two. -/
theorem mul_scale_le_iff (hden : 0 < den) (q : Int) (c d : Nat) :
    c * (scale num den q).2 ≤ d * (scale num den q).1 ↔ (c : ℚ) * 2 ^ q ≤ d * (num / den) := by
  have hpos : (0 : ℚ) < (scale num den q).2 := by exact_mod_cast scale_den_pos hden num q
  have hpow : (0 : ℚ) < 2 ^ q := by positivity
  have hnum : ((scale num den q).1 : ℚ) = num / den / 2 ^ q * (scale num den q).2 := by
    rw [← scale_div, div_mul_cancel₀ _ hpos.ne']
  calc c * (scale num den q).2 ≤ d * (scale num den q).1
    _ ↔ (c : ℚ) * (scale num den q).2 ≤ d * (scale num den q).1 := by exact_mod_cast Iff.rfl
    _ ↔ (c : ℚ) * (scale num den q).2 ≤ d * (num / den / 2 ^ q) * (scale num den q).2 := by
      rw [hnum, mul_assoc (d : ℚ)]
    _ ↔ (c : ℚ) ≤ d * (num / den / 2 ^ q) := mul_le_mul_iff_left₀ hpos
    _ ↔ (c : ℚ) * 2 ^ q ≤ d * (num / den) := by rw [← mul_div_assoc, le_div_iff₀ hpow]

theorem two_pow_mul_zpow (n : Nat) (q : Int) :
    ((2 ^ n : Nat) : ℚ) * 2 ^ q = 2 ^ ((n : Int) + q) := by
  rw [zpow_add₀ two_ne_zero, zpow_natCast, Nat.cast_pow, Nat.cast_ofNat]

theorem two_zpow_le {p q : Int} (h : p ≤ q) : (2 : ℚ) ^ p ≤ 2 ^ q :=
  zpow_le_zpow_right₀ one_le_two h

/-- The exponent of a quotient: the quotient lies between a power of two and the next one. -/
theorem log2Ratio_spec (hnum : num ≠ 0) (hden : 0 < den) :
    (2 : ℚ) ^ log2Ratio num den ≤ num / den ∧ (num / den : ℚ) < 2 ^ (log2Ratio num den + 1) := by
  have hnumLow : (2 : ℚ) ^ (num.log2 : Int) ≤ num := by exact_mod_cast Nat.log2_self_le hnum
  have hnumHigh : (num : ℚ) < 2 ^ (num.log2 + 1 : Int) := by exact_mod_cast Nat.lt_log2_self
  have hdenLow : (2 : ℚ) ^ (den.log2 : Int) ≤ den := by exact_mod_cast Nat.log2_self_le hden.ne'
  have hdenHigh : (den : ℚ) < 2 ^ (den.log2 + 1 : Int) := by exact_mod_cast Nat.lt_log2_self
  have hpos : (0 : ℚ) < den := by exact_mod_cast hden
  have hlow : (2 : ℚ) ^ ((num.log2 : Int) - den.log2 - 1) ≤ num / den := by
    rw [sub_sub, zpow_sub₀ two_ne_zero]
    exact div_le_div₀ (Nat.cast_nonneg num) hnumLow hpos hdenHigh.le
  have hhigh : (num / den : ℚ) < 2 ^ ((num.log2 : Int) - den.log2 + 1) := by
    rw [sub_add_eq_add_sub, zpow_sub₀ two_ne_zero]
    exact div_lt_div₀ hnumHigh hdenLow (by positivity) (by positivity)
  have hcompare := @mul_scale_le_iff num den hden ((num.log2 : Int) - den.log2) 1 1
  rw [Nat.one_mul, Nat.one_mul, Nat.cast_one, one_mul, one_mul] at hcompare
  unfold log2Ratio
  dsimp only
  split
  · next hlt =>
    rw [sub_add_cancel]
    exact ⟨hlow, not_le.1 fun hle => absurd (hcompare.2 hle) (Nat.not_le_of_lt hlt)⟩
  · next hle => exact ⟨hcompare.1 (Nat.le_of_not_lt hle), hhigh⟩

/-! ## Rounding to a natural number -/

/-- The quotient is rounded by no more than a half, and by a half to an even number. -/
theorem roundHalfEven_spec (num : Nat) (hden : 0 < den) :
    2 * num ≤ 2 * (roundHalfEven num den * den) + den ∧
      2 * (roundHalfEven num den * den) ≤ 2 * num + den ∧
      (2 * num = 2 * (roundHalfEven num den * den) + den → roundHalfEven num den % 2 = 0) := by
  have hdiv : num = num / den * den + num % den := by
    rw [Nat.mul_comm]
    exact (Nat.div_add_mod num den).symm
  have hmod := Nat.mod_lt num hden
  have hsucc : (num / den + 1) * den = num / den * den + den := Nat.succ_mul ..
  unfold roundHalfEven
  dsimp only
  split
  · omega
  split
  · rw [hsucc]
    omega
  split
  · omega
  · rw [hsucc]
    omega

/-- What is rounded to an even number or above lies at most a half below it. -/
theorem le_roundHalfEven_iff (hden : 0 < den) {n : Nat} (hn : n % 2 = 0) :
    n ≤ roundHalfEven num den ↔ 2 * (n * den) ≤ 2 * num + den := by
  obtain ⟨hlow, hhigh, htie⟩ := roundHalfEven_spec num hden
  constructor
  · intro hle
    have hmul := Nat.mul_le_mul_right den hle
    omega
  · intro hle
    by_contra hlt
    -- the number below an even one is odd, so it is not taken for a half
    have hmul := Nat.mul_le_mul_right den (show roundHalfEven num den + 1 ≤ n by omega)
    rw [Nat.succ_mul] at hmul
    have heq : (roundHalfEven num den + 1) * den = n * den := by
      rw [Nat.succ_mul]
      omega
    have hodd := Nat.eq_of_mul_eq_mul_right hden heq
    omega

theorem le_roundHalfEven (hden : 0 < den) {n : Nat} (h : n * den ≤ num) :
    n ≤ roundHalfEven num den := by
  obtain ⟨hlow, -⟩ := roundHalfEven_spec num hden
  by_contra hlt
  have hmul := Nat.mul_le_mul_right den (show roundHalfEven num den + 1 ≤ n by omega)
  rw [Nat.succ_mul] at hmul
  omega

theorem roundHalfEven_le (hden : 0 < den) {n : Nat} (h : num ≤ n * den) :
    roundHalfEven num den ≤ n := by
  obtain ⟨-, hhigh, -⟩ := roundHalfEven_spec num hden
  by_contra hlt
  have hmul := Nat.mul_le_mul_right den (show n + 1 ≤ roundHalfEven num den by omega)
  rw [Nat.succ_mul] at hmul
  omega

/-! ## Rounding to a floating-point value -/

/-- The exponent of the last place of a mantissa for a quotient. -/
def lastPlace (num den : Nat) : Int :=
  max (log2Ratio num den - 52) (-1074)

/-- The mantissa of a quotient, before it is brought into its one form. -/
def mantissa (num den : Nat) : Nat :=
  roundHalfEven (scale num den (lastPlace num den)).1 (scale num den (lastPlace num den)).2

theorem mantissa_le (hnum : num ≠ 0) (hden : 0 < den) : mantissa num den ≤ 2 ^ 53 := by
  refine roundHalfEven_le (scale_den_pos hden num _) (Nat.le_of_lt (Nat.lt_of_not_le fun hle => ?_))
  have hplace : log2Ratio num den + 1 ≤ (53 : Nat) + lastPlace num den := by
    unfold lastPlace
    omega
  have hscaled := (mul_scale_le_iff hden (lastPlace num den) (2 ^ 53) 1).1 (by rwa [Nat.one_mul])
  rw [two_pow_mul_zpow, Nat.cast_one, one_mul] at hscaled
  exact absurd (log2Ratio_spec hnum hden).2 (not_lt.2 ((two_zpow_le hplace).trans hscaled))

theorem le_mantissa (hnum : num ≠ 0) (hden : 0 < den) (hplace : lastPlace num den ≠ -1074) :
    2 ^ 52 ≤ mantissa num den := by
  have heq : (52 : Nat) + lastPlace num den = log2Ratio num den := by
    unfold lastPlace at hplace ⊢
    omega
  refine le_roundHalfEven (scale_den_pos hden num _) ?_
  rw [← Nat.one_mul (scale num den _).1, mul_scale_le_iff hden, two_pow_mul_zpow, heq, Nat.cast_one,
    one_mul]
  exact (log2Ratio_spec hnum hden).1

theorem ofRatio_eq (negative : Bool) (hnum : num ≠ 0) :
    ofRatio negative num den =
      if mantissa num den = 2 ^ 53 then
        if h : IsNormal (2 ^ 52) (lastPlace num den + 1) then finite negative _ _ h
        else infinite negative
      else if h : IsNormal (mantissa num den) (lastPlace num den) then finite negative _ _ h
      else infinite negative := by
  rw [ofRatio, if_neg hnum]
  change (let p : Nat × Int :=
      if mantissa num den = 2 ^ 53 then (2 ^ 52, lastPlace num den + 1)
      else (mantissa num den, lastPlace num den)
    if h : IsNormal p.1 p.2 then finite negative p.1 p.2 h else infinite negative) = _
  by_cases hm : mantissa num den = 2 ^ 53
  · simp only [if_pos hm]
  · simp only [if_neg hm]

theorem dite_finite_eq_infinite_iff {negative : Bool} {m : Nat} {q : Int} :
    (if h : IsNormal m q then finite negative m q h else infinite negative) = infinite negative ↔
      ¬ IsNormal m q := by
  split <;> simp_all

/-- Whether a quotient is too large is seen from its last place and its mantissa. -/
theorem ofRatio_eq_infinite_iff_place (negative : Bool) (hnum : num ≠ 0) (hden : 0 < den) :
    ofRatio negative num den = infinite negative ↔
      971 < lastPlace num den ∨ lastPlace num den = 971 ∧ 2 ^ 53 ≤ mantissa num den := by
  have hle := mantissa_le hnum hden
  have hge := le_mantissa hnum hden
  have hplace : -1074 ≤ lastPlace num den := le_max_right ..
  rw [ofRatio_eq negative hnum]
  split
  · next hm =>
    rw [dite_finite_eq_infinite_iff]
    have hnormal : IsNormal (2 ^ 52) (lastPlace num den + 1) ↔ lastPlace num den + 1 ≤ 971 :=
      ⟨fun h => h.2.2.1, fun h => ⟨by decide, by omega, h, .inl (Nat.le_refl _)⟩⟩
    rw [hnormal]
    omega
  · next hm =>
    rw [dite_finite_eq_infinite_iff]
    have hlt := Nat.lt_of_le_of_ne hle hm
    have hnormal : IsNormal (mantissa num den) (lastPlace num den) ↔ lastPlace num den ≤ 971 := by
      refine ⟨fun h => h.2.2.1, fun h => ⟨hlt, hplace, h, ?_⟩⟩
      by_cases hleast : lastPlace num den = -1074
      · exact .inr hleast
      · exact .inl (hge hleast)
    rw [hnormal]
    omega

/-- Midway between the greatest finite value and the power of two above it. -/
def overflow : Nat :=
  2 ^ 1024 - 2 ^ 970

theorem overflow_pos : 0 < overflow := by
  decide +kernel

theorem two_zpow_natCast (n : Nat) : (2 : ℚ) ^ (n : Int) = (2 ^ n : Nat) := by
  rw [zpow_natCast, Nat.cast_pow, Nat.cast_ofNat]

/-- In the last place of the greatest finite values, the limit is a half below `2 ^ 53`. -/
theorem two_pow_le_mantissa_iff (hden : 0 < den) (hplace : lastPlace num den = (971 : Nat)) :
    2 ^ 53 ≤ mantissa num den ↔ (overflow : ℚ) ≤ num / den := by
  have hpos := scale_den_pos hden num (lastPlace num den)
  have hlimit : (2 ^ 54 - 1) * 2 ^ 971 = 2 * overflow := by decide +kernel
  have hcast : ((2 ^ 54 - 1 : Nat) : ℚ) * 2 ^ ((971 : Nat) : Int) = 2 * overflow := by
    rw [two_zpow_natCast, ← Nat.cast_mul, hlimit, Nat.cast_mul, Nat.cast_ofNat]
  rw [mantissa, le_roundHalfEven_iff hpos (by decide)]
  calc 2 * (2 ^ 53 * (scale num den (lastPlace num den)).2) ≤
        2 * (scale num den (lastPlace num den)).1 + (scale num den (lastPlace num den)).2
    _ ↔ (2 ^ 54 - 1) * (scale num den (lastPlace num den)).2 ≤
        2 * (scale num den (lastPlace num den)).1 := by omega
    _ ↔ 2 * (overflow : ℚ) ≤ (2 : Nat) * (num / den) := by
      rw [mul_scale_le_iff hden, hplace, hcast]
    _ ↔ (overflow : ℚ) ≤ num / den := mul_le_mul_iff_right₀ two_pos

/-- The quotients that are rounded to an infinite value. -/
theorem ofRatio_eq_infinite_iff (negative : Bool) (num : Nat) (hden : 0 < den) :
    ofRatio negative num den = infinite negative ↔ overflow * den ≤ num := by
  by_cases hnum : num = 0
  · have hpos : 0 < overflow * den := Nat.mul_pos overflow_pos hden
    have hzero : ofRatio negative num den = zero negative := if_pos hnum
    rw [hzero, hnum]
    exact iff_of_false nofun (Nat.not_le_of_lt hpos)
  have hquotient : overflow * den ≤ num ↔ (overflow : ℚ) ≤ num / den := by
    have hpos : (0 : ℚ) < den := by exact_mod_cast hden
    rw [le_div_iff₀ hpos]
    exact_mod_cast Iff.rfl
  obtain ⟨hlow, hhigh⟩ := log2Ratio_spec hnum hden
  rw [ofRatio_eq_infinite_iff_place negative hnum hden, hquotient]
  rcases lt_trichotomy (lastPlace num den) 971 with hlt | heq | hgt
  · refine iff_of_false (by omega) (not_le.2 ?_)
    have hexponent : log2Ratio num den + 1 ≤ (1023 : Nat) := by
      unfold lastPlace at hlt
      omega
    calc (num / den : ℚ)
      _ < 2 ^ (log2Ratio num den + 1) := hhigh
      _ ≤ 2 ^ ((1023 : Nat) : Int) := two_zpow_le hexponent
      _ = (2 ^ 1023 : Nat) := two_zpow_natCast 1023
      _ ≤ overflow := by exact_mod_cast (by decide +kernel : 2 ^ 1023 ≤ overflow)
  · rw [← two_pow_le_mantissa_iff hden heq]
    omega
  · refine iff_of_true (.inl hgt) ?_
    have hexponent : (1024 : Nat) ≤ log2Ratio num den := by
      unfold lastPlace at hgt
      omega
    calc (overflow : ℚ)
      _ ≤ (2 ^ 1024 : Nat) := by exact_mod_cast (Nat.sub_le .. : overflow ≤ 2 ^ 1024)
      _ = 2 ^ ((1024 : Nat) : Int) := (two_zpow_natCast 1024).symm
      _ ≤ 2 ^ log2Ratio num den := two_zpow_le hexponent
      _ ≤ num / den := hlow

/-- A magnitude of the given sign. -/
def HasSign (negative : Bool) (v : Binary64) : Prop :=
  v = infinite negative ∨ ∃ m q h, v = finite negative m q h

theorem hasSign_dite {negative : Bool} {m : Nat} {q : Int} :
    HasSign negative
      (if h : IsNormal m q then finite negative m q h else infinite negative) := by
  split
  · next h => exact .inr ⟨m, q, h, rfl⟩
  · exact .inl rfl

theorem hasSign_zero (negative : Bool) : HasSign negative (zero negative) :=
  .inr ⟨0, -1074, by decide, rfl⟩

theorem hasSign_ofRatio (negative : Bool) (num den : Nat) :
    HasSign negative (ofRatio negative num den) := by
  by_cases hnum : num = 0
  · rw [show ofRatio negative num den = zero negative from if_pos hnum]
    exact hasSign_zero negative
  · rw [ofRatio_eq negative hnum]
    split <;> exact hasSign_dite

/-! ## Decimals -/

/-- A number lies between the powers of ten for its digits. -/
theorem ten_pow_le_of_lt_length {n k : Nat} (hn : n ≠ 0) (h : k < (Nat.toDigits 10 n).length) :
    10 ^ k ≤ n := by
  cases k with
  | zero => exact Nat.pos_of_ne_zero hn
  | succ k =>
    refine Nat.le_of_not_lt fun hlt => ?_
    exact absurd ((Nat.length_toDigits_le_iff (by decide) k.succ_pos).2 hlt) (Nat.not_le_of_lt h)

theorem lt_ten_pow_length (n : Nat) : n < 10 ^ (Nat.toDigits 10 n).length :=
  (Nat.length_toDigits_le_iff (by decide) Nat.length_toDigits_pos).1 (Nat.le_refl _)

/-- The decimals with `k` places behind the point that are read as an infinite value. -/
theorem ofDecimal_eq_infinite_iff (negative : Bool) (digits k : Nat) :
    ofDecimal negative digits (-k) = infinite negative ↔ overflow * 10 ^ k ≤ digits := by
  have hten : 0 < 10 ^ k := Nat.pow_pos (by decide)
  unfold ofDecimal
  dsimp only
  split
  · next hzero =>
    rw [hzero]
    exact iff_of_false nofun (Nat.not_le_of_lt (Nat.mul_pos overflow_pos hten))
  next hdigits =>
  split
  · next hsize =>
    refine iff_of_true rfl ?_
    calc overflow * 10 ^ k
      _ ≤ 10 ^ 310 * 10 ^ k := Nat.mul_le_mul_right _ (by decide +kernel)
      _ = 10 ^ (310 + k) := by rw [Nat.pow_add]
      _ ≤ digits := ten_pow_le_of_lt_length hdigits (by omega)
  split
  · next hsize =>
    refine iff_of_false nofun (Nat.not_le_of_lt ?_)
    calc digits
      _ < 10 ^ (Nat.toDigits 10 digits).length := lt_ten_pow_length digits
      _ ≤ 10 ^ k := Nat.pow_le_pow_right (by decide) (by omega)
      _ ≤ overflow * 10 ^ k := Nat.le_mul_of_pos_left _ overflow_pos
  cases k with
  | zero =>
    refine (ofRatio_eq_infinite_iff negative (digits * 10 ^ 0) Nat.one_pos).trans ?_
    rw [Nat.pow_zero, Nat.mul_one, Nat.mul_one]
  | succ k => exact ofRatio_eq_infinite_iff negative digits hten

theorem hasSign_ofDecimal (negative : Bool) (digits : Nat) (exponent : Int) :
    HasSign negative (ofDecimal negative digits exponent) := by
  unfold ofDecimal
  dsimp only
  split
  · exact hasSign_zero negative
  split
  · exact .inl rfl
  split
  · exact hasSign_zero negative
  split <;> exact hasSign_ofRatio ..

end Chalk.Binary64
