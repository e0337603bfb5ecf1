import Chalk.Decimal.Text
import Chalk.Proofs.Grammar.Numeral

/-!
# The texts of numbers

Numbers are written in the form of C's constants: digits, perhaps a point with digits, and perhaps
an exponent (`C.IsConstant`), with a minus in front of those below zero. Only the floating-point
values without digits are not; they are written as bare words (`Number.word?`). `Number.exists_text`
says so for all numbers, and what has to be known of their texts follows from it.
-/

namespace Chalk

/-! ## Digits -/

namespace C

theorem isDigits_toDigits (n : Nat) : IsDigits (Nat.toDigits 10 n) :=
  ⟨Nat.toDigits_ne_nil, fun _ => Nat.isDigit_of_mem_toDigits (by decide) (by decide)⟩

theorem toList_repr_ofNat (n : Nat) : (Int.ofNat n).repr.toList = Nat.toDigits 10 n :=
  Nat.toList_repr

theorem toList_repr_negSucc (n : Nat) :
    (Int.negSucc n).repr.toList = '-' :: Nat.toDigits 10 (n + 1) := by
  simp [Int.repr, Nat.toList_repr]

/-! ## Constants -/

/-- Nothing, or a point and digits. -/
def IsFraction (cs : List Char) : Prop :=
  cs = [] ∨ ∃ ds, IsDigits ds ∧ cs = '.' :: ds

/-- Nothing, or a letter and digits, with or without a minus between them. -/
def IsExponent (cs : List Char) : Prop :=
  cs = [] ∨ ∃ ds, IsDigits ds ∧ (cs = 'e' :: ds ∨ cs = 'e' :: '-' :: ds)

/-- The form of the constants for numbers: digits, a fraction and an exponent. -/
def IsConstant (text : List Char) : Prop :=
  ∃ whole fraction exponent, text = whole ++ (fraction ++ exponent) ∧ IsDigits whole ∧
    IsFraction fraction ∧ IsExponent exponent

namespace IsConstant

variable {ds : List Char}

theorem of_digits (h : IsDigits ds) : IsConstant ds :=
  ⟨ds, [], [], by simp, h, .inl rfl, .inl rfl⟩

theorem of_point {whole fraction : List Char} (h : IsDigits whole) (h' : IsDigits fraction) :
    IsConstant (whole ++ '.' :: fraction) :=
  ⟨whole, _, [], by simp, h, .inr ⟨fraction, h', rfl⟩, .inl rfl⟩

theorem isDigit_of_mem_zeros {n : Nat} {c : Char} (h : c ∈ List.replicate n '0') :
    c.isDigit = true := by
  rw [List.eq_of_mem_replicate h]
  rfl

theorem plain (h : IsDigits ds) (point : Int) : IsConstant (Decimal.plain ds point) := by
  have hzero : IsDigits ['0'] := ⟨by simp, List.forall_mem_singleton.2 rfl⟩
  unfold Decimal.plain
  split
  · exact of_point hzero h
  · next k hk =>
    have hwhole : IsDigits (ds.take k ++ List.replicate (k - ds.length) '0') := by
      refine ⟨List.append_ne_nil_of_left_ne_nil (by simpa using ⟨hk, h.1⟩) _, ?_⟩
      exact List.forall_mem_append.2
        ⟨fun c hc => h.2 c (List.mem_of_mem_take hc), fun c hc => isDigit_of_mem_zeros hc⟩
    dsimp only
    split
    · exact of_point hwhole hzero
    · next hne => exact of_point hwhole ⟨hne, fun c hc => h.2 c (List.mem_of_mem_drop hc)⟩
  · refine of_point hzero ⟨List.append_ne_nil_of_right_ne_nil _ h.1, ?_⟩
    exact List.forall_mem_append.2 ⟨fun c hc => isDigit_of_mem_zeros hc, h.2⟩

theorem isExponent_repr (power : Int) : IsExponent ('e' :: power.repr.toList) := by
  cases power with
  | ofNat n =>
    rw [toList_repr_ofNat]
    exact .inr ⟨_, isDigits_toDigits n, .inl rfl⟩
  | negSucc n =>
    rw [toList_repr_negSucc]
    exact .inr ⟨_, isDigits_toDigits (n + 1), .inr rfl⟩

theorem scientific (h : IsDigits ds) (power : Int) : IsConstant (Decimal.scientific ds power) := by
  unfold Decimal.scientific
  dsimp only
  split
  · next first d ds =>
    obtain ⟨hfirst, hmore⟩ := List.forall_mem_cons.1 h.2
    exact ⟨[first], '.' :: d :: ds, _, rfl, ⟨by simp, List.forall_mem_singleton.2 hfirst⟩,
      .inr ⟨_, ⟨by simp, hmore⟩, rfl⟩, isExponent_repr power⟩
  · exact ⟨ds, [], _, rfl, h, .inl rfl, isExponent_repr power⟩

theorem decimal (d : Decimal) : IsConstant d.text := by
  unfold Decimal.text
  dsimp only
  split
  · exact plain (isDigits_toDigits _) _
  · exact scientific (isDigits_toDigits _) _

/-- The text of a finite value without its sign. -/
theorem magnitude (m : Nat) (q : Int) :
    IsConstant (if m = 0 then ['0', '.', '0'] else (Decimal.shortest m q).text) := by
  split
  · exact plain (isDigits_toDigits 0) 1
  · exact decimal _

end IsConstant

end C

/-! ## Numbers -/

/-- The bare word that a number without digits is written as. -/
def Number.word? : Number → Option String
  | float .nan => some "NaN"
  | float (.infinite _) => some "inf"
  | _ => none

/-- A number is written as a constant or, without digits, as its word, behind a minus or none. -/
theorem Number.exists_text (n : Number) : ∃ negative cs,
    n.text.toList = Binary64.text.sign negative ++ cs ∧
      (n.word? = none ∧ C.IsConstant cs ∨
        n.word? = some (String.ofList cs) ∧ (cs = ['N', 'a', 'N'] ∨ cs = ['i', 'n', 'f'])) := by
  cases n with
  | int v =>
    cases v with
    | ofNat n =>
      exact ⟨false, _, C.toList_repr_ofNat n, .inl ⟨rfl, .of_digits (C.isDigits_toDigits n)⟩⟩
    | negSucc n =>
      exact ⟨true, _, C.toList_repr_negSucc n, .inl ⟨rfl, .of_digits (C.isDigits_toDigits (n + 1))⟩⟩
  | float v =>
    rw [Number.text, String.toList_ofList]
    cases v with
    | nan => exact ⟨false, _, rfl, .inr ⟨rfl, .inl rfl⟩⟩
    | infinite negative => exact ⟨negative, _, rfl, .inr ⟨rfl, .inr rfl⟩⟩
    | finite negative m q _ => exact ⟨negative, _, rfl, .inl ⟨rfl, .magnitude m q⟩⟩

end Chalk
