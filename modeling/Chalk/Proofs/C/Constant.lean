import Chalk.Proofs.C.Denotation
import Chalk.Proofs.C.NumberText
import Chalk.Proofs.C.RoundTrip
import Chalk.Proofs.Decimal.Digits
import Chalk.Proofs.Decimal.Rounding

/-!
# Number constants of C

Digits are a constant of C too, but not always of the same value, since C takes digits behind a zero
as octal (`readInteger?`). Integers are written without zeros in front, so C reads the value that the
digits have in the language (`Parts.primaryRule_integer`), however many zeros they begin with there.

A floating-point value that has digits is written as a constant of C (`IsConstant`). Numerals that
are too large are read as an infinite value, and the word that is written for it is no constant of C
(`Denotes.isConstant_text_iff`).
-/

namespace Chalk

open Decimal Chalk.Parser

namespace C

/-- The value of an integer constant of C that is made up of digits. With a zero in front it is
octal. -/
def readInteger? : List Char → Option Nat
  | [] => none
  | '0' :: ds => if ds.all isOctalDigit then some (digitsValue 8 ds) else none
  | ds => if ds.all Char.isDigit then some (digitsValue 10 ds) else none

example : readInteger? "0".toList = some 0 ∧ readInteger? "017".toList = some 15 ∧
    readInteger? "17".toList = some 17 ∧ readInteger? "09".toList = none := by decide +kernel

theorem stripZeros_toDigits (n : Nat) : stripZeros (Nat.toDigits 10 n) = Nat.toDigits 10 n := by
  rw [← toDigits_digitsValue (isDigits_toDigits n).2, digitsValue_toDigits]

/-- C reads the digits of a number as that number. -/
theorem readInteger?_toDigits (n : Nat) : readInteger? (Nat.toDigits 10 n) = some n := by
  have hall : (Nat.toDigits 10 n).all Char.isDigit = true := List.all_eq_true.2 (isDigits_toDigits n).2
  have hzero : (Nat.toDigits 10 n).head? = some '0' → Nat.toDigits 10 n = ['0'] := by
    rw [← stripZeros_toDigits]
    exact stripZeros_eq_of_head?
  have hne : Nat.toDigits 10 n ≠ [] := Nat.toDigits_ne_nil
  have hvalue := digitsValue_toDigits n
  generalize Nat.toDigits 10 n = ds at hall hzero hne hvalue
  unfold readInteger?
  split
  · exact absurd rfl hne
  · next ds =>
    cases hzero rfl
    exact congrArg some hvalue
  · rw [if_pos hall, hvalue]

end C

open C

theorem IsDigits.read?_eq {text : String} (h : IsDigits text.toList) : Number.read? text =
    if digitsValue 10 text.toList ≤ 2 ^ 63 - 1 then some (.int (digitsValue 10 text.toList))
    else none := by
  rw [Number.read?, if_neg h.not_mem_point, h.readInt64?_eq, ofDigitChars_eq_digitsValue,
    show 2 ^ 63 - 1 = 9223372036854775807 from rfl]
  split <;> rfl

theorem Parts.primaryRule_number {t : Token} (hkind : t.kind = .number) (later : List Token) :
    primaryRule ⟨t, later⟩ =
      (Number.read? t.value).elim (failAt t (.unreadableNumber t.value))
        (fun v => pure (.number v (some t.line))) (Stream.advance ⟨t, later⟩) := by
  obtain ⟨kind, value, span⟩ := t
  cases hkind
  cases hread : Number.read? value <;> simp [primaryRule, bind_apply, advance, hread]

/-- A number token of digits alone is an integer if it is at most `2 ^ 63 - 1`, and otherwise a fault
at its start. The constant written for an integer is its digits without the zeros in front, and the
value of that in C is the value of the digits. -/
theorem Parts.primaryRule_integer {t : Token} (hkind : t.kind = .number)
    (hdigits : IsDigits t.value.toList) (later : List Token) :
    (digitsValue 10 t.value.toList ≤ 2 ^ 63 - 1 →
      primaryRule ⟨t, later⟩ =
        .done (.number (.int (digitsValue 10 t.value.toList)) (some t.line))
          (Stream.advance ⟨t, later⟩)) ∧
    (2 ^ 63 - 1 < digitsValue 10 t.value.toList →
      primaryRule ⟨t, later⟩ =
        .failed ⟨.unreadableNumber t.value, t.span.start⟩ (Stream.advance ⟨t, later⟩)) ∧
    ∀ ty, ∃ text, (Expr.number (.int (digitsValue 10 t.value.toList)) ty).cText = text ∧
      text.toList = stripZeros t.value.toList ∧ (text.toList.head? = some '0' → text = "0") ∧
      readInteger? text.toList = some (digitsValue 10 t.value.toList) := by
  have hread := hdigits.read?_eq
  have htext : ∀ ty, (Expr.number (.int (digitsValue 10 t.value.toList)) ty).cText.toList =
      stripZeros t.value.toList := fun ty => by
    rw [Expr.toList_cText_number, toDigits_digitsValue hdigits.2]
  refine ⟨fun hle => ?_, fun hlt => ?_, fun ty => ⟨_, rfl, htext ty, fun hhead => ?_, ?_⟩⟩
  · rw [primaryRule_number hkind, hread, if_pos hle]
    rfl
  · rw [primaryRule_number hkind, hread, if_neg (Nat.not_le_of_lt hlt)]
    rfl
  · rw [htext] at hhead
    exact String.toList_inj.1 ((htext ty).trans (stripZeros_eq_of_head? hhead))
  · rw [Expr.toList_cText_number, readInteger?_toDigits]

/-- The greatest integer, behind zeros, and the one above it. -/
theorem Parts.primaryRule_integer_greatest :
    primaryRule ⟨⟨.number, "0009223372036854775807", default⟩, []⟩ =
        .done (.number (.int 9223372036854775807) (some 0))
          ⟨⟨.number, "0009223372036854775807", default⟩, []⟩ ∧
      (Expr.number (.int 9223372036854775807) .int).cText = "9223372036854775807" ∧
      readInteger? "9223372036854775807".toList = some 9223372036854775807 ∧
      primaryRule ⟨⟨.number, "9223372036854775808", default⟩, []⟩ =
        .failed ⟨.unreadableNumber "9223372036854775808", default⟩
          ⟨⟨.number, "9223372036854775808", default⟩, []⟩ := by
  have hvalue : digitsValue 10 "0009223372036854775807".toList = 9223372036854775807 := by
    decide +kernel
  have habove : digitsValue 10 "9223372036854775808".toList = 9223372036854775808 := by
    decide +kernel
  obtain ⟨hdone, -, htexts⟩ := @primaryRule_integer ⟨.number, "0009223372036854775807", default⟩ rfl
    ⟨by decide, List.all_eq_true.1 (by decide +kernel)⟩ []
  obtain ⟨-, hfailed, -⟩ := @primaryRule_integer ⟨.number, "9223372036854775808", default⟩ rfl
    ⟨by decide, List.all_eq_true.1 (by decide +kernel)⟩ []
  rw [hvalue] at hdone htexts
  rw [habove] at hfailed
  obtain ⟨text, rfl, hdigits, -, hreads⟩ := htexts .int
  have htext : (Expr.number (.int 9223372036854775807) .int).cText = "9223372036854775807" :=
    String.toList_inj.1 (hdigits.trans (by decide +kernel))
  refine ⟨hdone (by decide), htext, ?_, hfailed (by decide)⟩
  rw [← htext]
  exact hreads

/-! ## Floating-point constants -/

namespace C

theorem not_isConstant_inf : ¬ IsConstant ['i', 'n', 'f'] := by
  rintro ⟨whole, fraction, exponent, htext, ⟨hne, hdigits⟩, -⟩
  obtain ⟨c, cs, rfl⟩ := List.exists_cons_of_ne_nil hne
  have hfirst : 'i' = c := (List.cons.inj htext).1
  have hdigit := hdigits c List.mem_cons_self
  rw [← hfirst] at hdigit
  exact absurd hdigit (by decide)

end C

/-- A numeral with a point whose value is too large for a finite floating-point value. -/
def Overflows (numeral : List Char) : Prop :=
  ∃ whole fraction, IsDigits whole ∧ IsDigits fraction ∧ numeral = whole ++ '.' :: fraction ∧
    Binary64.overflow * 10 ^ fraction.length ≤ digitsValue 10 (whole ++ fraction)

theorem not_overflows_of_isDigits {ds : List Char} (h : IsDigits ds) : ¬ Overflows ds := by
  rintro ⟨whole, fraction, -, -, rfl, -⟩
  exact h.not_mem_point (by simp)

theorem overflows_iff {whole fraction : List Char} (h : IsDigits whole) (h' : IsDigits fraction) :
    Overflows (whole ++ '.' :: fraction) ↔
      Binary64.overflow * 10 ^ fraction.length ≤ digitsValue 10 (whole ++ fraction) := by
  refine ⟨?_, fun hle => ⟨whole, fraction, h, h', rfl, hle⟩⟩
  rintro ⟨whole', fraction', hwhole, -, heq, hle⟩
  have hwhole : whole = whole' := by
    have htake := congrArg (List.takeWhile Char.isDigit) heq
    rwa [h.takeWhile_append, hwhole.takeWhile_append,
      List.takeWhile_cons_of_neg (by decide), List.takeWhile_cons_of_neg (by decide),
      List.append_nil, List.append_nil] at htake
  subst hwhole
  cases List.append_cancel_left heq
  exact hle

/-- The text for the number that a numeral denotes is a constant unless the numeral overflows, and
in that case it is a word. -/
theorem Denotes.isConstant_text_iff {numeral : String} {v : Number} (h : Denotes numeral v) :
    (IsConstant v.text.toList ↔ ¬ Overflows numeral.toList) ∧
      (Overflows numeral.toList → v.text = "inf") := by
  cases h with
  | int digits _ =>
    have hconstant : IsConstant (Number.int (Nat.ofDigitChars 10 numeral.toList 0)).text.toList := by
      rw [Number.text, show (Nat.ofDigitChars 10 numeral.toList 0 : Int) = .ofNat _ from rfl,
        toList_repr_ofNat]
      exact .of_digits (isDigits_toDigits _)
    have hnot := not_overflows_of_isDigits digits
    exact ⟨iff_of_true hconstant hnot, fun h => absurd h hnot⟩
  | @float whole fraction digits fractionDigits form =>
    rw [form, overflows_iff digits fractionDigits, ← ofDigitChars_eq_digitsValue,
      ← Binary64.ofDecimal_eq_infinite_iff false]
    rcases Binary64.hasSign_ofDecimal false (Nat.ofDigitChars 10 (whole ++ fraction) 0)
      (-fraction.length) with heq | ⟨m, q, normal, heq⟩
    · rw [heq]
      exact ⟨iff_of_false not_isConstant_inf (fun h => h rfl), fun _ => rfl⟩
    · rw [heq]
      have hne : Binary64.finite false m q normal ≠ .infinite false := by
        intro h
        cases h
      refine ⟨iff_of_true ?_ hne, fun h => absurd h hne⟩
      rw [Number.text, String.toList_ofList]
      exact .magnitude m q

end Chalk
