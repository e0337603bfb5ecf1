import Chalk.Tree.Number

/-!
# What a number token denotes

The lexical form of numbers (`IsNumeral`) and the number that a text of that form denotes
(`Denotes`), said without the reader. On this form the reader gives exactly the number denoted:
`Denotes.read?` and `Denotes.of_read?`. The reader knows further forms, such as a sign or an
exponent, which are no numerals.
-/

namespace Chalk

/-- The characters of a nonempty row of decimal digits. -/
def IsDigits (cs : List Char) : Prop :=
  cs ≠ [] ∧ ∀ c ∈ cs, c.isDigit = true

/-- The form in which numbers are written: digits, or digits, a point and digits. -/
def IsNumeral (cs : List Char) : Prop :=
  IsDigits cs ∨ ∃ whole fraction, IsDigits whole ∧ IsDigits fraction ∧ cs = whole ++ '.' :: fraction

/-- The number that a text denotes. Without a point it is an integer, which has to be at most
`2 ^ 63 - 1`; with one it is the nearest floating-point value. -/
inductive Denotes : String → Number → Prop
  | int {text : String} (digits : IsDigits text.toList)
      (fits : Nat.ofDigitChars 10 text.toList 0 ≤ 9223372036854775807) :
      Denotes text (.int (Nat.ofDigitChars 10 text.toList 0))
  | float {text : String} {whole fraction : List Char} (digits : IsDigits whole)
      (fractionDigits : IsDigits fraction) (form : text.toList = whole ++ '.' :: fraction) :
      Denotes text
        (.float (.ofDecimal false (Nat.ofDigitChars 10 (whole ++ fraction) 0) (-fraction.length)))

namespace IsDigits

variable {cs : List Char}

theorem not_mem_point (h : IsDigits cs) : '.' ∉ cs := by
  intro hmem
  exact absurd (h.2 _ hmem) (by decide)

theorem takeWhile_append (h : IsDigits cs) (rest : List Char) :
    (cs ++ rest).takeWhile Char.isDigit = cs ++ rest.takeWhile Char.isDigit := by
  rw [List.takeWhile_append_of_pos h.2]

theorem dropWhile_append (h : IsDigits cs) (rest : List Char) :
    (cs ++ rest).dropWhile Char.isDigit = rest.dropWhile Char.isDigit := by
  rw [List.dropWhile_append_of_pos h.2]

/-- Digits begin with no sign. -/
theorem cutSign_append (h : IsDigits cs) (rest : List Char) :
    Decimal.cutSign (cs ++ rest) = (false, cs ++ rest) := by
  obtain ⟨hne, hall⟩ := h
  cases cs with
  | nil => exact absurd rfl hne
  | cons c cs =>
    have hc := hall c (List.mem_cons_self ..)
    unfold Decimal.cutSign
    split
    · next heq => cases heq; exact absurd hc (by decide)
    · next heq => cases heq; exact absurd hc (by decide)
    · rfl

theorem readInt?_eq (h : IsDigits cs) :
    Decimal.readInt? cs = some (Nat.ofDigitChars 10 cs 0 : Int) := by
  have hsign := h.cutSign_append []
  rw [List.append_nil] at hsign
  have hall : cs.all Char.isDigit = true := List.all_eq_true.2 h.2
  simp [Decimal.readInt?, hsign, Decimal.readNat?, h.1, hall]

/-- An integer is read if and only if it fits. -/
theorem readInt64?_eq (h : IsDigits cs) :
    Decimal.readInt64? cs =
      if Nat.ofDigitChars 10 cs 0 ≤ 9223372036854775807 then some (Nat.ofDigitChars 10 cs 0 : Int)
      else none := by
  have hfits : Decimal.fitsInt64 (Nat.ofDigitChars 10 cs 0 : Int) =
      decide (Nat.ofDigitChars 10 cs 0 ≤ 9223372036854775807) := by
    rw [Bool.eq_iff_iff]
    simp only [Decimal.fitsInt64, Bool.and_eq_true, decide_eq_true_eq]
    omega
  rw [Decimal.readInt64?, h.readInt?_eq, Option.filter_some, hfits]
  simp only [decide_eq_true_eq]

theorem readMagnitude?_eq {fraction : List Char} (h : IsDigits cs) (hf : IsDigits fraction) :
    Decimal.readMagnitude? false (cs ++ '.' :: fraction) =
      some (.ofDecimal false (Nat.ofDigitChars 10 (cs ++ fraction) 0) (-fraction.length)) := by
  have hpoint : Char.isDigit '.' = false := by decide
  have hwhole : (cs ++ '.' :: fraction).takeWhile Char.isDigit = cs := by
    rw [h.takeWhile_append, List.takeWhile_cons_of_neg (by simp [hpoint]), List.append_nil]
  have hrest : (cs ++ '.' :: fraction).dropWhile Char.isDigit = '.' :: fraction := by
    rw [h.dropWhile_append, List.dropWhile_cons_of_neg (by simp [hpoint])]
  have hfraction : fraction.takeWhile Char.isDigit = fraction := by
    simpa using hf.takeWhile_append []
  have hnone : fraction.dropWhile Char.isDigit = [] := by
    simpa using hf.dropWhile_append []
  simp [Decimal.readMagnitude?, hwhole, hrest, hfraction, hnone, h.1, Decimal.readExponent?]

/-- Digits with a point among them are always read. -/
theorem readFloat?_eq {fraction : List Char} (h : IsDigits cs) (hf : IsDigits fraction) :
    Decimal.readFloat? (cs ++ '.' :: fraction) =
      some (.ofDecimal false (Nat.ofDigitChars 10 (cs ++ fraction) 0) (-fraction.length)) := by
  -- a word has no point
  have hword : ∀ word : List Char, '.' ∉ word → cs ++ '.' :: fraction ≠ word := by
    rintro _ hw rfl
    exact hw (by simp)
  rw [Decimal.readFloat?, h.cutSign_append]
  simp only [if_neg (hword ['i', 'n', 'f'] (by decide)), if_neg (hword ['N', 'a', 'N'] (by decide)),
    h.readMagnitude?_eq hf]

end IsDigits

namespace Denotes

variable {text : String} {v : Number}

theorem read? (h : Denotes text v) : Number.read? text = some v := by
  cases h with
  | int digits fits =>
    rw [Number.read?, if_neg digits.not_mem_point, digits.readInt64?_eq, if_pos fits]
    rfl
  | float digits fractionDigits form =>
    simp [Number.read?, form, digits.readFloat?_eq fractionDigits]

theorem of_read? (form : IsNumeral text.toList) (h : Number.read? text = some v) :
    Denotes text v := by
  rcases form with digits | ⟨whole, fraction, digits, fractionDigits, form⟩
  · rw [Number.read?, if_neg digits.not_mem_point, digits.readInt64?_eq] at h
    split at h
    · next fits =>
      cases h
      exact .int digits fits
    · cases h
  · rw [Number.read?, if_pos (by simp [form]), form, digits.readFloat?_eq fractionDigits] at h
    cases h
    exact .float digits fractionDigits form

end Denotes

end Chalk
