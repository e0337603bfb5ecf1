import Chalk.C.Expr
import Chalk.Proofs.C.Literal

/-!
# What a literal denotes in C

C reads the inside of a string literal from left to right: a backslash starts an escape, which is
one of a few letters or as many octal digits as there are, up to three, and every other character
but the quote stands for itself. The bytes that are read from the literal for some bytes are those
bytes (`readInside?_escape`), whatever follows each of them, since an octal escape is always written
with all three of its digits.
-/

namespace Chalk.C

/-! ## Reading a literal -/

/-- The byte of a backslash and one letter. -/
def simpleEscape? (c : Char) : Option UInt8 :=
  if c = '\\' then some 0x5c
  else if c = '"' then some 0x22
  else if c = 'n' then some 0x0a
  else if c = 't' then some 0x09
  else if c = 'r' then some 0x0d
  else none

def isOctalDigit (c : Char) : Bool :=
  '0' ≤ c ∧ c ≤ '7'

/-- The value of the octal digits at the start of a text, behind digits of the given value, and what
follows them. No more than `n` digits are taken. -/
def readOctal : (n value : Nat) → List Char → Nat × List Char
  | 0, value, cs => (value, cs)
  | _ + 1, value, [] => (value, [])
  | n + 1, value, c :: cs =>
    if isOctalDigit c then readOctal n (8 * value + (c.toNat - '0'.toNat)) cs
    else (value, c :: cs)

/-- The byte of the escape whose backslash was passed, and what follows it. An octal escape has to
fit into a byte. -/
def readEscape? : List Char → Option (UInt8 × List Char)
  | [] => none
  | c :: cs =>
    match simpleEscape? c with
    | some b => some (b, cs)
    | none =>
      let octal := readOctal 3 0 (c :: cs)
      if isOctalDigit c ∧ octal.1 < 256 then some (.ofNat octal.1, octal.2) else none

theorem length_readOctal (n value : Nat) (cs : List Char) :
    (readOctal n value cs).2.length ≤ cs.length := by
  induction n generalizing value cs with
  | zero => exact Nat.le_refl _
  | succ n ih =>
    cases cs with
    | nil => exact Nat.le_refl _
    | cons c cs =>
      rw [readOctal]
      split
      · exact Nat.le_succ_of_le (ih _ cs)
      · exact Nat.le_refl _

theorem length_of_readEscape? {cs rest : List Char} {b : UInt8}
    (h : readEscape? cs = some (b, rest)) : rest.length ≤ cs.length := by
  unfold readEscape? at h
  split at h
  · cases h
  · split at h
    · cases h
      exact Nat.le_succ _
    · dsimp only at h
      split at h
      · cases h
        exact length_readOctal ..
      · cases h

/-- The bytes up to the first quote that is not escaped, or up to the end of the text, and what is
left from there on. An escape that C does not know ends the reading without a result. -/
def readInside? : List Char → Option (List UInt8 × List Char)
  | [] => some ([], [])
  | c :: cs =>
    if c = '"' then some ([], c :: cs)
    else if c = '\\' then
      match h : readEscape? cs with
      | none => none
      | some (b, rest) =>
        have : rest.length ≤ cs.length := length_of_readEscape? h
        (readInside? rest).map fun r => (b :: r.1, r.2)
    else (readInside? cs).map fun r => (String.utf8EncodeChar c ++ r.1, r.2)
termination_by cs => cs.length

/-- The bytes of the literal at the start of a text, and what follows its closing quote. -/
def readLiteral? : List Char → Option (List UInt8 × List Char)
  | '"' :: cs =>
    match readInside? cs with
    | some (bytes, '"' :: rest) => some (bytes, rest)
    | _ => none
  | _ => none

/-! ## One byte -/

theorem readInside?_backslash {cs rest : List Char} {b : UInt8}
    (h : readEscape? cs = some (b, rest)) :
    readInside? ('\\' :: cs) = (readInside? rest).map fun r => (b :: r.1, r.2) := by
  rw [readInside?, if_neg (by decide), if_pos rfl]
  split
  · next heq => rw [h] at heq; cases heq
  · next heq => rw [h] at heq; cases heq; rfl

theorem toNat_octalDigit (b : UInt8) : (octalDigit b).toNat = 48 + b.toNat % 8 := by
  have hmod : (b % 8).toNat = b.toNat % 8 := UInt8.toNat_mod ..
  have hsum : (0x30 + b % 8).toNat = 48 + b.toNat % 8 := by
    rw [UInt8.toNat_add, hmod]
    show (48 + b.toNat % 8) % 256 = _
    omega
  exact (toNat_val_ofUInt8 _).trans hsum

theorem isOctalDigit_octalDigit (b : UInt8) : isOctalDigit (octalDigit b) = true := by
  have hcode := toNat_octalDigit b
  simp only [isOctalDigit, Char.le_def, UInt32.le_iff_toNat_le, decide_eq_true_eq]
  show 48 ≤ (octalDigit b).toNat ∧ (octalDigit b).toNat ≤ 55
  omega

theorem octalDigit_ne {c : Char} (h : isOctalDigit c = false) (b : UInt8) : octalDigit b ≠ c := by
  rintro rfl
  rw [isOctalDigit_octalDigit] at h
  cases h

theorem simpleEscape?_octalDigit (b : UInt8) : simpleEscape? (octalDigit b) = none := by
  rw [simpleEscape?, if_neg (octalDigit_ne rfl b), if_neg (octalDigit_ne rfl b),
    if_neg (octalDigit_ne rfl b), if_neg (octalDigit_ne rfl b), if_neg (octalDigit_ne rfl b)]

theorem readOctal_octalDigit (n value : Nat) (b : UInt8) (cs : List Char) :
    readOctal (n + 1) value (octalDigit b :: cs) = readOctal n (8 * value + b.toNat % 8) cs := by
  rw [readOctal, if_pos (isOctalDigit_octalDigit b), toNat_octalDigit]
  congr 2
  show 48 + b.toNat % 8 - 48 = _
  omega

/-- Three digits end an octal escape, also in front of a fourth. -/
theorem readEscape?_octal (b : UInt8) (cs : List Char) :
    readEscape? (octalDigit (b / 64) :: octalDigit (b / 8) :: octalDigit b :: cs) =
      some (b, cs) := by
  have hlt : b.toNat < 256 := b.toNat_lt
  have hvalue : 8 * (8 * (8 * 0 + (b / 64).toNat % 8) + (b / 8).toNat % 8) + b.toNat % 8 =
      b.toNat := by
    rw [UInt8.toNat_div, UInt8.toNat_div]
    show 8 * (8 * (8 * 0 + b.toNat / 64 % 8) + b.toNat / 8 % 8) + b.toNat % 8 = _
    omega
  have hoctal : readOctal 3 0 (octalDigit (b / 64) :: octalDigit (b / 8) :: octalDigit b :: cs) =
      (b.toNat, cs) := by
    rw [readOctal_octalDigit, readOctal_octalDigit, readOctal_octalDigit, hvalue, readOctal]
  simp only [readEscape?, simpleEscape?_octalDigit, hoctal]
  rw [if_pos ⟨isOctalDigit_octalDigit _, hlt⟩, UInt8.ofNat_toNat]

-- with fewer digits the escape goes on as far as it can
example : readEscape? ['0', '7', '8'] = some (7, ['8']) := by decide

theorem escapeByte_of_not_isPlainByte {b : UInt8} (h : ¬ IsPlainByte b) :
    escapeByte b = ['\\', octalDigit (b / 64), octalDigit (b / 8), octalDigit b] := by
  have hne : ∀ k : UInt8, IsPlainByte k → b ≠ k := fun k hk heq => h (heq ▸ hk)
  rw [escapeByte, if_neg (hne _ (by decide)), if_neg (hne _ (by decide)),
    if_neg (hne _ (by decide)), if_neg (hne _ (by decide)), if_neg (hne _ (by decide)),
    if_neg fun hprintable => h (.inl hprintable)]

/-- The letters that C knows mean in C what they mean in the language. -/
theorem simpleEscape?_of_simple? {c : Char} {b : UInt8} (h : Escape.simple? c = some b)
    (hb : b ≠ 0) : simpleEscape? c = some b := by
  unfold Escape.simple? at h
  unfold simpleEscape?
  grind

theorem readInside?_escapeByte (b : UInt8) (cs : List Char) :
    readInside? (escapeByte b ++ cs) =
      (readInside? cs).map fun r => (b :: r.1, r.2) := by
  by_cases hplain : IsPlainByte b
  · rcases escapeByte_cases hplain with ⟨d, heq, -, -, hsimple⟩ | ⟨c, heq, hbackslash, hquote, hutf⟩
    · have hb : b ≠ 0 := by
        rintro rfl
        exact absurd hplain (by decide)
      have hread : readEscape? (d :: cs) = some (b, cs) := by
        rw [readEscape?, simpleEscape?_of_simple? hsimple hb]
      rw [heq]
      exact readInside?_backslash hread
    · rw [heq, List.cons_append, readInside?, if_neg hquote, if_neg hbackslash, hutf]
      rfl
  · rw [escapeByte_of_not_isPlainByte hplain]
    exact readInside?_backslash (readEscape?_octal b cs)

/-! ## The whole literal -/

/-- Behind the literal for some bytes, C has read those bytes. -/
theorem readInside?_escape (bytes : List UInt8) (cs : List Char) :
    readInside? (escape bytes ++ cs) =
      (readInside? cs).map fun r => (bytes ++ r.1, r.2) := by
  induction bytes with
  | nil =>
    show readInside? cs = _
    cases readInside? cs <;> rfl
  | cons b bytes ih =>
    rw [escape, List.flatMap_cons, List.append_assoc, readInside?_escapeByte, ← escape, ih,
      Option.map_map]
    rfl

theorem readLiteral?_escape (bytes : List UInt8) (rest : List Char) :
    readLiteral? ('"' :: (escape bytes ++ '"' :: rest)) = some (bytes, rest) := by
  have hquote : readInside? ('"' :: rest) = some ([], '"' :: rest) := by
    rw [readInside?, if_pos rfl]
  have hinside : readInside? (escape bytes ++ '"' :: rest) = some (bytes, '"' :: rest) := by
    rw [readInside?_escape, hquote]
    simp
  simp only [readLiteral?, hinside]

def IsPrintable (c : Char) : Prop :=
  ' ' ≤ c ∧ c ≤ '~'

instance (c : Char) : Decidable (IsPrintable c) :=
  inferInstanceAs (Decidable (_ ∧ _))

theorem isPrintable_iff {c : Char} : IsPrintable c ↔ 32 ≤ c.toNat ∧ c.toNat ≤ 126 := by
  simp only [IsPrintable, Char.le_def, UInt32.le_iff_toNat_le]
  rfl

theorem isPrintable_octalDigit (b : UInt8) : IsPrintable (octalDigit b) := by
  rw [isPrintable_iff, toNat_octalDigit]
  omega

theorem isPrintable_of_mem_escapeByte {b : UInt8} {c : Char} (h : c ∈ escapeByte b) :
    IsPrintable c := by
  have hpair : ∀ d : Char, IsPrintable d → c ∈ ['\\', d] → IsPrintable c := by
    intro d hd hc
    rcases List.mem_cons.1 hc with rfl | hc
    · decide
    · exact List.mem_singleton.1 hc ▸ hd
  unfold escapeByte at h
  split at h
  · exact hpair _ (by decide) h
  split at h
  · exact hpair _ (by decide) h
  split at h
  · exact hpair _ (by decide) h
  split at h
  · exact hpair _ (by decide) h
  split at h
  · exact hpair _ (by decide) h
  split at h
  · next hprintable =>
    obtain rfl := List.mem_singleton.1 h
    have hcode : (Char.ofUInt8 b).toNat = b.toNat := toNat_val_ofUInt8 b
    rw [isPrintable_iff, hcode]
    exact ⟨UInt8.le_iff_toNat_le.1 hprintable.1, UInt8.le_iff_toNat_le.1 hprintable.2⟩
  · simp only [List.mem_cons, List.not_mem_nil, or_false] at h
    rcases h with rfl | rfl | rfl | rfl
    · decide
    · exact isPrintable_octalDigit _
    · exact isPrintable_octalDigit _
    · exact isPrintable_octalDigit _

theorem isPrintable_of_mem_escape {bytes : List UInt8} {c : Char} (h : c ∈ escape bytes) :
    IsPrintable c := by
  obtain ⟨b, _, hc⟩ := List.mem_flatMap.1 h
  exact isPrintable_of_mem_escapeByte hc

/-- C reads the bytes of a string from the inside of its literal and comes to the end of it, having
met no quote and no unknown escape. The literal is printable, so it lies on one line, and in front
of any text C closes it at its last quote. -/
theorem cText_string_denotes (bytes : List UInt8) (ty : Ty) :
    readInside? (escape bytes) = some (bytes, []) ∧
      (∀ c ∈ escape bytes, IsPrintable c) ∧
      '\n' ∉ (Expr.string bytes ty).cText.toList ∧
      ∀ rest, readLiteral? ((Expr.string bytes ty).cText.toList ++ rest) = some (bytes, rest) := by
  have htext : (Expr.string bytes ty).cText.toList = '"' :: (escape bytes ++ ['"']) := by
    simp [Expr.cText]
  refine ⟨?_, fun c hc => isPrintable_of_mem_escape hc, fun hnewline => ?_, fun rest => ?_⟩
  · have hend : readInside? [] = some ([], []) := by rw [readInside?]
    have hread := readInside?_escape bytes []
    rw [List.append_nil, hend] at hread
    simpa using hread
  · have hprintable : IsPrintable '\n' := by
      rw [htext, List.mem_cons, List.mem_append] at hnewline
      rcases hnewline with hquote | hinside | hquote
      · exact absurd hquote (by decide)
      · exact isPrintable_of_mem_escape hinside
      · exact absurd hquote (by decide)
    exact absurd hprintable (by decide)
  · rw [htext, List.cons_append, List.append_assoc]
    exact readLiteral?_escape bytes rest

end Chalk.C
