import Chalk.C.Literal
import Chalk.Token.Escape
import Chalk.Token.Lexeme

/-!
# Literals of plain text

Bytes of plain text are written in C as they are written in the language itself. Each of them is one
escape or one character (`escapeByte_cases`), and from that follows how a literal is cut from a text
and what it denotes.
-/

namespace Chalk.C

/-- Printable ASCII, newline, tab and carriage return. -/
def IsPlainByte (b : UInt8) : Prop :=
  0x20 ≤ b ∧ b ≤ 0x7e ∨ b = 0x0a ∨ b = 0x09 ∨ b = 0x0d

instance (b : UInt8) : Decidable (IsPlainByte b) :=
  inferInstanceAs (Decidable (_ ∨ _))

variable {b : UInt8} {bytes : List UInt8}

theorem toNat_val_ofUInt8 (b : UInt8) : (Char.ofUInt8 b).val.toNat = b.toNat :=
  UInt8.toNat_toUInt32 b

theorem ofUInt8_ne {c : Char} (h : c.val.toNat ≠ b.toNat) : Char.ofUInt8 b ≠ c := by
  rintro rfl
  exact h (toNat_val_ofUInt8 b)

theorem utf8EncodeChar_ofUInt8 (h : b ≤ 0x7e) : String.utf8EncodeChar (Char.ofUInt8 b) = [b] := by
  have hle : b.toNat ≤ 126 := UInt8.le_iff_toNat_le.1 h
  have hascii : b.toNat ≤ 127 := by omega
  simp only [String.utf8EncodeChar, toNat_val_ofUInt8, if_pos hascii, UInt8.ofNat_toNat]

/-- A byte of plain text is written as an escape of its own or as a character of its own. -/
theorem escapeByte_cases (h : IsPlainByte b) :
    (∃ d, escapeByte b = ['\\', d] ∧ d ≠ '\n' ∧ d ≠ 'x' ∧ Escape.simple? d = some b) ∨
      ∃ c, escapeByte b = [c] ∧ c ≠ '\\' ∧ c ≠ '"' ∧ String.utf8EncodeChar c = [b] := by
  unfold escapeByte
  split
  · next hb => exact .inl ⟨'\\', rfl, by decide, by decide, by rw [hb]; rfl⟩
  split
  · next hb => exact .inl ⟨'"', rfl, by decide, by decide, by rw [hb]; rfl⟩
  split
  · next hb => exact .inl ⟨'n', rfl, by decide, by decide, by rw [hb]; rfl⟩
  split
  · next hb => exact .inl ⟨'t', rfl, by decide, by decide, by rw [hb]; rfl⟩
  split
  · next hb => exact .inl ⟨'r', rfl, by decide, by decide, by rw [hb]; rfl⟩
  split
  · next hbackslash hquote _ _ _ hprintable =>
    have hne : ∀ k : UInt8, b ≠ k → k.toNat ≠ b.toNat := fun k hk heq =>
      hk (UInt8.toNat_inj.1 heq.symm)
    exact .inr ⟨Char.ofUInt8 b, rfl, ofUInt8_ne (hne 0x5c hbackslash), ofUInt8_ne (hne 0x22 hquote),
      utf8EncodeChar_ofUInt8 hprintable.2⟩
  · next hnewline htab hreturn hprintable =>
    rcases h with h | h | h | h
    · exact absurd h hprintable
    · exact absurd h hnewline
    · exact absurd h htab
    · exact absurd h hreturn

theorem unescape_escapeByte (h : IsPlainByte b) (cs : List Char) :
    unescape (escapeByte b ++ cs) = b :: unescape cs := by
  rcases escapeByte_cases h with ⟨d, heq, -, hx, hsimple⟩ | ⟨c, heq, hbackslash, -, hencode⟩
  · rw [heq, List.cons_append, List.cons_append, List.nil_append, unescape]
    simp [Escape.item, hx, hsimple]
  · rw [heq, List.cons_append, List.nil_append, unescape]
    simp [Escape.item, hbackslash, hencode]

/-- Plain text is denoted by its own literal. -/
theorem unescape_escape (h : ∀ b ∈ bytes, IsPlainByte b) : unescape (escape bytes) = bytes := by
  induction bytes with
  | nil => simp [escape, unescape]
  | cons b bytes ih =>
    obtain ⟨hb, hbytes⟩ := List.forall_mem_cons.1 h
    rw [escape, List.flatMap_cons, unescape_escapeByte hb, ← escape, ih hbytes]

theorem cutClosed?_escapeByte (h : IsPlainByte b) {cs inside rest : List Char}
    (hcut : Lexeme.cutClosed? cs = some (inside, rest)) :
    Lexeme.cutClosed? (escapeByte b ++ cs) = some (escapeByte b ++ inside, rest) := by
  rcases escapeByte_cases h with ⟨d, heq, hnewline, -, -⟩ | ⟨c, heq, hbackslash, hquote, -⟩
  · rw [heq]
    exact Lexeme.cutClosed?_pair hnewline hcut
  · rw [heq]
    exact Lexeme.cutClosed?_plain hquote hbackslash hcut

/-- A literal of plain text ends at its own quote. -/
theorem cutClosed?_escape (h : ∀ b ∈ bytes, IsPlainByte b) (rest : List Char) :
    Lexeme.cutClosed? (escape bytes ++ '"' :: rest) = some (escape bytes ++ ['"'], rest) := by
  induction bytes with
  | nil => rfl
  | cons b bytes ih =>
    obtain ⟨hb, hbytes⟩ := List.forall_mem_cons.1 h
    rw [escape, List.flatMap_cons, List.append_assoc, List.append_assoc]
    exact cutClosed?_escapeByte hb (ih hbytes)

end Chalk.C
