/-!
The UTF-8 form of a text. Offsets into a source count bytes of this form, and string data are bytes,
so both the bytes of a list of characters and their number are needed.
-/

namespace Chalk.Text

/-- The bytes of a text in UTF-8. -/
def utf8 (cs : List Char) : List UInt8 :=
  cs.flatMap String.utf8EncodeChar

/-- The number of bytes of a text in UTF-8. -/
def utf8Length : List Char → Nat
  | [] => 0
  | c :: cs => c.utf8Size + utf8Length cs

@[simp] theorem utf8Length_nil : utf8Length [] = 0 := rfl

@[simp] theorem utf8Length_cons (c : Char) (cs : List Char) :
    utf8Length (c :: cs) = c.utf8Size + utf8Length cs := rfl

@[simp] theorem utf8Length_append (cs ds : List Char) :
    utf8Length (cs ++ ds) = utf8Length cs + utf8Length ds := by
  induction cs with
  | nil => simp
  | cons c cs ih => simp [ih, Nat.add_assoc]

theorem length_utf8 (cs : List Char) : (utf8 cs).length = utf8Length cs := by
  induction cs with
  | nil => rfl
  | cons c cs ih => simp_all [utf8]

/-- Cuts a text after the given number of bytes, or at its end when it has fewer. There is no cut
inside a character. -/
def splitAtByte? : Nat → List Char → Option (List Char × List Char)
  | 0, cs => some ([], cs)
  | _ + 1, [] => some ([], [])
  | n + 1, c :: cs =>
    if n + 1 < c.utf8Size then none
    else (splitAtByte? (n + 1 - c.utf8Size) cs).map fun (before, after) => (c :: before, after)

/-- There is a cut behind every text. -/
theorem splitAtByte?_utf8Length (cs ds : List Char) :
    splitAtByte? (utf8Length cs) (cs ++ ds) = some (cs, ds) := by
  induction cs with
  | nil => simp [splitAtByte?]
  | cons c cs ih =>
    have hpos := c.utf8Size_pos
    obtain ⟨n, hn⟩ : ∃ n, c.utf8Size + utf8Length cs = n + 1 :=
      ⟨c.utf8Size + utf8Length cs - 1, by omega⟩
    have hrest : n + 1 - c.utf8Size = utf8Length cs := by omega
    rw [utf8Length_cons, List.cons_append, hn, splitAtByte?, if_neg (by omega), hrest, ih]
    rfl

/-- Reads a list of bytes as UTF-8. -/
def ofUtf8? (bytes : List UInt8) : Option String :=
  String.fromUTF8? ⟨bytes.toArray⟩

end Chalk.Text
