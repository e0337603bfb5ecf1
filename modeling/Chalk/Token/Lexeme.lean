import Chalk.Text.Blank
import Chalk.Text.Utf8
import Chalk.Token.Basic

/-!
Lexemes: the pieces into which a source text is cut. A piece belongs to one of an ordered list of
classes, and the first class that has a piece at the start of the text gives the next one. A piece
is never empty, and with what follows it makes up the text: `Class.append_of_cut?` and
`Class.ne_nil_of_cut?`.
-/

namespace Chalk.Lexeme

/-- Whether a character can begin a name. -/
def isNameStart (c : Char) : Bool :=
  c.isAlpha || c == '_'

/-- Whether a character can go on a name. -/
def isNamePart (c : Char) : Bool :=
  c.isAlphanum || c == '_'

/-- Cuts off a name. -/
def cutName? : List Char → Option (List Char × List Char)
  | [] => none
  | c :: cs =>
    if isNameStart c then some (c :: cs.takeWhile isNamePart, cs.dropWhile isNamePart) else none

/-- Cuts off digits and, when a point with a digit behind it follows, the point and its digits. -/
def cutNumber? (cs : List Char) : Option (List Char × List Char) :=
  match cs.takeWhile Char.isDigit, cs.dropWhile Char.isDigit with
  | [], _ => none
  | whole, '.' :: rest =>
    match rest.takeWhile Char.isDigit with
    | [] => some (whole, '.' :: rest)
    | fraction => some (whole ++ '.' :: fraction, rest.dropWhile Char.isDigit)
  | whole, rest => some (whole, rest)

/-- Cuts off white space. -/
def cutBlank? : List Char → Option (List Char × List Char)
  | [] => none
  | c :: cs =>
    if Text.isBlank c then some (c :: cs.takeWhile Text.isBlank, cs.dropWhile Text.isBlank)
    else none

/-- Cuts off what goes up to and including the quote that closes a string. A backslash takes the
next character with it, and that character is not a newline. -/
def cutClosed? : List Char → Option (List Char × List Char)
  | [] => none
  | '"' :: cs => some (['"'], cs)
  | ['\\'] => none
  | '\\' :: c :: cs =>
    if c = '\n' then none
    else (cutClosed? cs).map fun (inside, rest) => ('\\' :: c :: inside, rest)
  | c :: cs => (cutClosed? cs).map fun (inside, rest) => (c :: inside, rest)

/-- Cuts off a string with its quotes. -/
def cutString? : List Char → Option (List Char × List Char)
  | '"' :: cs => (cutClosed? cs).map fun (inside, rest) => ('"' :: inside, rest)
  | _ => none

/-- Cuts off a comment: two slashes and the rest of the line. -/
def cutComment? : List Char → Option (List Char × List Char)
  | '/' :: '/' :: cs =>
    some ('/' :: '/' :: cs.takeWhile (· != '\n'), cs.dropWhile (· != '\n'))
  | _ => none

/-- The text that a pattern stands for. A backslash makes the character behind it stand for
itself. -/
def patternText : List Char → List Char
  | [] => []
  | '\\' :: c :: cs => c :: patternText cs
  | c :: cs => c :: patternText cs

/-- Cuts off what a pattern stands for. -/
def cutPattern? (pattern cs : List Char) : Option (List Char × List Char) :=
  let text := patternText pattern
  if text.isPrefixOf cs then some (text, cs.drop text.length) else none

/-- Names, numbers, blanks, strings, comments, and the signs one by one. -/
inductive Class where
  | name
  | number
  | blank
  | string
  | comment
  | sign (s : Sign)
deriving DecidableEq, Repr, Inhabited

namespace Class

/-- Every class, in the order in which they are tried. -/
def all : List Class :=
  [name, number, blank, string, comment] ++ Sign.all.map sign

/-- The piece of a class at the start of a text, and what follows it. -/
def cut? : Class → List Char → Option (List Char × List Char)
  | name, cs => cutName? cs
  | number, cs => cutNumber? cs
  | blank, cs => cutBlank? cs
  | string, cs => cutString? cs
  | comment, cs => cutComment? cs
  | sign s, cs => cutPattern? s.pattern cs

/-- The token that a piece stands for. Blanks and comments stand for none. -/
def token? (k : Class) (text : List Char) (span : Span) : Option Token :=
  match k with
  | name =>
    let word := String.ofList text
    some { kind := .ofWord word, value := word, span }
  | number => some { kind := .number, value := String.ofList text, span }
  | blank => none
  | string => some { kind := .string, value := String.ofList text.tail.dropLast, span }
  | comment => none
  | sign s => some { kind := .sign s, value := String.ofList s.spelling, span }

/-- The number of bytes to go over a piece. For a sign it is that of its spelling, whatever its
pattern has cut off. -/
def stride (k : Class) (text : List Char) : Nat :=
  match k with
  | sign s => Text.utf8Length s.spelling
  | _ => Text.utf8Length text

end Class

/-! ## Pieces make up the text -/

theorem patternText_pattern (s : Sign) : patternText s.pattern = s.spelling := by
  cases s <;> rfl

/-- A sign is cut off as it is spelt. -/
theorem cutPattern?_eq_some_iff {s : Sign} {cs text rest : List Char} :
    cutPattern? s.pattern cs = some (text, rest) ↔ text = s.spelling ∧ text ++ rest = cs := by
  simp only [cutPattern?, patternText_pattern, Option.ite_none_right_eq_some, Option.some.injEq,
    Prod.mk.injEq, List.isPrefixOf_iff_prefix]
  constructor
  · rintro ⟨hbegins, rfl, rfl⟩
    exact ⟨rfl, List.prefix_iff_eq_append.1 hbegins⟩
  · rintro ⟨rfl, rfl⟩
    exact ⟨List.prefix_append _ _, rfl, List.drop_left⟩

theorem append_of_cutClosed? {cs inside rest : List Char}
    (h : cutClosed? cs = some (inside, rest)) : inside ++ rest = cs := by
  fun_induction cutClosed? cs generalizing inside with
  | case1 => simp at h
  | case2 cs =>
    cases h
    rfl
  | case3 => simp at h
  | case4 => simp at h
  | case5 c cs _ ih =>
    obtain ⟨⟨i, r⟩, hi, heq⟩ := Option.map_eq_some_iff.1 h
    cases heq
    simp [ih hi]
  | case6 c cs _ _ _ ih =>
    obtain ⟨⟨i, r⟩, hi, heq⟩ := Option.map_eq_some_iff.1 h
    cases heq
    simp [ih hi]

/-- A character that neither closes a string nor starts an escape is passed over. -/
theorem cutClosed?_plain {c : Char} {cs inside rest : List Char} (hquote : c ≠ '"')
    (hbackslash : c ≠ '\\') (h : cutClosed? cs = some (inside, rest)) :
    cutClosed? (c :: cs) = some (c :: inside, rest) := by
  rw [cutClosed?, h]
  · rfl
  · simpa using hquote
  · simp [hbackslash]
  · simp [hbackslash]

theorem cutClosed?_pair {c : Char} {cs inside rest : List Char} (hnewline : c ≠ '\n')
    (h : cutClosed? cs = some (inside, rest)) :
    cutClosed? ('\\' :: c :: cs) = some ('\\' :: c :: inside, rest) := by
  rw [cutClosed?, if_neg hnewline, h]
  rfl

theorem append_of_cutNumber? {cs text rest : List Char}
    (h : cutNumber? cs = some (text, rest)) : text ++ rest = cs ∧ text ≠ [] := by
  have hcs := List.takeWhile_append_dropWhile (p := Char.isDigit) (l := cs)
  unfold cutNumber? at h
  split at h
  · simp at h
  · rename_i whole after hwhole hne heq
    have hfr := List.takeWhile_append_dropWhile (p := Char.isDigit) (l := after)
    split at h <;> cases h <;> simp_all
  · cases h
    simp_all

namespace Class

theorem append_of_cut? {k : Class} {cs text rest : List Char}
    (h : k.cut? cs = some (text, rest)) : text ++ rest = cs := by
  cases k with
  | name =>
    cases cs <;> simp only [cut?, cutName?] at h
    · simp at h
    · split at h <;> simp at h
      obtain ⟨rfl, rfl⟩ := h
      simp
  | number => exact (append_of_cutNumber? h).1
  | blank =>
    cases cs <;> simp only [cut?, cutBlank?] at h
    · simp at h
    · split at h <;> simp at h
      obtain ⟨rfl, rfl⟩ := h
      simp
  | string =>
    simp only [cut?, cutString?] at h
    split at h
    · obtain ⟨⟨i, r⟩, hi, heq⟩ := Option.map_eq_some_iff.1 h
      cases heq
      simp [append_of_cutClosed? hi]
    · simp at h
  | comment =>
    simp only [cut?, cutComment?] at h
    split at h <;> simp at h
    obtain ⟨rfl, rfl⟩ := h
    simp
  | sign s => exact (cutPattern?_eq_some_iff.1 h).2

theorem ne_nil_of_cut? {k : Class} {cs text rest : List Char}
    (h : k.cut? cs = some (text, rest)) : text ≠ [] := by
  cases k with
  | name =>
    cases cs <;> simp only [cut?, cutName?] at h
    · simp at h
    · split at h <;> simp at h
      simp [← h.1]
  | number => exact (append_of_cutNumber? h).2
  | blank =>
    cases cs <;> simp only [cut?, cutBlank?] at h
    · simp at h
    · split at h <;> simp at h
      simp [← h.1]
  | string =>
    simp only [cut?, cutString?] at h
    split at h
    · obtain ⟨⟨i, r⟩, hi, heq⟩ := Option.map_eq_some_iff.1 h
      cases heq
      simp
    · simp at h
  | comment =>
    simp only [cut?, cutComment?] at h
    split at h <;> simp at h
    simp [← h.1]
  | sign s => exact (cutPattern?_eq_some_iff.1 h).1 ▸ s.spelling_ne_nil

theorem stride_of_cut? {k : Class} {cs text rest : List Char}
    (h : k.cut? cs = some (text, rest)) : k.stride text = Text.utf8Length text := by
  cases k with
  | name | number | blank | string | comment => rfl
  | sign s => exact congrArg Text.utf8Length (cutPattern?_eq_some_iff.1 h).1.symm

end Class

end Chalk.Lexeme

namespace Chalk

/-- A piece cut from the start of a text. -/
structure Lexeme where
  cls : Lexeme.Class
  text : List Char
deriving DecidableEq, Repr, Inhabited

namespace Lexeme

/-- The first class, in order, that has a piece at the start of a text: that piece, and what follows
it. -/
def first? (cs : List Char) : Option (Lexeme × List Char) :=
  Class.all.findSome? fun k => (k.cut? cs).map fun (text, rest) => (⟨k, text⟩, rest)

theorem cut?_of_first? {cs rest : List Char} {x : Lexeme} (h : first? cs = some (x, rest)) :
    x.cls.cut? cs = some (x.text, rest) := by
  obtain ⟨k, _, hk⟩ := List.exists_of_findSome?_eq_some h
  obtain ⟨⟨t, r⟩, ht, heq⟩ := Option.map_eq_some_iff.1 hk
  cases heq
  exact ht

theorem append_of_first? {cs rest : List Char} {x : Lexeme} (h : first? cs = some (x, rest)) :
    x.text ++ rest = cs :=
  Class.append_of_cut? (cut?_of_first? h)

theorem length_lt_of_first? {cs rest : List Char} {x : Lexeme}
    (h : first? cs = some (x, rest)) : rest.length < cs.length := by
  have hne := List.length_pos_iff.2 (Class.ne_nil_of_cut? (cut?_of_first? h))
  have := congrArg List.length (append_of_first? h)
  simp at this
  omega

end Lexeme

end Chalk
