import Chalk.Proofs.Grammar.Numeral
import Chalk.Proofs.Text.Lines
import Chalk.Token.Lexeme
import Mathlib.Data.List.Infix

/-!
# The pieces of each class

What a class cuts off, said without cutting: a piece has the form of its class (`Class.Forms`), and
what follows does not go on with it (`Class.Ends`). That is all (`Class.cut?_eq_some_iff`), so a
piece stays the same when what follows it is changed, as long as it ends there
(`first?_of_ends`). Whether a class has a piece at all is a matter of how the text begins
(`Class.Begins`), where only a string looks further than two characters. At most one class that is
no sign has a piece, and it is the piece that comes first (`first?_of_cut?`).
-/

namespace Chalk

/-! ## The insides of strings -/

namespace Literal

/-- Text between two quotes. Each quote and each backslash in it belongs to a pair of a backslash
and a character behind it, and that character is not a newline. -/
inductive Inside : List Char → Prop
  | nil : Inside []
  | plain {c : Char} {cs : List Char} (quote : c ≠ '"') (backslash : c ≠ '\\') (rest : Inside cs) :
      Inside (c :: cs)
  | pair {c : Char} {cs : List Char} (newline : c ≠ '\n') (rest : Inside cs) :
      Inside ('\\' :: c :: cs)

theorem Inside.cutClosed? {inside : List Char} (h : Inside inside) (rest : List Char) :
    Lexeme.cutClosed? (inside ++ '"' :: rest) = some (inside ++ ['"'], rest) := by
  induction h with
  | nil => rfl
  | plain quote backslash _ ih => exact Lexeme.cutClosed?_plain quote backslash ih
  | pair newline _ ih => exact Lexeme.cutClosed?_pair newline ih

theorem inside_of_cutClosed? {cs text rest : List Char}
    (h : Lexeme.cutClosed? cs = some (text, rest)) :
    ∃ inside, Inside inside ∧ text = inside ++ ['"'] := by
  fun_induction Lexeme.cutClosed? cs generalizing text with
  | case1 => cases h
  | case2 cs =>
    cases h
    exact ⟨[], .nil, rfl⟩
  | case3 => cases h
  | case4 => cases h
  | case5 c cs hc ih =>
    obtain ⟨⟨text, r⟩, htext, heq⟩ := Option.map_eq_some_iff.1 h
    cases heq
    obtain ⟨inside, hinside, rfl⟩ := ih htext
    exact ⟨_, .pair hc hinside, rfl⟩
  | case6 c cs hquote hlone hpair ih =>
    obtain ⟨⟨text, r⟩, htext, heq⟩ := Option.map_eq_some_iff.1 h
    cases heq
    obtain ⟨inside, hinside, rfl⟩ := ih htext
    have hbackslash : c ≠ '\\' := by
      rintro rfl
      cases cs with
      | nil => exact hlone rfl rfl
      | cons d cs => exact hpair d cs rfl rfl
    exact ⟨_, .plain (by simpa using hquote) hbackslash hinside, rfl⟩

end Literal

namespace Lexeme

variable {c : Char} {cs text rest tail : List Char}

/-! ## Forms and ends -/

theorem takeWhile_eq_nil {p : Char → Bool} (h : ∀ c ∈ rest.head?, p c = false) :
    rest.takeWhile p = [] := by
  cases rest with
  | nil => rfl
  | cons c rest => exact List.takeWhile_cons_of_neg (by simp [h c rfl])

theorem dropWhile_eq_self {p : Char → Bool} (h : ∀ c ∈ rest.head?, p c = false) :
    rest.dropWhile p = rest := by
  cases rest with
  | nil => rfl
  | cons c rest => exact List.dropWhile_cons_of_neg (by simp [h c rfl])

/-- A run of characters comes off if it holds them all and what follows begins with another. -/
theorem takeWhile_eq_iff (p : Char → Bool) (cs : List Char) :
    cs.takeWhile p = text ∧ cs.dropWhile p = rest ↔
      cs = text ++ rest ∧ (∀ d ∈ text, p d = true) ∧ ∀ d ∈ rest.head?, p d = false := by
  constructor
  · rintro ⟨rfl, rfl⟩
    exact ⟨List.takeWhile_append_dropWhile.symm, fun d hd => List.mem_takeWhile_imp hd,
      fun d hd => Text.eq_false_of_head?_dropWhile hd⟩
  · rintro ⟨rfl, htext, hrest⟩
    rw [List.takeWhile_append_of_pos htext, List.dropWhile_append_of_pos htext,
      takeWhile_eq_nil hrest, dropWhile_eq_self hrest, List.append_nil]
    exact ⟨rfl, rfl⟩

namespace Class

/-- The texts of the pieces of a class. -/
def Forms : Class → List Char → Prop
  | name, text => ∃ c cs, text = c :: cs ∧ isNameStart c = true ∧ ∀ d ∈ cs, isNamePart d = true
  | number, text => IsNumeral text
  | blank, text => text ≠ [] ∧ ∀ d ∈ text, Text.isBlank d = true
  | string, text => ∃ inside, Literal.Inside inside ∧ text = '"' :: (inside ++ ['"'])
  | comment, text => ∃ body, '\n' ∉ body ∧ text = '/' :: '/' :: body
  | sign s, text => text = s.spelling

/-- A piece of a class ends in front of a text. -/
def Ends : Class → List Char → List Char → Prop
  | name, _, rest => ∀ d ∈ rest.head?, isNamePart d = false
  | number, text, rest => (∀ d ∈ rest.head?, d.isDigit = false) ∧
      ('.' ∉ text → ∀ d ds, rest = '.' :: d :: ds → d.isDigit = false)
  | blank, _, rest => ∀ d ∈ rest.head?, Text.isBlank d = false
  | comment, _, rest => ∀ d ∈ rest.head?, d = '\n'
  | string, _, _ | sign _, _, _ => True

/-- A class has a piece at the start of a text. -/
def Begins : Class → Char → List Char → Prop
  | name, c, _ => isNameStart c = true
  | number, c, _ => c.isDigit = true
  | blank, c, _ => Text.isBlank c = true
  | string, c, cs => c = '"' ∧ ∃ inside rest, Literal.Inside inside ∧ cs = inside ++ '"' :: rest
  | comment, c, cs => c = '/' ∧ cs.head? = some '/'
  | sign s, c, cs => s.spelling <+: c :: cs

theorem isNamePart_of_forms (h : name.Forms text) : ∀ d ∈ text, isNamePart d = true := by
  obtain ⟨c, cs, rfl, hc, hcs⟩ := h
  have hpart : isNamePart c = true := by
    simp only [isNameStart, Bool.or_eq_true] at hc
    rcases hc with hc | hc <;> simp [isNamePart, Char.isAlphanum, hc]
  exact List.forall_mem_cons.2 ⟨hpart, hcs⟩

/-- Nothing but white space and strings goes over lines. -/
theorem newline_not_mem {k : Class} (h : k.Forms text) (hblank : k ≠ .blank)
    (hstring : k ≠ .string) : '\n' ∉ text := by
  cases k with
  | name => exact fun hmem => absurd (isNamePart_of_forms h _ hmem) (by decide)
  | number =>
    have hdigits : ∀ {ds : List Char}, IsDigits ds → '\n' ∉ ds :=
      fun hds hmem => absurd (hds.2 _ hmem) (by decide)
    rcases h with hwhole | ⟨whole, fraction, hwhole, hfraction, rfl⟩
    · exact hdigits hwhole
    · simp [hdigits hwhole, hdigits hfraction]
  | blank => exact absurd rfl hblank
  | string => exact absurd rfl hstring
  | comment =>
    obtain ⟨body, hbody, rfl⟩ := h
    simp [hbody]
  | sign s =>
    cases h
    cases s <;> decide

end Class

theorem cutName?_eq_some_iff : cutName? cs = some (text, rest) ↔
    cs = text ++ rest ∧ Class.name.Forms text ∧ Class.name.Ends text rest := by
  cases cs with
  | nil =>
    refine ⟨nofun, ?_⟩
    rintro ⟨heq, ⟨c, ds, rfl, -⟩, -⟩
    cases heq
  | cons c cs =>
    rw [cutName?]
    constructor
    · intro h
      obtain ⟨hc, heq⟩ := Option.ite_none_right_eq_some.1 h
      cases heq
      obtain ⟨hcs, htext, hrest⟩ := (takeWhile_eq_iff ..).1 ⟨rfl, rfl⟩
      exact ⟨congrArg (c :: ·) hcs, ⟨c, _, rfl, hc, htext⟩, hrest⟩
    · rintro ⟨heq, ⟨d, ds, rfl, hd, htext⟩, hrest⟩
      obtain ⟨rfl, hcs⟩ := List.cons_eq_cons.1 heq
      obtain ⟨htake, hdrop⟩ := (takeWhile_eq_iff ..).2 ⟨hcs, htext, hrest⟩
      rw [if_pos hd, htake, hdrop]

theorem cutBlank?_eq_some_iff : cutBlank? cs = some (text, rest) ↔
    cs = text ++ rest ∧ Class.blank.Forms text ∧ Class.blank.Ends text rest := by
  cases cs with
  | nil =>
    refine ⟨nofun, ?_⟩
    rintro ⟨heq, ⟨hne, -⟩, -⟩
    exact absurd (List.append_eq_nil_iff.1 heq.symm).1 hne
  | cons c cs =>
    rw [cutBlank?]
    constructor
    · intro h
      obtain ⟨hc, heq⟩ := Option.ite_none_right_eq_some.1 h
      cases heq
      obtain ⟨hcs, htext, hrest⟩ := (takeWhile_eq_iff ..).1 ⟨rfl, rfl⟩
      exact ⟨congrArg (c :: ·) hcs, ⟨List.cons_ne_nil _ _, List.forall_mem_cons.2 ⟨hc, htext⟩⟩,
        hrest⟩
    · rintro ⟨heq, ⟨hne, hall⟩, hrest⟩
      obtain ⟨d, ds, rfl⟩ := List.exists_cons_of_ne_nil hne
      obtain ⟨rfl, hcs⟩ := List.cons_eq_cons.1 heq
      obtain ⟨hd, htext⟩ := List.forall_mem_cons.1 hall
      obtain ⟨htake, hdrop⟩ := (takeWhile_eq_iff ..).2 ⟨hcs, htext, hrest⟩
      rw [if_pos hd, htake, hdrop]

theorem cutNumber?_eq_none (h : c.isDigit = false) : cutNumber? (c :: cs) = none := by
  have hnil : (c :: cs).takeWhile Char.isDigit = [] := List.takeWhile_cons_of_neg (by simp [h])
  simp [cutNumber?, hnil]

theorem cutNumber?_of_forms (htext : Class.number.Forms text) (hrest : Class.number.Ends text rest) :
    cutNumber? (text ++ rest) = some (text, rest) := by
  obtain ⟨hstop, hpoint⟩ := hrest
  rcases htext with hwhole | ⟨whole, fraction, hwhole, hfraction, rfl⟩
  · obtain ⟨htake, hdrop⟩ := (takeWhile_eq_iff ..).2 ⟨rfl, hwhole.2, hstop⟩
    rw [cutNumber?, htake, hdrop]
    split
    · exact absurd rfl hwhole.1
    · next after hne =>
      have hnil : after.takeWhile Char.isDigit = [] := by
        refine takeWhile_eq_nil fun d hd => ?_
        obtain ⟨ds, rfl⟩ := List.head?_eq_some_iff.1 hd
        exact hpoint hwhole.not_mem_point d ds rfl
      rw [hnil]
    · rfl
  · have hcs : whole ++ '.' :: fraction ++ rest = whole ++ '.' :: (fraction ++ rest) := by
      rw [List.append_assoc, List.cons_append]
    obtain ⟨htake, hdrop⟩ := (takeWhile_eq_iff ..).2 ⟨hcs, hwhole.2, by simp⟩
    obtain ⟨htake', hdrop'⟩ := (takeWhile_eq_iff ..).2 ⟨rfl, hfraction.2, hstop⟩
    rw [cutNumber?, htake, hdrop]
    split
    · exact absurd rfl hwhole.1
    · next after _ hafter =>
      cases hafter
      rw [htake', hdrop']
      split
      · exact absurd rfl hfraction.1
      · rfl
    · next hne => exact absurd rfl (hne _)

/-- A number begins with each digit. It goes up to the end of the digits, or, where a point and a
digit go on with them, up to the end of the digits behind the point. -/
theorem exists_numeral (hc : c.isDigit = true) (cs : List Char) : ∃ text rest,
    c :: cs = text ++ rest ∧ Class.number.Forms text ∧ Class.number.Ends text rest := by
  obtain ⟨hcs, hwhole, hstop⟩ :=
    (takeWhile_eq_iff Char.isDigit (c :: cs)).1 ⟨rfl, rfl⟩
  have hdigits : IsDigits ((c :: cs).takeWhile Char.isDigit) := by
    rw [List.takeWhile_cons_of_pos hc] at hwhole ⊢
    exact ⟨List.cons_ne_nil _ _, hwhole⟩
  generalize (c :: cs).takeWhile Char.isDigit = whole at hcs hdigits
  generalize (c :: cs).dropWhile Char.isDigit = rest at hcs hstop
  by_cases hpoint : ∃ d ds, rest = '.' :: d :: ds ∧ d.isDigit = true
  · obtain ⟨d, ds, rfl, hd⟩ := hpoint
    obtain ⟨hds, hfraction, hstop'⟩ :=
      (takeWhile_eq_iff Char.isDigit (d :: ds)).1 ⟨rfl, rfl⟩
    refine ⟨whole ++ '.' :: (d :: ds).takeWhile Char.isDigit, _, ?_,
      .inr ⟨whole, _, hdigits, ⟨?_, hfraction⟩, rfl⟩, hstop', fun hnot => absurd (by simp) hnot⟩
    · rw [hcs, List.append_assoc, List.cons_append, ← hds]
    · rw [List.takeWhile_cons_of_pos hd]
      exact List.cons_ne_nil _ _
  · refine ⟨whole, rest, hcs, .inl hdigits, hstop, fun _ d ds hrest => ?_⟩
    exact Bool.eq_false_iff.2 fun hd => hpoint ⟨d, ds, hrest, hd⟩

theorem cutNumber?_eq_some_iff : cutNumber? cs = some (text, rest) ↔
    cs = text ++ rest ∧ Class.number.Forms text ∧ Class.number.Ends text rest := by
  constructor
  · intro h
    cases cs with
    | nil => cases h
    | cons c cs =>
      cases hc : c.isDigit with
      | false => cases (cutNumber?_eq_none hc).symm.trans h
      | true =>
        obtain ⟨text', rest', hcs, htext, hrest⟩ := exists_numeral hc cs
        rw [hcs, cutNumber?_of_forms htext hrest] at h
        cases h
        exact ⟨hcs, htext, hrest⟩
  · rintro ⟨rfl, htext, hrest⟩
    exact cutNumber?_of_forms htext hrest

theorem cutString?_eq_some_iff : cutString? cs = some (text, rest) ↔
    cs = text ++ rest ∧ Class.string.Forms text ∧ Class.string.Ends text rest := by
  constructor
  · intro h
    have hcs : text ++ rest = cs := Class.append_of_cut? (k := .string) h
    rw [cutString?.eq_def] at h
    split at h
    · obtain ⟨⟨closed, r⟩, hclosed, heq⟩ := Option.map_eq_some_iff.1 h
      cases heq
      obtain ⟨inside, hinside, rfl⟩ := Literal.inside_of_cutClosed? hclosed
      exact ⟨hcs.symm, ⟨inside, hinside, rfl⟩, trivial⟩
    · cases h
  · rintro ⟨rfl, ⟨inside, hinside, rfl⟩, -⟩
    have hclosed := hinside.cutClosed? rest
    rw [List.cons_append, List.append_assoc, cutString?, List.singleton_append, hclosed]
    rfl

theorem cutComment?_eq_some_iff : cutComment? cs = some (text, rest) ↔
    cs = text ++ rest ∧ Class.comment.Forms text ∧ Class.comment.Ends text rest := by
  constructor
  · intro h
    rw [cutComment?.eq_def] at h
    split at h
    · next cs =>
      cases h
      obtain ⟨hcs, hbody, hrest⟩ :=
        (takeWhile_eq_iff (· != '\n') cs).1 ⟨rfl, rfl⟩
      refine ⟨congrArg ('/' :: '/' :: ·) hcs, ⟨_, fun hmem => ?_, rfl⟩,
        fun d hd => bne_eq_false_iff_eq.1 (hrest d hd)⟩
      exact absurd (hbody _ hmem) (by decide)
    · cases h
  · rintro ⟨rfl, ⟨body, hbody, rfl⟩, hrest⟩
    obtain ⟨htake, hdrop⟩ := (takeWhile_eq_iff (· != '\n') _).2
      ⟨rfl, fun d hd => bne_iff_ne.2 (ne_of_mem_of_not_mem hd hbody),
        fun d hd => bne_eq_false_iff_eq.2 (hrest d hd)⟩
    rw [List.cons_append, List.cons_append, cutComment?, htake, hdrop]

namespace Class

/-- The piece of a class is a text of its form that ends in front of what follows. -/
theorem cut?_eq_some_iff {k : Class} : k.cut? cs = some (text, rest) ↔
    cs = text ++ rest ∧ k.Forms text ∧ k.Ends text rest := by
  cases k with
  | name => exact cutName?_eq_some_iff
  | number => exact cutNumber?_eq_some_iff
  | blank => exact cutBlank?_eq_some_iff
  | string => exact cutString?_eq_some_iff
  | comment => exact cutComment?_eq_some_iff
  | sign s =>
    rw [cut?, cutPattern?_eq_some_iff]
    constructor
    · rintro ⟨htext, hcs⟩
      exact ⟨hcs.symm, htext, trivial⟩
    · rintro ⟨hcs, htext, -⟩
      exact ⟨htext, hcs.symm⟩

/-- A piece that ends in front of a text ends in front of each shorter one. -/
theorem Ends.of_isPrefix {k : Class} (h : k.Ends text rest) (hrest : tail <+: rest) :
    k.Ends text tail := by
  obtain ⟨more, rfl⟩ := hrest
  have hhead : ∀ d ∈ tail.head?, d ∈ (tail ++ more).head? := by
    intro d hd
    rw [List.head?_append, Option.mem_def.1 hd]
    rfl
  cases k with
  | name | blank | comment => exact fun d hd => h d (hhead d hd)
  | number =>
    refine ⟨fun d hd => h.1 d (hhead d hd), fun hpoint d ds heq => ?_⟩
    subst heq
    exact h.2 hpoint d (ds ++ more) rfl
  | string | sign => trivial

/-! ## Where a piece begins -/

theorem Begins.exists_cut? {k : Class} (h : k.Begins c cs) :
    ∃ text rest, k.cut? (c :: cs) = some (text, rest) := by
  cases k with
  | name => exact ⟨_, _, if_pos h⟩
  | number =>
    obtain ⟨text, rest, hnumeral⟩ := exists_numeral h cs
    exact ⟨text, rest, cut?_eq_some_iff.2 hnumeral⟩
  | blank => exact ⟨_, _, if_pos h⟩
  | string =>
    obtain ⟨rfl, inside, rest, hinside, rfl⟩ := h
    exact ⟨_, rest, cut?_eq_some_iff.2 ⟨by simp, ⟨inside, hinside, rfl⟩, trivial⟩⟩
  | comment =>
    obtain ⟨rfl, hslash⟩ := h
    obtain ⟨cs, rfl⟩ := List.head?_eq_some_iff.1 hslash
    exact ⟨_, _, rfl⟩
  | sign s =>
    obtain ⟨rest, hrest⟩ := h
    exact ⟨_, rest, cut?_eq_some_iff.2 ⟨hrest.symm, rfl, trivial⟩⟩

theorem begins_of_cut? {k : Class} (h : k.cut? (c :: cs) = some (text, rest)) :
    k.Begins c cs := by
  obtain ⟨hcs, htext, -⟩ := cut?_eq_some_iff.1 h
  cases k with
  | name => exact (Option.ite_none_right_eq_some.1 h).1
  | number =>
    cases hc : c.isDigit with
    | false => cases (cutNumber?_eq_none hc).symm.trans h
    | true => exact hc
  | blank => exact (Option.ite_none_right_eq_some.1 h).1
  | string =>
    obtain ⟨inside, hinside, rfl⟩ := htext
    rw [List.cons_append, List.append_assoc, List.cons_eq_cons] at hcs
    exact ⟨hcs.1, inside, rest, hinside, hcs.2⟩
  | comment =>
    obtain ⟨body, -, rfl⟩ := htext
    cases hcs
    exact ⟨rfl, rfl⟩
  | sign s =>
    cases htext
    exact ⟨rest, hcs.symm⟩

theorem cut?_eq_none_iff {k : Class} : k.cut? (c :: cs) = none ↔ ¬ k.Begins c cs := by
  constructor
  · intro hnone h
    obtain ⟨text, rest, hcut⟩ := h.exists_cut?
    cases hnone.symm.trans hcut
  · exact fun h => Option.eq_none_iff_forall_ne_some.2 fun _ hcut => h (begins_of_cut? hcut)

/-- What a piece begins with begins it as well when more follows. -/
theorem Begins.of_isPrefix {k : Class} {ds : List Char} (h : k.Begins c cs) (hcs : cs <+: ds) :
    k.Begins c ds := by
  obtain ⟨more, rfl⟩ := hcs
  cases k with
  | name | number | blank => exact h
  | string =>
    obtain ⟨rfl, inside, rest, hinside, rfl⟩ := h
    exact ⟨rfl, inside, rest ++ more, hinside, List.append_assoc ..⟩
  | comment =>
    refine ⟨h.1, ?_⟩
    rw [List.head?_append, h.2]
    rfl
  | sign s => exact h.trans (List.prefix_append (c :: cs) more)

end Class

/-! ## Which piece comes first -/

theorem code_of_isNameStart (h : isNameStart c = true) : 65 ≤ c.toNat ∧ c.toNat ≤ 122 := by
  have hcases : ((c.isUpper || c.isLower) || c == '_') = true := h
  simp only [Bool.or_eq_true, beq_iff_eq] at hcases
  rcases hcases with (hupper | hlower) | rfl
  · obtain ⟨hlow, hhigh⟩ := of_decide_eq_true (p := 65 ≤ c.val ∧ c.val ≤ 90) hupper
    rw [UInt32.le_iff_toNat_le] at hlow hhigh
    exact ⟨hlow, Nat.le_trans hhigh (by decide)⟩
  · obtain ⟨hlow, hhigh⟩ := (Bool.and_eq_true ..).mp
      (show (decide (97 ≤ c.val) && decide (c.val ≤ 122)) = true from hlower)
    rw [decide_eq_true_eq, UInt32.le_iff_toNat_le] at hlow hhigh
    exact ⟨Nat.le_trans (by decide) hlow, hhigh⟩
  · decide

theorem isNameStart_eq_false_of_isDigit (h : c.isDigit = true) : isNameStart c = false := by
  rw [Bool.eq_false_iff]
  intro hstart
  have hdigit : c.toNat ≤ 57 := (Char.isDigit_iff_toNat.1 h).2
  have hcode := code_of_isNameStart hstart
  omega

theorem code_of_isBlank (h : Text.isBlank c = true) : c.toNat < 33 ∨ 126 < c.toNat := by
  by_contra hcode
  rw [Text.isBlank_eq_false (by omega) (by omega)] at h
  cases h

namespace Class

/-- The classes that are tried before the signs. -/
def simple : List Class :=
  [name, number, blank, string, comment]

/-- The codes of the characters that the pieces of a class begin with. -/
def Codes : Class → Nat → Prop
  | name, n => 65 ≤ n ∧ n ≤ 122
  | number, n => 48 ≤ n ∧ n ≤ 57
  | blank, n => n < 33 ∨ 126 < n
  | string, n => n = 34
  | comment, n => n = 47
  | sign _, _ => True

theorem Begins.codes {k : Class} (h : k.Begins c cs) : k.Codes c.toNat := by
  cases k with
  | name => exact code_of_isNameStart h
  | number => exact Char.isDigit_iff_toNat.1 h
  | blank => exact code_of_isBlank h
  | string => exact congrArg Char.toNat h.1
  | comment => exact congrArg Char.toNat h.1
  | sign => trivial

/-- Two classes that are no signs begin with different characters. -/
theorem Begins.unique {j k : Class} (hj : j.Begins c cs) (hk : k.Begins c cs) (hj' : j ∈ simple)
    (hk' : k ∈ simple) : j = k := by
  have hj := hj.codes
  have hk := hk.codes
  cases j <;> cases k <;> simp [Codes, simple] at * <;> omega

end Class

/-- The piece of a class comes first if the classes before it have none. -/
theorem first?_of_cut?_of_before {k : Class} {after : List Class} (before : List Class)
    (hall : Class.all = before ++ k :: after) (hbefore : ∀ j ∈ before, j.cut? cs = none)
    (hcut : k.cut? cs = some (text, rest)) : first? cs = some (⟨k, text⟩, rest) := by
  rw [first?, hall, List.findSome?_append, List.findSome?_eq_none_iff.2, Option.none_or,
    List.findSome?_cons, hcut]
  · rfl
  · intro j hj
    rw [hbefore j hj]
    rfl

/-- Only one of the classes that are no signs has a piece. -/
theorem Class.eq_of_cut? {j k : Class} {text' rest' : List Char} (hj : j ∈ simple) (hk : k ∈ simple)
    (h : j.cut? cs = some (text, rest)) (h' : k.cut? cs = some (text', rest')) : j = k := by
  obtain ⟨c, ds, rfl⟩ : ∃ c ds, cs = c :: ds := by
    rw [← append_of_cut? h]
    obtain ⟨c, ds, rfl⟩ := List.exists_cons_of_ne_nil (ne_nil_of_cut? h)
    exact ⟨c, ds ++ rest, rfl⟩
  exact (begins_of_cut? h).unique (begins_of_cut? h') hj hk

/-- The piece of a class that is no sign comes first. -/
theorem first?_of_cut? {k : Class} (hk : k ∈ Class.simple) (h : k.cut? cs = some (text, rest)) :
    first? cs = some (⟨k, text⟩, rest) := by
  obtain ⟨before, after, hsimple, hbefore⟩ := List.eq_append_cons_of_mem hk
  have hall : Class.all = before ++ k :: (after ++ Sign.all.map .sign) := by
    rw [← List.cons_append, ← List.append_assoc, ← hsimple]
    rfl
  refine first?_of_cut?_of_before before hall (fun j hj => ?_) h
  have hj' : j ∈ Class.simple := hsimple ▸ List.mem_append_left _ hj
  cases hcut : j.cut? cs with
  | none => rfl
  | some piece =>
    rw [Class.eq_of_cut? hj' hk hcut h] at hj
    exact absurd hj hbefore

/-! ## Changing what follows -/

/-- A piece comes first in front of another text too if it ends there and no class that had no piece
gets one. -/
theorem first?_of_ends {x : Lexeme} (h : first? cs = some (x, rest))
    (hends : x.cls.Ends x.text tail)
    (hnone : ∀ k : Class, k.cut? cs = none → k.cut? (x.text ++ tail) = none) :
    first? (x.text ++ tail) = some (x, tail) := by
  obtain ⟨before, k, after, hall, hk, hbefore⟩ := List.findSome?_eq_some_iff.1 h
  obtain ⟨⟨text, r⟩, hcut, heq⟩ := Option.map_eq_some_iff.1 hk
  cases heq
  refine first?_of_cut?_of_before before hall (fun j hj => ?_) ?_
  · exact hnone j (Option.map_eq_none_iff.1 (hbefore j hj))
  · exact Class.cut?_eq_some_iff.2 ⟨rfl, (Class.cut?_eq_some_iff.1 hcut).2.1, hends⟩

/-- Leaving out the end of what follows a piece leaves the piece. -/
theorem first?_of_isPrefix {x : Lexeme} (h : first? cs = some (x, rest)) (hrest : tail <+: rest) :
    first? (x.text ++ tail) = some (x, tail) := by
  obtain ⟨hcs, -, hends⟩ := Class.cut?_eq_some_iff.1 (cut?_of_first? h)
  refine first?_of_ends h (hends.of_isPrefix hrest) fun k hk => ?_
  obtain ⟨c, ds, hx⟩ := List.exists_cons_of_ne_nil (Class.ne_nil_of_cut? (cut?_of_first? h))
  rw [hcs, hx, List.cons_append, Class.cut?_eq_none_iff] at hk
  rw [hx, List.cons_append, Class.cut?_eq_none_iff]
  exact fun hbegins => hk (hbegins.of_isPrefix ((List.prefix_append_right_inj ds).2 hrest))

end Lexeme

end Chalk
