import Chalk.Proofs.Token.Concatenation

/-!
# Tokens that are written out

A `Word` is a token without its place: a kind, and a text that tokens of the kind can have. Words
can be written one behind the other, in any order, if something that begins with white space stands
between them (`Separator`): a name or a number cannot go on then, no sign becomes a longer one, and
a slash begins no comment. Whatever the words and separators are, cutting the text gives the words
back (`tokenize_source_words`).
-/

namespace Chalk

/-! ## Words -/

/-- The texts that tokens of a kind can have. The end of a source has none. -/
inductive Token.Kind.Admits : Token.Kind → String → Prop
  | name {x : String} (form : IsName x) : Admits .identifier x
  | keyword (k : Keyword) : Admits (.keyword k) k.spelling
  | number {x : String} (form : IsNumeral x.toList) : Admits .number x
  | string {x : String} (form : Literal.Inside x.toList) : Admits .string x
  | sign (s : Sign) : Admits (.sign s) (String.ofList s.spelling)

/-- A token that can be written, wherever it is to stand. -/
structure Word where
  kind : Token.Kind
  value : String
  admitted : kind.Admits value

/-- A word as it is written. -/
def Word.text (w : Word) : List Char :=
  w.kind.text w.value

namespace Text

/-- White space, and comments that end with their lines. -/
inductive Space : List Char → Prop
  | nil : Space []
  | blank {c : Char} {cs : List Char} (white : isBlank c = true) (rest : Space cs) : Space (c :: cs)
  | comment {body cs : List Char} (inside : '\n' ∉ body) (rest : Space cs) :
      Space ('/' :: '/' :: (body ++ '\n' :: cs))

end Text

/-- What parts two words: white space, and then more of it, or comments. -/
structure Separator where
  blank : Char
  rest : List Char
  white : Text.isBlank blank = true
  space : Text.Space rest

def Separator.text (s : Separator) : List Char :=
  s.blank :: s.rest

/-- Words behind a separator, and with a separator behind each of them. -/
def Word.source (first : Separator) (words : List (Word × Separator)) : List Char :=
  first.text ++ words.flatMap fun (w, s) => w.text ++ s.text

/-! ## Pieces in front of white space -/

namespace Lexeme

variable {c : Char} {cs rest : List Char}

theorem code_of_isNamePart (h : isNamePart c = true) : 48 ≤ c.toNat ∧ c.toNat ≤ 122 := by
  have hcases : ((c.isAlpha || c.isDigit) || c == '_') = true := h
  rw [Bool.or_right_comm, Bool.or_eq_true] at hcases
  rcases hcases with hstart | hdigit
  · have hcode := code_of_isNameStart hstart
    omega
  · obtain ⟨hlow, hhigh⟩ := Char.isDigit_iff_toNat.1 hdigit
    exact ⟨hlow, Nat.le_trans hhigh (by decide)⟩

theorem isNamePart_of_isBlank (h : Text.isBlank c = true) : isNamePart c = false := by
  rw [Bool.eq_false_iff]
  intro hpart
  have hcode := code_of_isNamePart hpart
  have hblank := code_of_isBlank h
  omega

/-- White space is none of the characters that are written with ink. -/
theorem ne_of_isBlank (h : Text.isBlank c = true) {d : Char} (hd : 33 ≤ d.toNat ∧ d.toNat ≤ 126) :
    c ≠ d := by
  rintro rfl
  have hblank := code_of_isBlank h
  omega

theorem isStop_of_isBlank (h : Text.isBlank c = true) : IsStop c where
  name := isNamePart_of_isBlank h
  sign := ⟨ne_of_isBlank h (by decide), ne_of_isBlank h (by decide)⟩
  slash := ne_of_isBlank h (by decide)

end Lexeme

namespace Cursor.Passes

variable {file : String} {before rest : List Char}

theorem of_isBlank {c : Char} (h : Text.isBlank c = true) : Passes file before [c] rest [] :=
  fun _ hus => (scan_blanks (List.forall_mem_singleton.2 h) before rest).trans hus

/-- White space and comments are passed over, whatever follows. -/
theorem of_space {space : List Char} (h : Text.Space space) : Passes file before space rest [] := by
  induction h generalizing before with
  | nil => exact nil
  | blank white _ ih => exact (of_isBlank white).append ih
  | @comment body cs inside _ ih =>
    have hends : Lexeme.Class.comment.Ends ('/' :: '/' :: body) ('\n' :: cs ++ rest) := by
      rintro d ⟨⟩
      rfl
    have hcomment : Passes file before ('/' :: '/' :: body) ('\n' :: cs ++ rest) [] :=
      of_first? (x := ⟨.comment, _⟩) (Lexeme.first?_of_cut? (by decide)
        (Lexeme.Class.cut?_eq_some_iff.2 ⟨rfl, ⟨body, inside, rfl⟩, hends⟩))
    have hnewline : Passes file (before ++ '/' :: '/' :: body) ['\n'] (cs ++ rest) [] :=
      of_isBlank (by decide)
    exact hcomment.append (hnewline.append ih)

theorem separator (s : Separator) : Passes file before s.text rest [] :=
  (of_isBlank s.white).append (of_space s.space)

/-- A run of letters, digits and underscores is one token, set aside or not. -/
theorem ofWord (file : String) (before : List Char) {x : String} {c : Char} {cs : List Char}
    (htext : x.toList = c :: cs) (hc : Lexeme.isNameStart c = true)
    (hcs : ∀ d ∈ cs, Lexeme.isNamePart d = true)
    (hrest : ∀ d ∈ rest.head?, Lexeme.isNamePart d = false) :
    ∃ t : Token, t.kind = .ofWord x ∧ t.value = x ∧ Passes file before x.toList rest [t] := by
  have hfirst := Lexeme.first?_name hc hcs hrest
  rw [← htext] at hfirst
  have hword : String.ofList x.toList = x := String.ofList_toList
  exact ⟨_, congrArg Token.Kind.ofWord hword, hword, of_first? (x := ⟨.name, x.toList⟩) hfirst⟩

theorem numeral (file : String) (before : List Char) {x : String} (h : IsNumeral x.toList)
    (hrest : ∀ d ∈ rest.head?, d.isDigit = false ∧ d ≠ '.') :
    ∃ t : Token, t.kind = .number ∧ t.value = x ∧ Passes file before x.toList rest [t] := by
  have hends : Lexeme.Class.number.Ends x.toList rest := by
    refine ⟨fun d hd => (hrest d hd).1, fun _ d ds heq => ?_⟩
    subst heq
    exact absurd rfl (hrest '.' rfl).2
  exact ⟨_, rfl, String.ofList_toList,
    of_first? (x := ⟨.number, x.toList⟩) (Lexeme.first?_numeral h hends)⟩

end Cursor.Passes

/-! ## Words in front of separators -/

theorem Keyword.exists_cons (k : Keyword) : ∃ c cs, k.spelling.toList = c :: cs ∧
    Lexeme.isNameStart c = true ∧ ∀ d ∈ cs, Lexeme.isNamePart d = true := by
  cases k <;> exact ⟨_, _, rfl, by decide, List.all_eq_true.1 rfl⟩

theorem Keyword.ofWord_spelling (k : Keyword) : Token.Kind.ofWord k.spelling = .keyword k := by
  rw [Token.Kind.ofWord, Keyword.ofSpelling?_eq_some_iff.2 rfl]

namespace Word

open Cursor

variable {file : String} {before rest : List Char}

/-- A word in front of a separator is one token, with the word's kind and text. -/
theorem passes (w : Word) (s : Separator) (file : String) (before rest : List Char) :
    ∃ t : Token, t.kind = w.kind ∧ t.value = w.value ∧
      Passes file before w.text (s.text ++ rest) [t] := by
  have hblank : ∀ d ∈ (s.text ++ rest).head?, Text.isBlank d = true := by
    rintro d ⟨⟩
    exact s.white
  have hname : ∀ d ∈ (s.text ++ rest).head?, Lexeme.isNamePart d = false := fun d hd =>
    Lexeme.isNamePart_of_isBlank (hblank d hd)
  obtain ⟨kind, value, admitted⟩ := w
  cases admitted with
  | name form =>
    obtain ⟨t, hkind, hvalue, hpasses⟩ := Passes.name file before form hname
    exact ⟨t, hkind, hvalue, hpasses⟩
  | keyword k =>
    obtain ⟨c, cs, htext, hc, hcs⟩ := k.exists_cons
    obtain ⟨t, hkind, hvalue, hpasses⟩ := Passes.ofWord file before htext hc hcs hname
    exact ⟨t, hkind.trans k.ofWord_spelling, hvalue, hpasses⟩
  | number form =>
    obtain ⟨t, hkind, hvalue, hpasses⟩ := Passes.numeral file before form fun d hd =>
      ⟨(Lexeme.isStop_of_isBlank (hblank d hd)).isDigit,
        Lexeme.ne_of_isBlank (hblank d hd) (by decide)⟩
    exact ⟨t, hkind, hvalue, hpasses⟩
  | string form =>
    obtain ⟨t, hkind, hvalue, hpasses⟩ :=
      Passes.quoted file before (form.cutClosed? (s.text ++ rest))
    exact ⟨t, hkind, hvalue.trans String.ofList_toList, hpasses⟩
  | sign z =>
    have hfirst := Lexeme.first?_sign z fun d hd =>
      have hstop := Lexeme.isStop_of_isBlank (hblank d hd)
      ⟨hstop.sign.1, hstop.sign.2, hstop.slash⟩
    have htext : text ⟨.sign z, String.ofList z.spelling, .sign z⟩ = z.spelling :=
      String.toList_ofList
    rw [htext]
    exact ⟨_, rfl, rfl, Passes.of_first? (x := ⟨.sign z, z.spelling⟩) hfirst⟩

/-- Words with separators behind them are passed one by one. -/
theorem passes_all (words : List (Word × Separator)) (file : String) (before : List Char) :
    ∃ pieces : List Token,
      pieces.map (fun t => (t.kind, t.value)) = words.map (fun (w, _) => (w.kind, w.value)) ∧
      Passes file before (words.flatMap fun (w, s) => w.text ++ s.text) [] pieces := by
  induction words generalizing before with
  | nil => exact ⟨[], rfl, .nil⟩
  | cons first words ih =>
    obtain ⟨w, s⟩ := first
    obtain ⟨pieces, hpieces, hrest⟩ := ih (before ++ (w.text ++ s.text))
    obtain ⟨t, hkind, hvalue, hword⟩ := w.passes s file before
      ((words.flatMap fun (w, s) => w.text ++ s.text) ++ [])
    refine ⟨t :: pieces, by rw [List.map_cons, List.map_cons, hpieces, hkind, hvalue], ?_⟩
    exact (hword.append (.separator s)).append hrest

end Word

/-- Words that are written with separators between and around them are the tokens of the text, kind
by kind and value by value, up to its end. -/
theorem tokenize_source_words (first : Separator) (words : List (Word × Separator))
    (file : String) :
    ∃ pieces : List Token,
      tokenize (String.ofList (Word.source first words)) file =
          .ok (pieces ++ [.endAt (.behind file (Word.source first words))]) ∧
        pieces.map (fun t => (t.kind, t.value)) = words.map (fun (w, _) => (w.kind, w.value)) := by
  obtain ⟨pieces, hpieces, hwords⟩ := Word.passes_all words file first.text
  have hfirst : Cursor.Passes file [] first.text
      ((words.flatMap fun (w, s) => w.text ++ s.text) ++ []) [] := .separator first
  refine ⟨pieces, ?_, hpieces⟩
  rw [tokenize, Cursor.ofText, String.toList_ofList]
  exact (hfirst.append hwords).scan_eq

end Chalk
