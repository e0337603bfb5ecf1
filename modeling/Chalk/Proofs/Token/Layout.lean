import Chalk.Proofs.Token.Pieces
import Chalk.Token.Scan

/-!
# How tokens lie in their source

`Laid file before rest ts` says that the tokens `ts` are written out in `rest`, with nothing but
white space and comments around them, and that they are placed as they must be when `before` stands
in front. Cutting a text into tokens only ever gives tokens that lie so (`Cursor.laid_of_scan`): at
each place either a piece is passed over, and the space in front of the next token grows, or it is
the next token itself.
-/

namespace Chalk

namespace Text

/-- White space and comments in front of `behind`. A comment goes up to the end of its line. -/
inductive Gap (behind : List Char) : List Char → Prop
  | nil : Gap behind []
  | blank {c : Char} {cs : List Char} (white : isBlank c = true) (rest : Gap behind cs) :
      Gap behind (c :: cs)
  | comment {body cs : List Char} (inside : '\n' ∉ body)
      (ends : ∀ c ∈ (cs ++ behind).head?, c = '\n') (rest : Gap behind cs) :
      Gap behind ('/' :: '/' :: (body ++ cs))

theorem Gap.blanks {behind cs blanks : List Char} (h : Gap behind cs)
    (hblanks : ∀ c ∈ blanks, isBlank c = true) : Gap behind (blanks ++ cs) := by
  induction blanks with
  | nil => exact h
  | cons c blanks ih =>
    obtain ⟨hc, hblanks⟩ := List.forall_mem_cons.1 hblanks
    exact .blank hc (ih hblanks)

end Text

namespace Position

/-- The place behind a text that stands at the start of a file. -/
def behind (file : String) (text : List Char) : Position :=
  { offset := .ofNat (Text.utf8Length text), line := .ofNat (1 + Text.newlines text), file }

end Position

/-- What is written for a token of a kind that has a value. -/
def Token.Kind.text (k : Token.Kind) (value : String) : List Char :=
  if k = .string then '"' :: (value.toList ++ ['"']) else value.toList

/-- A token as it is written. -/
def Token.text (t : Token) : List Char :=
  t.kind.text t.value

/-- The tokens written out in `rest`, which stands behind `before`. -/
inductive Laid (file : String) : List Char → List Char → List Token → Prop
  | last {before gap : List Char} (space : Text.Gap [] gap) :
      Laid file before gap [.endAt (.behind file (before ++ gap))]
  | next {before gap rest : List Char} {t : Token} {ts : List Token}
      (space : Text.Gap (t.text ++ rest) gap) (kind : t.kind ≠ .eof) (nonempty : t.text ≠ [])
      (span : t.span = ⟨.behind file (before ++ gap), .behind file (before ++ gap ++ t.text)⟩)
      (later : Laid file (before ++ gap ++ t.text) rest ts) :
      Laid file before (gap ++ (t.text ++ rest)) (t :: ts)

namespace Laid

variable {file : String} {before piece rest : List Char} {ts : List Token}

/-- A piece that only makes the space larger is passed over. -/
theorem skip (h : Laid file (before ++ piece) rest ts)
    (hpiece : ∀ gap behind, rest = gap ++ behind → Text.Gap behind gap →
      Text.Gap behind (piece ++ gap)) : Laid file before (piece ++ rest) ts := by
  cases h with
  | last space =>
    have hspace : Text.Gap [] (piece ++ rest) := hpiece rest [] (List.append_nil _).symm space
    rw [List.append_assoc]
    exact .last hspace
  | @next _ gap rest t ts space kind nonempty span later =>
    have hspace : Text.Gap (t.text ++ rest) (piece ++ gap) := hpiece gap _ rfl space
    rw [List.append_assoc before] at span later
    rw [← List.append_assoc piece]
    exact .next hspace kind nonempty span later

/-- The last token, and no other, is an end, and it stands behind the whole text. -/
theorem eq_append_end (h : Laid file before rest ts) :
    ∃ pieces, ts = pieces ++ [.endAt (.behind file (before ++ rest))] ∧
      ∀ t ∈ pieces, t.kind ≠ .eof := by
  induction h with
  | last space => exact ⟨[], rfl, by simp⟩
  | @next before gap rest t ts _ kind _ _ _ ih =>
    obtain ⟨pieces, rfl, hkinds⟩ := ih
    refine ⟨t :: pieces, ?_, List.forall_mem_cons.2 ⟨kind, hkinds⟩⟩
    simp only [List.append_assoc, List.cons_append]

end Laid

namespace Lexeme

variable {cs text rest : List Char}

/-! ## Tokens and spaces -/

namespace Class

variable {k : Class} {span : Span} {t : Token}

/-- A token is written as the piece that it stands for. -/
theorem text_of_token? (hcut : k.cut? cs = some (text, rest)) (h : k.token? text span = some t) :
    t.kind ≠ .eof ∧ t.text = text ∧ t.span = span := by
  cases k with
  | name =>
    cases h
    have hkind : ∀ word, Token.Kind.ofWord word ≠ .eof ∧ Token.Kind.ofWord word ≠ .string := by
      intro word
      unfold Token.Kind.ofWord
      split <;> simp
    exact ⟨(hkind _).1, by simp [Token.text, Token.Kind.text, (hkind _).2], rfl⟩
  | number =>
    cases h
    exact ⟨by simp, by simp [Token.text, Token.Kind.text], rfl⟩
  | blank => cases h
  | string =>
    cases h
    obtain ⟨-, ⟨inside, -, rfl⟩, -⟩ := cut?_eq_some_iff.1 hcut
    exact ⟨by simp, by simp [Token.text, Token.Kind.text], rfl⟩
  | comment => cases h
  | sign s =>
    cases h
    obtain ⟨-, rfl, -⟩ := cut?_eq_some_iff.1 hcut
    exact ⟨by simp, by simp [Token.text, Token.Kind.text], rfl⟩

/-- A piece that stands for no token only makes the space in front of what follows larger. -/
theorem gap_of_token?_eq_none {behind gap : List Char}
    (hcut : k.cut? cs = some (text, gap ++ behind)) (h : k.token? text span = none)
    (hgap : Text.Gap behind gap) : Text.Gap behind (text ++ gap) := by
  cases k with
  | name | number | string | sign => cases h
  | blank =>
    obtain ⟨-, ⟨-, hblanks⟩, -⟩ := cut?_eq_some_iff.1 hcut
    exact hgap.blanks hblanks
  | comment =>
    obtain ⟨-, ⟨body, hbody, rfl⟩, hends⟩ := cut?_eq_some_iff.1 hcut
    exact .comment hbody hends hgap

end Class

end Lexeme

namespace Cursor

variable {file : String} {before rest : List Char}

/-- The cursor behind a text that stands at the start of a file, with `rest` left to read. -/
def behind (file : String) (before rest : List Char) : Cursor :=
  { rest, offset := Text.utf8Length before, line := 1 + Text.newlines before, file }

theorem after_behind {text cs : List Char} :
    (behind file before cs).after text rest = behind file (before ++ text) rest := by
  simp [behind, after, Text.newlines, Nat.add_assoc]

theorem scan_of_rest_eq_nil {c : Cursor} (h : c.rest = []) : c.scan = .ok [.endAt c.position] := by
  rw [scan]
  split
  · rfl
  · next hcons => rw [hcons] at h; cases h

/-- A piece on one line ends where the cursor is behind it. -/
theorem span_stride {c : Cursor} {x : Lexeme} (h : Lexeme.first? c.rest = some (x, rest))
    (hline : '\n' ∉ x.text) :
    c.span (x.cls.stride x.text) = ⟨c.position, (c.after x.text rest).position⟩ := by
  rw [Lexeme.Class.stride_of_cut? (Lexeme.cut?_of_first? h), span, position, position, after,
    Text.newlines_eq_zero.2 hline]
  rfl

/-- The token of a piece goes from the cursor in front of it to the one behind it. -/
theorem token?_spanOf {c : Cursor} {x : Lexeme} (h : Lexeme.first? c.rest = some (x, rest)) :
    x.cls.token? x.text (c.spanOf x (c.after x.text rest)) =
      x.cls.token? x.text ⟨c.position, (c.after x.text rest).position⟩ := by
  have hforms := (Lexeme.Class.cut?_eq_some_iff.1 (Lexeme.cut?_of_first? h)).2.1
  obtain ⟨k, text⟩ := x
  cases k with
  | name | number | sign =>
    have hline := Lexeme.Class.newline_not_mem hforms (by simp) (by simp)
    rw [← span_stride h hline]
    rfl
  | blank | comment | string => rfl

/-- Where a class has a piece, its token, if it stands for one, comes before those behind it. -/
theorem scan_of_first?_eq_some {c : Cursor} {x : Lexeme}
    (h : Lexeme.first? c.rest = some (x, rest)) :
    c.scan = (c.after x.text rest).scan.map fun ts =>
      (x.cls.token? x.text ⟨c.position, (c.after x.text rest).position⟩).toList ++ ts := by
  rw [scan]
  split
  · next hnil =>
    have hlength := Lexeme.length_lt_of_first? h
    rw [hnil] at hlength
    exact absurd hlength (Nat.not_lt_zero _)
  · split
    · next hnone => rw [hnone] at h; cases h
    · next x' rest' hsome =>
      rw [hsome] at h
      cases h
      dsimp only
      rw [pass_eq hsome, token?_spanOf hsome]
      cases (c.after x.text rest).scan with
      | error e => rfl
      | ok ts => rfl

theorem scan_of_first?_eq_none {c : Cursor} {char : Char} {cs : List Char}
    (hrest : c.rest = char :: cs) (h : Lexeme.first? c.rest = none) :
    c.scan = .error ⟨.unrecognised (String.ofList [char]), c.position⟩ := by
  rw [scan]
  split
  · next hnil =>
    rw [hnil] at hrest
    cases hrest
  · next hcons =>
    rw [hcons] at hrest
    cases hrest
    split
    · rfl
    · next hsome => rw [hsome] at h; cases h

/-- What holds at the end of a text, at a character that begins no piece, and in front of a piece if
it holds behind it, holds of the tokens from any place on. -/
theorem scan_induction {motive : List Char → List Char → Except SyntaxError (List Token) → Prop}
    (nil : ∀ before, motive before [] (.ok [.endAt (.behind file before)]))
    (fault : ∀ before c cs, Lexeme.first? (c :: cs) = none →
      motive before (c :: cs) (.error ⟨.unrecognised (String.ofList [c]), .behind file before⟩))
    (piece : ∀ before rest after x r, Lexeme.first? rest = some (x, after) →
      motive (before ++ x.text) after r → motive before rest (r.map fun ts =>
        (x.cls.token? x.text ⟨.behind file before, .behind file (before ++ x.text)⟩).toList ++ ts))
    (before rest : List Char) : motive before rest (behind file before rest).scan := by
  -- by induction on how much is left to read
  generalize hn : rest.length = n
  induction n using Nat.strongRecOn generalizing before rest with
  | _ n ih =>
  subst hn
  cases rest with
  | nil =>
    rw [scan_of_rest_eq_nil rfl]
    exact nil before
  | cons c cs =>
    cases hfirst : Lexeme.first? (c :: cs) with
    | none =>
      rw [scan_of_first?_eq_none (c := behind file before (c :: cs)) rfl hfirst]
      exact fault before c cs hfirst
    | some found =>
      obtain ⟨x, after⟩ := found
      rw [scan_of_first?_eq_some (c := behind file before (c :: cs)) hfirst, after_behind]
      exact piece before _ after x _ hfirst (ih _ (Lexeme.length_lt_of_first? hfirst) _ _ rfl)

end Cursor

/-- One piece more in front: either space that is passed over, or the next token. -/
theorem Laid.of_first? {file : String} {before rest after : List Char} {x : Lexeme}
    {ts : List Token} (hfirst : Lexeme.first? rest = some (x, after))
    (h : Laid file (before ++ x.text) after ts) :
    Laid file before rest ((x.cls.token? x.text
      ⟨.behind file before, .behind file (before ++ x.text)⟩).toList ++ ts) := by
  have hcut := Lexeme.cut?_of_first? hfirst
  rw [← Lexeme.append_of_first? hfirst]
  cases htoken : x.cls.token? x.text ⟨.behind file before, .behind file (before ++ x.text)⟩ with
  | none =>
    refine h.skip fun gap behind hafter hgap => ?_
    rw [hafter] at hcut
    exact Lexeme.Class.gap_of_token?_eq_none hcut htoken hgap
  | some t =>
    obtain ⟨hkind, htext, hspan⟩ := Lexeme.Class.text_of_token? hcut htoken
    have hne : t.text ≠ [] := htext ▸ Lexeme.Class.ne_nil_of_cut? hcut
    rw [← htext] at hspan h ⊢
    have hnext : Laid file before ([] ++ (t.text ++ after)) (t :: ts) :=
      .next .nil hkind hne (by simpa using hspan) (by simpa using h)
    exact hnext

theorem Cursor.laid_of_scan {file : String} {before rest : List Char} {ts : List Token}
    (h : (behind file before rest).scan = .ok ts) : Laid file before rest ts := by
  refine scan_induction (motive := fun before rest r => ∀ ts, r = .ok ts → Laid file before rest ts)
    (fun before ts h => ?_) (fun _ _ _ _ _ h => ?_)
    (fun before rest after x r hfirst ih ts h => ?_) before rest ts h
  · cases h
    have hlast : Laid file before [] _ := .last .nil
    rwa [List.append_nil] at hlast
  · cases h
  · cases r with
    | error e => cases h
    | ok us =>
      cases h
      exact (ih us rfl).of_first? hfirst

end Chalk
