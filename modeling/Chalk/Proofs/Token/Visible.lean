import Chalk.Proofs.Token.Lexing

/-!
# Tokens begin with something to be seen

A token begins at a character that is not blank, and so does what is left of a source where it
cannot be cut into tokens (`Cursor.visible_of_scan`). So there is something to be seen on the line
of each token, and on that of each fault found there. The end of the text is no such place.
-/

namespace Chalk

/-- A character that is not blank stands at the place. -/
def Position.Visible (p : Position) (file : String) (source : List Char) : Prop :=
  ∃ pre c post, source = pre ++ c :: post ∧ Text.isBlank c = false ∧ p = .behind file pre

namespace Lexeme

variable {c : Char} {cs text rest : List Char}

/-- White space comes off as a piece, so other characters are left where nothing comes off. -/
theorem isBlank_eq_false_of_first?_eq_none (h : first? (c :: cs) = none) :
    Text.isBlank c = false := by
  rw [Bool.eq_false_iff]
  intro hblank
  have hcut : Class.blank.cut? (c :: cs) = none := by
    simpa using List.findSome?_eq_none_iff.1 h Class.blank (by simp [Class.all])
  simp [Class.cut?, cutBlank?, hblank] at hcut

/-- The piece of a token begins with a character that is not blank. -/
theorem Class.isBlank_eq_false_of_token? {k : Class} {span : Span} {t : Token}
    (hcut : k.cut? (c :: cs) = some (text, rest)) (h : k.token? text span = some t) :
    Text.isBlank c = false := by
  have hbegins := begins_of_cut? hcut
  cases k with
  | name =>
    obtain ⟨hlow, hhigh⟩ := hbegins.codes
    exact Text.isBlank_eq_false (by omega) (by omega)
  | number =>
    obtain ⟨hlow, hhigh⟩ := hbegins.codes
    exact Text.isBlank_eq_false (by omega) (by omega)
  | string =>
    obtain ⟨rfl, -⟩ := hbegins
    decide
  | sign s =>
    obtain ⟨more, hmore⟩ := hbegins
    obtain ⟨d, ds, hspelling⟩ := List.exists_cons_of_ne_nil s.spelling_ne_nil
    rw [hspelling] at hmore
    cases hmore
    cases s <;> cases hspelling <;> decide
  | blank | comment => cases h

end Lexeme

/-- Each token but the last one begins at a visible character, and so does what cannot be cut. -/
theorem Cursor.visible_of_scan (file : String) (before rest : List Char) :
    match (behind file before rest).scan with
    | .ok ts => ∀ t ∈ ts, t.kind ≠ .eof → t.span.start.Visible file (before ++ rest)
    | .error e => e.position.Visible file (before ++ rest) := by
  refine scan_induction (motive := fun before rest r => match r with
    | .ok ts => ∀ t ∈ ts, t.kind ≠ .eof → t.span.start.Visible file (before ++ rest)
    | .error e => e.position.Visible file (before ++ rest)) ?_ ?_ ?_ before rest
  · intro before t ht hkind
    cases List.mem_singleton.1 ht
    exact absurd rfl hkind
  · intro before c cs hfirst
    exact ⟨before, c, cs, rfl, Lexeme.isBlank_eq_false_of_first?_eq_none hfirst, rfl⟩
  · intro before rest after x r hfirst ih
    have hcut := Lexeme.cut?_of_first? hfirst
    rw [List.append_assoc, Lexeme.append_of_first? hfirst] at ih
    cases r with
    | error e => exact ih
    | ok ts =>
      intro t ht hkind
      rcases List.mem_append.1 ht with ht | ht
      · have htoken := Option.mem_toList.1 ht
        obtain ⟨-, -, hspan⟩ := Lexeme.Class.text_of_token? hcut htoken
        cases rest with
        | nil => exact absurd (Lexeme.length_lt_of_first? hfirst) (Nat.not_lt_zero _)
        | cons c cs =>
          have hc := Lexeme.Class.isBlank_eq_false_of_token? hcut htoken
          exact ⟨before, c, cs, rfl, hc, by rw [hspan]⟩
      · exact ih t ht hkind

/-- A source is cut into tokens that begin at visible characters, and an end. -/
theorem exists_pieces_of_tokenize {source file : String} {ts : List Token}
    (h : tokenize source file = .ok ts) :
    ∃ pieces, ts = pieces ++ [.endAt (.behind file source.toList)] ∧
      ∀ t ∈ pieces, t.span.start.Visible file source.toList := by
  have hlaid : Laid file [] source.toList ts := Cursor.laid_of_scan h
  have hvisible := Cursor.visible_of_scan file [] source.toList
  rw [show (Cursor.behind file [] source.toList).scan = .ok ts from h] at hvisible
  obtain ⟨pieces, rfl, hkinds⟩ := hlaid.eq_append_end
  exact ⟨pieces, rfl, fun t ht => hvisible t (List.mem_append_left _ ht) (hkinds t ht)⟩

end Chalk
