import Chalk.Proofs.Token.Layout

/-!
# Which piece comes first

The converse of cutting: a text that has the form of a class is the first piece in front of
whatever cannot go on with it. What cannot go on with a piece is said by the next character alone.
`Cursor.Passes` puts such pieces one behind the other.
-/

namespace Chalk

namespace Lexeme

variable {c : Char} {cs rest : List Char}

/-! ## Names, numbers, blanks and strings -/

theorem first?_name (hc : isNameStart c = true) (hcs : ∀ d ∈ cs, isNamePart d = true)
    (hrest : ∀ d ∈ rest.head?, isNamePart d = false) :
    first? (c :: cs ++ rest) = some (⟨.name, c :: cs⟩, rest) :=
  first?_of_cut? (by decide) (Class.cut?_eq_some_iff.2 ⟨rfl, ⟨c, cs, rfl, hc, hcs⟩, hrest⟩)

theorem first?_numeral (h : IsNumeral cs) (hrest : Class.number.Ends cs rest) :
    first? (cs ++ rest) = some (⟨.number, cs⟩, rest) :=
  first?_of_cut? (by decide) (Class.cut?_eq_some_iff.2 ⟨rfl, h, hrest⟩)

theorem first?_digits (hne : cs ≠ []) (hcs : ∀ d ∈ cs, d.isDigit = true)
    (hrest : ∀ d ∈ rest.head?, d.isDigit = false ∧ d ≠ '.') :
    first? (cs ++ rest) = some (⟨.number, cs⟩, rest) := by
  refine first?_numeral (.inl ⟨hne, hcs⟩) ⟨fun d hd => (hrest d hd).1, fun _ d ds heq => ?_⟩
  exact absurd rfl (hrest '.' (heq ▸ rfl)).2

/-- One space in front of something else. -/
theorem first?_space (hrest : ∀ d ∈ rest.head?, Text.isBlank d = false) :
    first? (' ' :: rest) = some (⟨.blank, [' ']⟩, rest) :=
  have hform : Class.blank.Forms [' '] := ⟨List.cons_ne_nil _ _, List.forall_mem_singleton.2 rfl⟩
  first?_of_cut? (by decide) (Class.cut?_eq_some_iff.2 ⟨rfl, hform, hrest⟩)

theorem first?_quoted (hclosed : cutClosed? (cs ++ '"' :: rest) = some (cs ++ ['"'], rest)) :
    first? ('"' :: (cs ++ '"' :: rest)) = some (⟨.string, '"' :: (cs ++ ['"'])⟩, rest) := by
  refine first?_of_cut? (by decide) ?_
  rw [Class.cut?, cutString?, hclosed]
  rfl

/-! ## Signs -/

/-- A text that begins with a sign, where no comment begins, is left to the signs. -/
theorem first?_eq_findSome?_sign (s : Sign)
    (hcomment : s = .slash → ∀ d ∈ rest.head?, d ≠ '/') :
    first? (s.spelling ++ rest) = Sign.all.findSome? fun s' =>
      ((Class.sign s').cut? (s.spelling ++ rest)).map fun (text, rest) =>
        (⟨.sign s', text⟩, rest) := by
  have hnone : ∀ j ∈ Class.simple, j.cut? (s.spelling ++ rest) = none := by
    obtain ⟨c, cs, hspelling⟩ := List.exists_cons_of_ne_nil s.spelling_ne_nil
    have hc : isNameStart c = false ∧ c.isDigit = false ∧ Text.isBlank c = false ∧ c ≠ '"' ∧
        (c = '/' → s = .slash ∧ cs = []) := by
      cases s <;> cases hspelling <;> decide
    obtain ⟨hname, hdigit, hblank, hquote, hslash⟩ := hc
    have hcomment' : ¬ Class.comment.Begins c (cs ++ rest) := by
      rintro ⟨hc, hhead⟩
      obtain ⟨rfl, rfl⟩ := hslash hc
      exact hcomment rfl '/' hhead rfl
    rw [hspelling, List.cons_append]
    simp only [Class.simple, List.forall_mem_cons, List.not_mem_nil, false_implies, implies_true,
      and_true, Class.cut?_eq_none_iff]
    exact ⟨Bool.eq_false_iff.1 hname, Bool.eq_false_iff.1 hdigit, Bool.eq_false_iff.1 hblank,
      fun h => hquote h.1, hcomment'⟩
  rw [first?, Class.all, List.findSome?_append, List.findSome?_eq_none_iff.2, Option.none_or,
    List.findSome?_map]
  · rfl
  · intro j hj
    rw [hnone j hj]
    rfl

/-- A sign comes first where the next character makes no longer sign of it, and no comment. -/
theorem first?_sign (s : Sign) (hrest : ∀ d ∈ rest.head?, d ≠ '=' ∧ d ≠ '>' ∧ d ≠ '/') :
    first? (s.spelling ++ rest) = some (⟨.sign s, s.spelling⟩, rest) := by
  rw [first?_eq_findSome?_sign s fun _ d hd => (hrest d hd).2.2]
  cases rest with
  | nil => cases s <;> rfl
  | cons d ds =>
    obtain ⟨heq, hgt, -⟩ := hrest d rfl
    simp only [Sign.all, List.findSome?_cons]
    simp only [Class.cut?, cutPattern?, patternText_pattern]
    cases s <;> simp [Sign.spelling, heq.symm, hgt.symm]

end Lexeme

/-- A letter or an underscore, then letters, digits and underscores, and no keyword. -/
structure IsName (name : String) : Prop where
  form : ∃ c cs, name.toList = c :: cs ∧ (c.isAlpha = true ∨ c = '_') ∧
    ∀ d ∈ cs, d.isAlphanum = true ∨ d = '_'
  free : ∀ k : Keyword, k.spelling ≠ name

theorem IsName.exists_cons {name : String} (h : IsName name) : ∃ c cs, name.toList = c :: cs ∧
    Lexeme.isNameStart c = true ∧ ∀ d ∈ cs, Lexeme.isNamePart d = true := by
  obtain ⟨c, cs, htext, hc, hcs⟩ := h.form
  exact ⟨c, cs, htext, by simpa [Lexeme.isNameStart] using hc,
    fun d hd => by simpa [Lexeme.isNamePart] using hcs d hd⟩

theorem IsName.ofWord_eq {name : String} (h : IsName name) :
    Token.Kind.ofWord name = .identifier := by
  have hnone : Keyword.ofSpelling? name = none := by
    rw [Option.eq_none_iff_forall_ne_some]
    intro k hk
    exact h.free k (Keyword.ofSpelling?_eq_some_iff.1 hk)
  rw [Token.Kind.ofWord, hnone]

namespace Cursor

/-- Behind `before` a text is cut into the tokens `ts`, in front of those into which `rest` is
cut. -/
def Passes (file : String) (before text rest : List Char) (ts : List Token) : Prop :=
  ∀ us, (behind file (before ++ text) rest).scan = .ok us →
    (behind file before (text ++ rest)).scan = .ok (ts ++ us)

namespace Passes

variable {file : String} {before text text' rest : List Char} {ts ts' : List Token}

theorem nil : Passes file before [] rest [] := by
  intro us hus
  rwa [List.append_nil] at hus

theorem append (h : Passes file before text (text' ++ rest) ts)
    (h' : Passes file (before ++ text) text' rest ts') :
    Passes file before (text ++ text') rest (ts ++ ts') := by
  intro us hus
  rw [← List.append_assoc] at hus
  rw [List.append_assoc, List.append_assoc]
  exact h _ (h' us hus)

theorem of_first? {x : Lexeme} (h : Lexeme.first? (x.text ++ rest) = some (x, rest)) :
    Passes file before x.text rest
      (x.cls.token? x.text ⟨.behind file before, .behind file (before ++ x.text)⟩).toList := by
  intro us hus
  rw [scan_of_first?_eq_some (c := behind file before (x.text ++ rest)) h, after_behind, hus]
  rfl

/-- A space is passed over. -/
theorem space (hrest : ∀ d ∈ rest.head?, Text.isBlank d = false) :
    Passes file before [' '] rest [] :=
  of_first? (x := ⟨.blank, [' ']⟩) (Lexeme.first?_space hrest)

theorem sign (file : String) (before : List Char) (s : Sign)
    (hrest : ∀ d ∈ rest.head?, d ≠ '=' ∧ d ≠ '>' ∧ d ≠ '/') :
    ∃ t : Token, t.kind = .sign s ∧ Passes file before s.spelling rest [t] :=
  ⟨_, rfl, of_first? (x := ⟨.sign s, s.spelling⟩) (Lexeme.first?_sign s hrest)⟩

theorem name (file : String) (before : List Char) {name : String} (h : IsName name)
    (hrest : ∀ d ∈ rest.head?, Lexeme.isNamePart d = false) :
    ∃ t : Token, t.kind = .identifier ∧ t.value = name ∧
      Passes file before name.toList rest [t] := by
  obtain ⟨c, cs, htext, hc, hcs⟩ := h.exists_cons
  have hfirst := Lexeme.first?_name hc hcs hrest
  rw [← htext] at hfirst
  have hword : String.ofList name.toList = name := String.ofList_toList
  exact ⟨_, (congrArg Token.Kind.ofWord hword).trans h.ofWord_eq, hword,
    of_first? (x := ⟨.name, name.toList⟩) hfirst⟩

theorem digits (file : String) (before : List Char) {cs : List Char} (hne : cs ≠ [])
    (hcs : ∀ d ∈ cs, d.isDigit = true) (hrest : ∀ d ∈ rest.head?, d.isDigit = false ∧ d ≠ '.') :
    ∃ t : Token, t.kind = .number ∧ t.value = String.ofList cs ∧ Passes file before cs rest [t] :=
  ⟨_, rfl, rfl, of_first? (x := ⟨.number, cs⟩) (Lexeme.first?_digits hne hcs hrest)⟩

theorem quoted (file : String) (before : List Char) {cs : List Char}
    (hclosed : Lexeme.cutClosed? (cs ++ '"' :: rest) = some (cs ++ ['"'], rest)) :
    ∃ t : Token, t.kind = .string ∧ t.value = String.ofList cs ∧
      Passes file before ('"' :: (cs ++ ['"'])) rest [t] := by
  have hfirst := Lexeme.first?_quoted hclosed
  refine ⟨_, rfl, ?_, of_first? (x := ⟨.string, '"' :: (cs ++ ['"'])⟩) (by simpa using hfirst)⟩
  simp

theorem scan_eq (h : Passes file before text [] ts) :
    (behind file before text).scan = .ok (ts ++ [.endAt (.behind file (before ++ text))]) := by
  have hend : (behind file (before ++ text) []).scan = _ := scan_of_rest_eq_nil rfl
  have hall := h _ hend
  rwa [List.append_nil] at hall

end Passes

end Cursor

/-! ## The names that are cut -/

/-- An identifier is cut from a name that is not set aside. -/
theorem Lexeme.Class.isName_of_token? {k : Class} {cs text rest : List Char} {span : Span}
    {t : Token} (hcut : k.cut? cs = some (text, rest)) (h : k.token? text span = some t)
    (hkind : t.kind = .identifier) : IsName t.value := by
  cases k with
  | name =>
    cases h
    have hfree : Keyword.ofSpelling? (String.ofList text) = none := by
      cases hword : Keyword.ofSpelling? (String.ofList text) with
      | none => rfl
      | some k => simp [Token.Kind.ofWord, hword] at hkind
    refine ⟨?_, fun k hk => ?_⟩
    · cases cs with
      | nil => cases hcut
      | cons c cs =>
        simp only [cut?, cutName?] at hcut
        split at hcut
        · next hc =>
          cases hcut
          refine ⟨c, _, String.toList_ofList, by simpa [isNameStart] using hc, fun d hd => ?_⟩
          have hpart := List.mem_takeWhile_imp hd
          simpa [isNamePart] using hpart
        · cases hcut
    · rw [Keyword.ofSpelling?_eq_some_iff.2 hk] at hfree
      cases hfree
  | number | string | sign =>
    cases h
    cases hkind
  | blank | comment => cases h

/-- What holds of the end of the text and of all tokens that can be cut holds of the tokens of a
source. -/
theorem forall_of_tokenize {P : Token → Prop} (hend : ∀ place, P (.endAt place))
    (hpiece : ∀ {k : Lexeme.Class} {cs text rest : List Char} {span : Span} {t : Token},
      k.cut? cs = some (text, rest) → k.token? text span = some t → P t)
    {source file : String} {ts : List Token} (h : tokenize source file = .ok ts) : ∀ t ∈ ts, P t := by
  have hscan : (Cursor.behind file [] source.toList).scan = .ok ts := h
  refine Cursor.scan_induction (motive := fun _ _ r => ∀ ts, r = .ok ts → ∀ t ∈ ts, P t)
    (fun _ ts h => ?_) (fun _ _ _ _ ts h => ?_) (fun _ _ _ x r hfirst ih ts h => ?_) []
    source.toList ts hscan
  · cases h
    exact List.forall_mem_singleton.2 (hend _)
  · cases h
  · cases r with
    | error e => cases h
    | ok us =>
      cases h
      refine List.forall_mem_append.2 ⟨fun t ht => ?_, ih us rfl⟩
      exact hpiece (Lexeme.cut?_of_first? hfirst) (Option.mem_toList.1 ht)

theorem isName_of_tokenize {source file : String} {ts : List Token}
    (h : tokenize source file = .ok ts) : ∀ t ∈ ts, t.kind = .identifier → IsName t.value :=
  forall_of_tokenize (fun _ => nofun) (fun hcut htoken => Lexeme.Class.isName_of_token? hcut htoken) h

end Chalk
