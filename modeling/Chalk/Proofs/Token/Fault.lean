import Chalk.Proofs.Token.Concatenation
import Chalk.Proofs.Token.Lossless

/-!
# Where a source cannot be cut into tokens

A source that cannot be cut fails at one character: what stands before it can be cut by itself, and
no token begins with the character (`tokenize_error_at_iff`). Two things have to be ruled out, since
they would take the character along: a comment that the text before it ends with, and a number that
a point and a digit go on with. Whether a text ends with a comment is followed character by
character (`Region`).
-/

namespace Chalk

/-! ## Characters that begin a token -/

namespace Lexeme

variable {c : Char} {cs rest : List Char}

/-- The characters that are signs. -/
def signChars : List Char :=
  ['\x7b', '\x7d', '(', ')', '=', '<', '>', ';', ':', ',', '+', '-', '/', '*']

/-- A token, white space or a comment begins with the character. An exclamation mark needs an equals
sign behind it, and a quote another one that closes it. -/
def CanBegin (c : Char) (cs : List Char) : Prop :=
  c.isAlphanum = true ∨ c = '_' ∨ Text.isBlank c = true ∨ c ∈ signChars ∨
    (c = '!' ∧ cs.head? = some '=') ∨
    c = '"' ∧ ∃ inside rest, Literal.Inside inside ∧ cs = inside ++ '"' :: rest

theorem exists_sign_begins_iff (c : Char) (cs : List Char) :
    (∃ s, (Class.sign s).Begins c cs) ↔ c ∈ signChars ∨ c = '!' ∧ cs.head? = some '=' := by
  constructor
  · rintro ⟨s, rest, hrest⟩
    cases s <;> cases hrest <;> simp [signChars]
  · rintro (hc | ⟨rfl, hequals⟩)
    · have hsigns : (signChars.all fun c => Sign.all.any fun s => s.spelling == [c]) = true := by
        decide
      obtain ⟨s, -, hs⟩ := List.any_eq_true.1 (List.all_eq_true.1 hsigns c hc)
      exact ⟨s, cs, by rw [eq_of_beq hs, List.singleton_append]⟩
    · obtain ⟨rest, rfl⟩ := List.head?_eq_some_iff.1 hequals
      exact ⟨.notEquals, rest, rfl⟩

theorem canBegin_iff : CanBegin c cs ↔ ∃ k ∈ Class.all, k.Begins c cs := by
  have hsigns := exists_sign_begins_iff c cs
  constructor
  · rintro (hc | rfl | hc | hc | hc | hc)
    · rcases (Bool.or_eq_true ..).mp hc with halpha | hdigit
      · exact ⟨.name, by decide, by simp [Class.Begins, isNameStart, halpha]⟩
      · exact ⟨.number, by decide, hdigit⟩
    · exact ⟨.name, by decide, rfl⟩
    · exact ⟨.blank, by decide, hc⟩
    · obtain ⟨s, hs⟩ := hsigns.2 (.inl hc)
      exact ⟨.sign s, by simp [Class.all, s.mem_all], hs⟩
    · obtain ⟨s, hs⟩ := hsigns.2 (.inr hc)
      exact ⟨.sign s, by simp [Class.all, s.mem_all], hs⟩
    · exact ⟨.string, by decide, hc⟩
  · rintro ⟨k, -, hk⟩
    cases k with
    | name =>
      rcases (Bool.or_eq_true ..).mp hk with halpha | hunderscore
      · exact .inl (by simp [Char.isAlphanum, halpha])
      · exact .inr (.inl (by simpa using hunderscore))
    | number => exact .inl (by simp [Char.isAlphanum, show c.isDigit = true from hk])
    | blank => exact .inr (.inr (.inl hk))
    | string => exact .inr (.inr (.inr (.inr (.inr hk))))
    | comment =>
      obtain ⟨rfl, -⟩ := hk
      exact .inr (.inr (.inr (.inl (by decide))))
    | sign s =>
      rcases hsigns.1 ⟨s, hk⟩ with hc | hc
      · exact .inr (.inr (.inr (.inl hc)))
      · exact .inr (.inr (.inr (.inr (.inl hc))))

theorem first?_eq_none_iff : first? (c :: cs) = none ↔ ¬ CanBegin c cs := by
  simp only [first?, List.findSome?_eq_none_iff, Option.map_eq_none_iff, Class.cut?_eq_none_iff,
    canBegin_iff, not_exists, not_and]

/-- A character that begins no token goes on with none either, but for a point in a number. -/
theorem isStop_of_not_canBegin (h : ¬ CanBegin c cs) : IsStop c := by
  simp only [CanBegin, not_or] at h
  obtain ⟨halnum, hunderscore, -, hsigns, -⟩ := h
  refine ⟨by simp [isNamePart, halnum, hunderscore], ⟨?_, ?_⟩, ?_⟩
  all_goals
    rintro rfl
    exact hsigns (by decide)

end Lexeme

/-! ## Texts that end with a comment -/

/-- Where in a source a place can be, as far as the text before it says. -/
inductive Region where
  | code
  /-- Behind a slash that may be the first of two. -/
  | slash
  | string
  /-- Behind the backslash of a pair. -/
  | escape
  | comment
deriving DecidableEq, Repr

namespace Region

/-- The region behind one more character. -/
def step : Region → Char → Region
  | code, c => if c = '"' then string else if c = '/' then slash else code
  | slash, c => if c = '"' then string else if c = '/' then comment else code
  | string, c => if c = '"' then code else if c = '\\' then escape else string
  | escape, _ => string
  | comment, c => if c = '\n' then code else comment

/-- The region behind a text. -/
def after (r : Region) (text : List Char) : Region :=
  text.foldl step r

/-- A piece ends in the region, and the next one does not go on with it. -/
def Borders : Region → List Char → Prop
  | code, _ => True
  | slash, rest => rest.head? ≠ some '/'
  | comment, rest => ∀ c ∈ rest.head?, c = '\n'
  | string, _ | escape, _ => False

theorem after_append (r : Region) (cs ds : List Char) :
    r.after (cs ++ ds) = (r.after cs).after ds :=
  List.foldl_append

/-- Between pieces, it does not matter which piece was the last. -/
theorem Borders.after_eq {r : Region} {c : Char} {cs : List Char} (h : r.Borders (c :: cs)) :
    r.after (c :: cs) = code.after (c :: cs) := by
  have hstep : r.step c = code.step c := by
    cases r with
    | code => rfl
    | slash =>
      have hc : c ≠ '/' := fun hc => h (congrArg some hc)
      simp [step, hc]
    | comment =>
      cases h c rfl
      rfl
    | string | escape => cases h
  exact congrArg (fun s : Region => s.after cs) hstep

/-- Characters that are neither quotes nor slashes are passed over. -/
theorem after_eq_code {p : Char → Bool} {text : List Char} (h : ∀ c ∈ text, p c = true)
    (hquote : p '"' = false) (hslash : p '/' = false) : code.after text = code := by
  induction text with
  | nil => rfl
  | cons c text ih =>
    obtain ⟨hc, htext⟩ := List.forall_mem_cons.1 h
    have hstep : code.step c = code := by
      rw [step, if_neg (by rintro rfl; simp [hquote] at hc),
        if_neg (by rintro rfl; simp [hslash] at hc)]
    rw [after, List.foldl_cons, hstep]
    exact ih htext

theorem after_inside {text : List Char} (h : Literal.Inside text) : string.after text = string := by
  induction h with
  | nil => rfl
  | plain quote backslash _ ih =>
    rw [after, List.foldl_cons, step, if_neg quote, if_neg backslash]
    exact ih
  | pair _ _ ih => exact ih

theorem comment_after {text : List Char} (h : '\n' ∉ text) : comment.after text = comment := by
  induction text with
  | nil => rfl
  | cons c text ih =>
    obtain ⟨hc, htext⟩ : '\n' ≠ c ∧ '\n' ∉ text := by simpa using h
    rw [after, List.foldl_cons, step, if_neg hc.symm]
    exact ih htext

theorem after_comment {text : List Char} (h : Lexeme.Class.comment.Forms text) :
    code.after text = comment := by
  obtain ⟨body, hbody, rfl⟩ := h
  exact comment_after hbody

/-- Each piece leads from code back to code, but for comments and slashes. -/
theorem after_forms {k : Lexeme.Class} {text : List Char} (h : k.Forms text) (hcomment : k ≠ .comment)
    (hslash : k ≠ .sign .slash) : code.after text = code := by
  cases k with
  | name => exact after_eq_code (Lexeme.Class.isNamePart_of_forms h) (by decide) (by decide)
  | number =>
    have hall : ∀ c ∈ text, (c.isDigit || c == '.') = true := by
      rcases h with hdigits | ⟨whole, fraction, hwhole, hfraction, rfl⟩
      · intro c hc
        simp [hdigits.2 c hc]
      · simp only [List.forall_mem_append, List.forall_mem_cons]
        exact ⟨fun c hc => by simp [hwhole.2 c hc], rfl, fun c hc => by simp [hfraction.2 c hc]⟩
    exact after_eq_code hall (by decide) (by decide)
  | blank => exact after_eq_code h.2 (by decide) (by decide)
  | string =>
    obtain ⟨inside, hinside, rfl⟩ := h
    have hopen : code.after ('"' :: (inside ++ ['"'])) = string.after (inside ++ ['"']) := rfl
    rw [hopen, after_append, after_inside hinside]
    rfl
  | comment => exact absurd rfl hcomment
  | sign s =>
    cases h
    cases s <;> first | rfl | exact absurd rfl hslash

/-- Behind the first piece, a text borders on what follows. -/
theorem borders_of_first? {x : Lexeme} {cs rest : List Char}
    (h : Lexeme.first? cs = some (x, rest)) : (code.after x.text).Borders rest := by
  have hcut := Lexeme.cut?_of_first? h
  obtain ⟨hcs, htext, hends⟩ := Lexeme.Class.cut?_eq_some_iff.1 hcut
  by_cases hcomment : x.cls = .comment
  · rw [hcomment] at htext hends
    rw [after_comment htext]
    exact hends
  by_cases hslash : x.cls = .sign .slash
  · -- A second slash would have made a comment of the first.
    rw [hslash] at htext
    have hx : x.text = ['/'] := htext
    rw [hx] at hcs ⊢
    intro hhead
    have hbegins : Lexeme.Class.comment.Begins '/' rest := ⟨rfl, hhead⟩
    obtain ⟨body, after, hbody⟩ := hbegins.exists_cut?
    rw [hcs, List.singleton_append, Lexeme.first?_of_cut? (by decide) hbody] at h
    cases h
    cases hslash
  · rw [after_forms htext hcomment hslash]
    trivial

end Region

/-- The text ends in a comment that has not ended. -/
def EndsInComment (text : List Char) : Prop :=
  Region.code.after text = .comment

/-- Whether a text ends in a comment is said by what stands behind its first piece, if anything
does. -/
theorem endsInComment_append_iff {x : Lexeme} {cs rest : List Char}
    (h : Lexeme.first? cs = some (x, rest)) (hne : rest ≠ []) :
    EndsInComment (x.text ++ rest) ↔ EndsInComment rest := by
  obtain ⟨c, ds, rfl⟩ := List.exists_cons_of_ne_nil hne
  rw [EndsInComment, EndsInComment, Region.after_append, (Region.borders_of_first? h).after_eq]

/-! ## Faults -/

theorem Lexeme.Class.eq_number_of_token? {k : Class} {text : List Char} {span : Span} {t : Token}
    (h : k.token? text span = some t) (hkind : t.kind = .number) :
    k = number ∧ t.value.toList = text ∧ t.span = span := by
  cases k with
  | name =>
    cases h
    have hword : Token.Kind.ofWord (String.ofList text) ≠ .number := by
      unfold Token.Kind.ofWord
      split <;> simp
    exact absurd hkind hword
  | number =>
    cases h
    exact ⟨rfl, String.toList_ofList, rfl⟩
  | string | sign =>
    cases h
    cases hkind
  | blank | comment => cases h

/-- The text goes on, with a point and a digit, with a number without a point among the tokens of
the text before it. -/
def GoesOnNumber (ts : List Token) (before rest : List Char) : Prop :=
  (∃ d ds, rest = '.' :: d :: ds ∧ d.isDigit = true) ∧
    ∃ t ∈ ts, t.kind = .number ∧ '.' ∉ t.value.toList ∧
      t.span.stop.offset.toNat = (Text.utf8 before).length

/-- A number that is gone on with is a later token, or the piece itself if nothing follows it. -/
theorem goesOnNumber_append_iff {file : String} {x : Lexeme} {before text rest : List Char}
    {ts : List Token} (hsize : Text.utf8Length (before ++ x.text ++ text) < UInt32.size) :
    GoesOnNumber ((x.cls.token? x.text ⟨.behind file before, .behind file (before ++ x.text)⟩).toList
        ++ ts) (before ++ x.text ++ text) rest ↔
      GoesOnNumber ts (before ++ x.text ++ text) rest ∨
        text = [] ∧ x.cls = .number ∧ '.' ∉ x.text ∧
          ∃ d ds, rest = '.' :: d :: ds ∧ d.isDigit = true := by
  have hoffset : (Position.behind file (before ++ x.text)).offset.toNat =
      Text.utf8Length (before ++ x.text) := by
    rw [Text.utf8Length_append] at hsize
    exact Position.toNat_offset_behind (by omega)
  constructor
  · rintro ⟨hdigit, t, ht, hkind, hpoint, hstop⟩
    rcases List.mem_append.1 ht with ht | ht
    · obtain ⟨hcls, hvalue, hspan⟩ :=
        Lexeme.Class.eq_number_of_token? (Option.mem_toList.1 ht) hkind
      rw [hspan, hoffset, Text.length_utf8, Text.utf8Length_append _ text] at hstop
      have hnil : text = [] := by
        by_contra hne
        have hpos := Text.utf8Length_pos hne
        omega
      exact .inr ⟨hnil, hcls, hvalue ▸ hpoint, hdigit⟩
    · exact .inl ⟨hdigit, t, ht, hkind, hpoint, hstop⟩
  · rintro (⟨hdigit, t, ht, hnumber⟩ | ⟨rfl, hcls, hpoint, hdigit⟩)
    · exact ⟨hdigit, t, List.mem_append_right _ ht, hnumber⟩
    · refine ⟨hdigit, ⟨.number, String.ofList x.text, .behind file before,
        .behind file (before ++ x.text)⟩, List.mem_append_left _ ?_, rfl,
        by rwa [String.toList_ofList], ?_⟩
      · rw [hcls]
        exact List.mem_singleton_self _
      · rw [List.append_nil, Text.length_utf8]
        exact hoffset

namespace Cursor

variable {file : String} {before rest text cs : List Char} {c : Char}

/-- The text before a fault is cut by itself into the same pieces. -/
theorem exists_fault_of_scan {e : SyntaxError}
    (hsize : Text.utf8Length (before ++ rest) < UInt32.size)
    (h : (behind file before rest).scan = .error e) :
    ∃ text c cs, rest = text ++ c :: cs ∧
      e = ⟨.unrecognised (String.ofList [c]), .behind file (before ++ text)⟩ ∧
      ¬ Lexeme.CanBegin c cs ∧ ¬ EndsInComment text ∧
      ∃ ts, (behind file before text).scan = .ok ts ∧
        ¬ GoesOnNumber ts (before ++ text) (c :: cs) := by
  refine scan_induction (motive := fun before rest r =>
    Text.utf8Length (before ++ rest) < UInt32.size → ∀ e, r = .error e →
      ∃ text c cs, rest = text ++ c :: cs ∧
        e = ⟨.unrecognised (String.ofList [c]), .behind file (before ++ text)⟩ ∧
        ¬ Lexeme.CanBegin c cs ∧ ¬ EndsInComment text ∧
        ∃ ts, (behind file before text).scan = .ok ts ∧
          ¬ GoesOnNumber ts (before ++ text) (c :: cs)) ?_ ?_ ?_ before rest hsize e h
  · intro before hsize e h
    cases h
  · intro before c cs hfirst hsize e h
    cases h
    refine ⟨[], c, cs, rfl, by rw [List.append_nil], Lexeme.first?_eq_none_iff.1 hfirst, nofun, _,
      scan_of_rest_eq_nil rfl, ?_⟩
    rintro ⟨-, t, ht, hkind, -⟩
    cases List.mem_singleton.1 ht
    cases hkind
  · intro before rest after x r hfirst ih hsize e h
    cases r with
    | ok ts => cases h
    | error e =>
    cases h
    have hrest := Lexeme.append_of_first? hfirst
    rw [← hrest, ← List.append_assoc] at hsize
    obtain ⟨text, c, cs, rfl, rfl, hbegin, hcomment, ts, hts, hnumber⟩ := ih hsize e rfl
    have hfirst' : Lexeme.first? (x.text ++ text) = some (x, text) :=
      Lexeme.first?_of_isPrefix hfirst (List.prefix_append ..)
    have hscan : (behind file before (x.text ++ text)).scan = .ok ((x.cls.token? x.text
        ⟨.behind file before, .behind file (before ++ x.text)⟩).toList ++ ts) := by
      rw [scan_of_first?_eq_some (c := behind file before (x.text ++ text)) hfirst', after_behind,
        hts]
      rfl
    refine ⟨x.text ++ text, c, cs, by rw [← hrest, List.append_assoc], by rw [List.append_assoc],
      hbegin, ?_, _, hscan, ?_⟩
    · by_cases hnil : text = []
      · -- A comment goes up to a newline, which is no fault.
        subst hnil
        rw [List.append_nil]
        intro hends
        have hborders := Region.borders_of_first? hfirst
        rw [show Region.code.after x.text = .comment from hends] at hborders
        cases hborders c rfl
        exact hbegin (.inr (.inr (.inl rfl)))
      · rwa [endsInComment_append_iff hfirst' hnil]
    · rw [← List.append_assoc, Text.utf8Length_append _ (c :: cs)] at hsize
      rw [← List.append_assoc, goesOnNumber_append_iff (by omega)]
      rintro (hlater | ⟨rfl, hcls, hpoint, d, ds, heq, hd⟩)
      · exact hnumber hlater
      · obtain ⟨-, -, hends⟩ := Lexeme.Class.cut?_eq_some_iff.1 (Lexeme.cut?_of_first? hfirst)
        rw [hcls] at hends
        exact absurd hd (by simp [hends.2 hpoint d ds heq])

/-- A fault behind a text, where nothing of the text goes on. -/
theorem scan_append_fault {ts : List Token}
    (hsize : Text.utf8Length (before ++ text) < UInt32.size)
    (h : (behind file before text).scan = .ok ts) (hbegin : ¬ Lexeme.CanBegin c cs)
    (hcomment : ¬ EndsInComment text) (hnumber : ¬ GoesOnNumber ts (before ++ text) (c :: cs)) :
    (behind file before (text ++ c :: cs)).scan =
      .error ⟨.unrecognised (String.ofList [c]), .behind file (before ++ text)⟩ := by
  refine scan_induction (motive := fun before text r =>
    Text.utf8Length (before ++ text) < UInt32.size → ∀ ts, r = .ok ts → ¬ EndsInComment text →
      ¬ GoesOnNumber ts (before ++ text) (c :: cs) →
      (behind file before (text ++ c :: cs)).scan =
        .error ⟨.unrecognised (String.ofList [c]), .behind file (before ++ text)⟩)
    ?_ ?_ ?_ before text hsize ts h hcomment hnumber
  · intro before hsize ts h hcomment hnumber
    rw [List.append_nil]
    exact scan_of_first?_eq_none (c := behind file before (c :: cs)) rfl
      (Lexeme.first?_eq_none_iff.2 hbegin)
  · intro before c cs hfirst hsize ts h
    cases h
  · intro before text after x r hfirst ih hsize ts h hcomment hnumber
    cases r with
    | error e => cases h
    | ok us =>
    cases h
    obtain ⟨rfl, hforms, -⟩ := Lexeme.Class.cut?_eq_some_iff.1 (Lexeme.cut?_of_first? hfirst)
    rw [← List.append_assoc] at hsize hnumber
    rw [goesOnNumber_append_iff hsize, not_or] at hnumber
    have hstop := Lexeme.isStop_of_not_canBegin hbegin
    have hends : after = [] → x.cls.Ends x.text (c :: cs) := by
      rintro rfl
      rw [List.append_nil] at hcomment
      cases hcls : x.cls with
      | name => exact fun d hd => Option.some.inj hd ▸ hstop.name
      | number =>
        refine ⟨fun d hd => Option.some.inj hd ▸ hstop.isDigit, fun hpoint d ds heq => ?_⟩
        exact Bool.eq_false_iff.2 fun hd => hnumber.2 ⟨rfl, hcls, hpoint, d, ds, heq, hd⟩
      | blank =>
        refine fun d hd => Bool.eq_false_iff.2 fun hblank => hbegin (.inr (.inr (.inl ?_)))
        rwa [← Option.some.inj hd] at hblank
      | comment =>
        rw [hcls] at hforms
        exact absurd (Region.after_comment hforms) hcomment
      | string | sign => trivial
    have hcomment' : ¬ EndsInComment after := by
      by_cases hnil : after = []
      · subst hnil
        nofun
      · rwa [endsInComment_append_iff hfirst hnil] at hcomment
    rw [scan_of_first?_eq_some (c := behind file before (x.text ++ after ++ c :: cs))
      (Lexeme.first?_append_stop hfirst hstop hends), after_behind,
      ih hsize us rfl hcomment' hnumber.1, List.append_assoc before]
    rfl

end Cursor

/-- The length of its beginning in bytes says where a text is parted. -/
theorem Text.append_inj_of_utf8Length {as bs cs ds : List Char} (h : as ++ cs = bs ++ ds)
    (hlength : utf8Length as = utf8Length bs) : as = bs ∧ cs = ds := by
  have hempty : ∀ {as bs ds : List Char}, as = bs ++ ds → utf8Length as = utf8Length bs → ds = [] := by
    rintro as bs ds rfl hlength
    by_contra hne
    have hpos := utf8Length_pos hne
    rw [utf8Length_append] at hlength
    omega
  rcases List.append_eq_append_iff.1 h with ⟨es, hbs, hcs⟩ | ⟨es, has, hds⟩
  · cases hempty hbs hlength.symm
    exact ⟨by simpa using hbs.symm, hcs⟩
  · cases hempty has hlength
    exact ⟨by simpa using has, hds.symm⟩

/-- A source fails at a character if and only if the text before the character is cut into tokens,
nothing of it goes on with the character, and the character begins no token. What fails is the
character alone, on the line that it is on. -/
theorem tokenize_error_at_iff {source : String} {before cs : List Char} {c : Char}
    (hsource : source.toList = before ++ c :: cs)
    (hsize : (Text.utf8 source.toList).length < UInt32.size) (file : String) :
    ((∃ e, tokenize source file = .error e ∧
        e.position.offset.toNat = (Text.utf8 before).length) ↔
      ∃ ts, tokenize (String.ofList before) file = .ok ts ∧ ¬ EndsInComment before ∧
        ¬ GoesOnNumber ts before (c :: cs) ∧ ¬ Lexeme.CanBegin c cs) ∧
    ∀ e, tokenize source file = .error e →
      e.position.offset.toNat = (Text.utf8 before).length →
      e.cause = .unrecognised (String.ofList [c]) ∧
        e.position.line.toNat = 1 + Text.newlines before ∧ e.position.file = file := by
  rw [Text.length_utf8] at hsize ⊢
  have hlength := congrArg Text.utf8Length hsource
  rw [Text.utf8Length_append] at hlength
  have hpos := Text.utf8Length_pos (List.cons_ne_nil c cs)
  have hoffset : (Position.behind file before).offset.toNat = Text.utf8Length before :=
    Position.toNat_offset_behind (by omega)
  have hline : (Position.behind file before).line.toNat = 1 + Text.newlines before := by
    have hcount : Text.newlines before ≤ before.length := List.count_le_length
    have hbytes := Text.length_le_utf8Length before
    exact Position.toNat_line_behind (by omega)
  have hfault : ∀ e, tokenize source file = .error e →
      e.position.offset.toNat = Text.utf8Length before →
      e = ⟨.unrecognised (String.ofList [c]), .behind file before⟩ ∧ ¬ Lexeme.CanBegin c cs ∧
        ¬ EndsInComment before ∧ ∃ ts, tokenize (String.ofList before) file = .ok ts ∧
          ¬ GoesOnNumber ts before (c :: cs) := by
    intro e he hplace
    have hscan : (Cursor.behind file [] source.toList).scan = .error e := he
    obtain ⟨text, d, ds, hrest, rfl, hbegin, hcomment, ts, hts, hnumber⟩ :=
      Cursor.exists_fault_of_scan hsize hscan
    rw [List.nil_append] at hplace hnumber
    have hbound := congrArg Text.utf8Length hrest
    rw [Text.utf8Length_append] at hbound
    have hsame : Text.utf8Length text = Text.utf8Length before :=
      (Position.toNat_offset_behind (by omega)).symm.trans hplace
    obtain ⟨rfl, hcons⟩ := Text.append_inj_of_utf8Length (hrest.symm.trans hsource) hsame
    cases hcons
    refine ⟨rfl, hbegin, hcomment, ts, ?_, hnumber⟩
    rw [tokenize, Cursor.ofText, String.toList_ofList]
    exact hts
  refine ⟨⟨?_, ?_⟩, fun e he hplace => ?_⟩
  · rintro ⟨e, he, hplace⟩
    obtain ⟨-, hbegin, hcomment, ts, hts, hnumber⟩ := hfault e he hplace
    exact ⟨ts, hts, hcomment, hnumber, hbegin⟩
  · rintro ⟨ts, hts, hcomment, hnumber, hbegin⟩
    rw [tokenize, Cursor.ofText, String.toList_ofList] at hts
    have hshort : Text.utf8Length ([] ++ before) < UInt32.size := by
      rw [List.nil_append]
      omega
    have hscan := Cursor.scan_append_fault hshort hts hbegin hcomment hnumber
    rw [← hsource] at hscan
    exact ⟨_, hscan, hoffset⟩
  · obtain ⟨rfl, -⟩ := hfault e he hplace
    exact ⟨rfl, hline, rfl⟩

/-- The second point goes on with no number, and the text before it is two tokens, with a comment
between them that has ended. -/
theorem tokenize_error_at_second_point : ∃ e ts,
    tokenize "1 // é\n2.5.6" "main" = .error e ∧ e.position.offset.toNat = 11 ∧
      e.cause = .unrecognised "." ∧ e.position.line.toNat = 2 ∧
      tokenize "1 // é\n2.5" "main" = .ok ts ∧ ¬ GoesOnNumber ts "1 // é\n2.5".toList ['.', '6'] := by
  have hfails : ∃ e, tokenize "1 // é\n2.5.6" "main" = .error e ∧ e.position.offset.toNat = 11 :=
    ⟨⟨.unrecognised ".", ⟨11, 2, "main"⟩⟩, by decide +kernel, rfl⟩
  obtain ⟨e, he, hplace⟩ := hfails
  obtain ⟨hiff, hcause⟩ := @tokenize_error_at_iff "1 // é\n2.5.6" "1 // é\n2.5".toList ['6'] '.'
    (by decide) (by decide) "main"
  obtain ⟨ts, hts, -, hnumber, -⟩ := hiff.1 ⟨e, he, hplace⟩
  obtain ⟨hunrecognised, hline, -⟩ := hcause e he hplace
  exact ⟨e, ts, he, hplace, hunrecognised, hline, hts, hnumber⟩

end Chalk
