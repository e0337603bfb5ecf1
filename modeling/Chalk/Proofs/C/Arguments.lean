import Chalk.Proofs.C.Layout

/-!
# The arguments of a call in C

The arguments of a call are parted by the commas that lie outside of literals and of further
brackets (`readCall?`). The text of an expression has such commas inside of its own parentheses
only, whatever its strings hold, so it is passed in one piece (`Expr.uncut_cText`), and a `printf`
has the arguments that were written into it (`Expr.readCall?_cPrint`): a format, and one argument
for each conversion in it.
-/

namespace Chalk

namespace C

/-! ## Reading a call -/

/-- The arguments of a call, read up to the parenthesis that closes it, and what follows the call.
The scan of the arguments has come to `s`, and `argument` is what was read of the current one. -/
def readArguments? (s : Scanner) (argument : List Char) :
    List Char → Option (List (List Char) × List Char)
  | [] => none
  | c :: cs =>
    if s = ⟨.code, []⟩ ∧ c = ')' then some ([argument], cs)
    else if s = ⟨.code, []⟩ ∧ c = ',' then
      (readArguments? s [] cs).map fun r => (argument :: r.1, r.2)
    else (s.step c).bind fun s' => readArguments? s' (argument ++ [c]) cs

structure Call where
  function : List Char
  arguments : List (List Char)
deriving DecidableEq, Repr

/-- The call at the start of a text, and what follows it. Spaces in front of an argument do not
belong to it. -/
def readCall? (text : List Char) : Option (Call × List Char) :=
  match text.dropWhile (· ≠ '(') with
  | [] => none
  | _ :: inside =>
    (readArguments? ⟨.code, []⟩ [] inside).map fun r =>
      (⟨text.takeWhile (· ≠ '('), r.1.map (·.dropWhile (· = ' '))⟩, r.2)

example : readCall? "f(a, g(b, c), \"d, )\") + 1".toList =
    some (⟨"f".toList, ["a".toList, "g(b, c)".toList, "\"d, )\"".toList]⟩, " + 1".toList) := by
  decide +kernel

variable {s s' : Scanner} {c : Char}

theorem readArguments?_step (hstep : s.step c = some s')
    (hstays : s = ⟨.code, []⟩ → c ≠ ')' ∧ c ≠ ',') (argument cs : List Char) :
    readArguments? s argument (c :: cs) = readArguments? s' (argument ++ [c]) cs := by
  rw [readArguments?, if_neg fun h => (hstays h.1).1 h.2, if_neg fun h => (hstays h.1).2 h.2, hstep]
  rfl

/-! ## Texts in one piece -/

/-- Where the reading of an argument comes to the text, it goes through to its end, and is then
where it was. -/
def Uncut (mode : Mode) (text : List Char) : Prop :=
  ∀ opened argument rest, readArguments? ⟨mode, opened⟩ argument (text ++ rest) =
    readArguments? ⟨mode, opened⟩ (argument ++ text) rest

theorem Scanner.close_inside {b : Bracket} {opened : List Bracket} (h : close b opened = some s')
    (outer : List Bracket) : close b (opened ++ outer) = some ⟨s'.mode, s'.opened ++ outer⟩ := by
  cases opened with
  | nil => cases h
  | cons b' opened =>
    simp only [close] at h
    split at h
    · next heq =>
      cases h
      exact if_pos heq
    · cases h

/-- What a scan does is the same inside of further brackets. -/
theorem Scanner.step_inside (h : s.step c = some s') (outer : List Bracket) :
    Scanner.step ⟨s.mode, s.opened ++ outer⟩ c = some ⟨s'.mode, s'.opened ++ outer⟩ := by
  obtain ⟨mode, opened⟩ := s
  cases mode <;> grind [step, close_inside]

/-- Inside of a bracket nothing is an end of an argument. -/
theorem readArguments?_run {text : List Char} (h : s.run text = some s') (b : Bracket)
    (outer : List Bracket) (argument rest : List Char) :
    readArguments? ⟨s.mode, s.opened ++ b :: outer⟩ argument (text ++ rest) =
      readArguments? ⟨s'.mode, s'.opened ++ b :: outer⟩ (argument ++ text) rest := by
  induction text generalizing s argument with
  | nil =>
    cases h
    rw [List.nil_append, List.append_nil]
  | cons c text ih =>
    rw [Scanner.run_cons] at h
    obtain ⟨s₁, hstep, hrun⟩ := Option.bind_eq_some_iff.1 h
    have hinside : (⟨s.mode, s.opened ++ b :: outer⟩ : Scanner) ≠ ⟨.code, []⟩ := by simp
    rw [List.cons_append, readArguments?_step (Scanner.step_inside hstep _) (absurd · hinside),
      ih hrun, List.append_assoc]
    rfl

namespace Uncut

variable {mode : Mode} {text text' : List Char}

theorem nil : Uncut mode [] := by
  intro opened argument rest
  rw [List.nil_append, List.append_nil]

theorem append (h : Uncut mode text) (h' : Uncut mode text') : Uncut mode (text ++ text') := by
  intro opened argument rest
  rw [List.append_assoc, h, h', List.append_assoc]

/-- A character that a scan passes and that ends no argument. -/
theorem cons (hstep : ∀ opened, Scanner.step ⟨mode, opened⟩ c = some ⟨mode, opened⟩)
    (hstays : mode = .code → c ≠ ')' ∧ c ≠ ',') (h : Uncut mode text) : Uncut mode (c :: text) := by
  intro opened argument rest
  rw [List.cons_append, readArguments?_step (hstep opened) fun heq =>
    hstays (congrArg Scanner.mode heq), h, List.append_assoc]
  rfl

theorem of_isWord (h : IsWord text) : Uncut .code text := by
  have hplain := h.isPlain
  have hchars := h.chars
  clear h
  induction text with
  | nil => exact nil
  | cons c text ih =>
    obtain ⟨hc, htext⟩ := List.forall_mem_cons.1 hplain
    obtain ⟨hword, hwords⟩ := List.forall_mem_cons.1 hchars
    refine cons (Keeps.step_of_isPlain hc) (fun _ => ⟨?_, ?_⟩) (ih htext hwords)
    · rintro rfl
      exact absurd hc (by decide)
    · rintro rfl
      exact absurd hword (by decide)

/-- What stands in parentheses is passed as a whole, with all of its commas. -/
theorem parens (h : Keeps .code text) : Uncut .code ('(' :: (text ++ [')'])) := by
  intro opened argument rest
  have hopen : Scanner.step ⟨.code, opened⟩ '(' = some ⟨.code, .paren :: opened⟩ := rfl
  have hclose : Scanner.step ⟨.code, .paren :: opened⟩ ')' = some ⟨.code, opened⟩ := rfl
  have hinside : readArguments? ⟨.code, .paren :: opened⟩ (argument ++ ['(']) (text ++ ')' :: rest) =
      readArguments? ⟨.code, .paren :: opened⟩ (argument ++ ['('] ++ text) (')' :: rest) :=
    readArguments?_run (h.run []) .paren opened _ _
  rw [List.cons_append, readArguments?_step hopen fun _ => ⟨by decide, by decide⟩,
    List.append_assoc, List.singleton_append, hinside,
    readArguments?_step hclose fun heq => by simp at heq]
  simp

/-- Commas and parentheses of a literal do not end an argument. -/
theorem of_inside (h : Literal.Inside text) (hprintable : ∀ c ∈ text, IsPrintable c) :
    Uncut .literal text := by
  induction h with
  | nil => exact nil
  | @plain c cs quote backslash rest ih =>
    obtain ⟨hc, hcs⟩ := List.forall_mem_cons.1 hprintable
    refine cons (fun opened => ?_) nofun (ih hcs)
    simp only [Scanner.step, if_neg hc.ne_newline, if_neg quote, if_neg backslash]
  | @pair c cs newline rest ih =>
    simp only [List.forall_mem_cons] at hprintable
    intro opened argument rest
    have hbackslash : Scanner.step ⟨.literal, opened⟩ '\\' = some ⟨.escape, opened⟩ := rfl
    have hescape : Scanner.step ⟨.escape, opened⟩ c = some ⟨.literal, opened⟩ := if_neg newline
    rw [List.cons_append, List.cons_append, readArguments?_step hbackslash nofun,
      readArguments?_step hescape nofun, ih hprintable.2.2]
    simp

theorem quoted (h : Uncut .literal text) : Uncut .code ('"' :: (text ++ ['"'])) := by
  intro opened argument rest
  have hopen : Scanner.step ⟨.code, opened⟩ '"' = some ⟨.literal, opened⟩ := rfl
  have hclose : Scanner.step ⟨.literal, opened⟩ '"' = some ⟨.code, opened⟩ := rfl
  rw [List.cons_append, readArguments?_step hopen fun _ => ⟨by decide, by decide⟩,
    List.append_assoc, h, List.singleton_append, readArguments?_step hclose nofun]
  simp

end Uncut

theorem inside_escapeByte (b : UInt8) {cs : List Char} (h : Literal.Inside cs) :
    Literal.Inside (escapeByte b ++ cs) := by
  by_cases hplain : IsPlainByte b
  · rcases escapeByte_cases hplain with ⟨d, heq, hnewline, -⟩ | ⟨c, heq, hbackslash, hquote, -⟩
    · rw [heq]
      exact .pair hnewline h
    · rw [heq]
      exact .plain hquote hbackslash h
  · rw [escapeByte_of_not_isPlainByte hplain]
    have hquote := octalDigit_ne (c := '"') rfl
    have hbackslash := octalDigit_ne (c := '\\') rfl
    exact .pair (octalDigit_ne rfl _) (.plain (hquote _) (hbackslash _)
      (.plain (hquote _) (hbackslash _) h))

theorem inside_escape (bytes : List UInt8) : Literal.Inside (escape bytes) := by
  induction bytes with
  | nil => exact .nil
  | cons b bytes ih => exact inside_escapeByte b ih

theorem Uncut.escape (bytes : List UInt8) : Uncut .literal (escape bytes) :=
  .of_inside (inside_escape bytes) fun _ => isPrintable_of_mem_escape

/-- Texts in one piece each are told apart by the commas between them. -/
theorem readArguments?_intercalate {text : List Char} {texts : List (List Char)}
    (htext : Uncut .code text) (htexts : ∀ t ∈ texts, Uncut .code t)
    (argument rest : List Char) :
    readArguments? ⟨.code, []⟩ argument ([',', ' '].intercalate (text :: texts) ++ ')' :: rest) =
      some ((argument ++ text) :: texts.map (' ' :: ·), rest) := by
  induction texts generalizing text argument with
  | nil =>
    rw [List.intercalate_singleton, htext, readArguments?, if_pos ⟨rfl, rfl⟩]
    rfl
  | cons text' texts ih =>
    obtain ⟨htext', htexts⟩ := List.forall_mem_cons.1 htexts
    have hspace : Uncut .code [' '] :=
      .cons (fun _ => rfl) (fun _ => ⟨by decide, by decide⟩) .nil
    rw [List.intercalate_cons_cons, List.append_assoc, List.append_assoc, htext, List.cons_append,
      readArguments?, if_neg (by decide), if_pos ⟨rfl, rfl⟩, hspace, ih htext' htexts]
    rfl

theorem Starts.dropWhile_space {text : List Char} (h : Starts text) :
    text.dropWhile (· = ' ') = text := by
  obtain ⟨c, cs, rfl, hc, -⟩ := h
  rw [List.dropWhile_cons, if_neg (by simpa using hc)]

/-- A call is read as it was put together. -/
theorem readCall?_intercalate {function text rest : List Char} {texts : List (List Char)}
    (hfunction : '(' ∉ function) (huncut : ∀ t ∈ text :: texts, Uncut .code t)
    (hstarts : ∀ t ∈ text :: texts, Starts t) :
    readCall? (function ++ '(' :: ([',', ' '].intercalate (text :: texts) ++ ')' :: rest)) =
      some (⟨function, text :: texts⟩, rest) := by
  have hname : ∀ c ∈ function, decide (c ≠ '(') = true := by
    intro c hc
    rw [decide_eq_true_eq]
    rintro rfl
    exact hfunction hc
  obtain ⟨htext, htexts⟩ := List.forall_mem_cons.1 huncut
  obtain ⟨hstart, hmore⟩ := List.forall_mem_cons.1 hstarts
  have hspaces : (texts.map (' ' :: ·)).map (·.dropWhile (· = ' ')) = texts := by
    rw [List.map_map]
    exact (List.map_congr_left fun t ht => (hmore t ht).dropWhile_space).trans (List.map_id texts)
  have hdrop : ∀ cs, (function ++ '(' :: cs).dropWhile (· ≠ '(') = '(' :: cs := fun cs =>
    List.dropWhile_append_of_pos hname
  have htake : ∀ cs, (function ++ '(' :: cs).takeWhile (· ≠ '(') = function := fun cs =>
    (List.takeWhile_append_of_pos hname).trans (List.append_nil function)
  rw [readCall?, hdrop, htake]
  simp only [readArguments?_intercalate htext htexts, List.nil_append, Option.map_some,
    List.map_cons, hstart.dropWhile_space, hspaces]

/-! ## Formats -/

/-- The conversions in a format: a percent sign and the character behind it, where two percent signs
print one. -/
def conversions : List Char → List (List Char)
  | [] => []
  | '%' :: c :: cs => if c = '%' then conversions cs else ['%', c] :: conversions cs
  | _ :: cs => conversions cs

theorem conversions_conversion (ty : Ty) (cs : List Char) :
    conversions (ty.conversion.toList ++ cs) = ty.conversion.toList :: conversions cs := by
  cases ty <;> rfl

theorem escape_utf8_append (cs ds : List Char) :
    escape (Text.utf8 (cs ++ ds)) = escape (Text.utf8 cs) ++ escape (Text.utf8 ds) := by
  rw [Text.utf8, List.flatMap_append, escape, List.flatMap_append]
  rfl

theorem escape_conversion (ty : Ty) :
    escape (Text.utf8 ty.conversion.toList) = ty.conversion.toList := by
  cases ty <;> rfl

end C

/-! ## The text of an expression -/

namespace Expr

open C

variable {e : TypedExpr} {values : List TypedExpr}

theorem uncut_cText (hnames : ∀ x ∈ e.uses, IsWord x.toList) : Uncut .code e.cText.toList := by
  cases e with
  | number v _ => exact .of_isWord (.number v)
  | string bytes _ =>
    rw [toList_cText_string]
    exact (Uncut.escape bytes).quoted
  | bool b _ => exact .of_isWord (isWord_bool b)
  | var x _ => exact .of_isWord (hnames x (by simp [uses]))
  | negate e _ =>
    rw [toList_cText_negate]
    have hdash : Keeps .code ['-'] := .of_all rfl
    exact .parens (hdash.append (keeps_cText_of_isWord e (by simpa only [uses] using hnames)))
  | binary op l r _ =>
    simp only [uses, List.forall_mem_append] at hnames
    rw [toList_cText_binary]
    exact .parens (keeps_operation op (keeps_cText_of_isWord l hnames.1)
      (keeps_cText_of_isWord r hnames.2))
  | call f es _ =>
    simp only [uses, List.forall_mem_cons] at hnames
    rw [toList_cText_call]
    have hcomma : Keeps .code [',', ' '] := .of_all rfl
    refine Uncut.append (.of_isWord hnames.1) (Uncut.parens (hcomma.intercalate ?_))
    exact List.forall_mem_map.2 (keeps_cTexts_of_isWord es hnames.2)

theorem conversions_printFormat (values : List TypedExpr) :
    conversions (printFormat values).toList = values.map (·.note.conversion.toList) := by
  rw [toList_printFormat]
  induction values with
  | nil => rfl
  | cons e values ih =>
    rw [List.flatMap_cons, List.append_assoc, conversions_conversion, ih]
    rfl

/-- The line that a format stands for: a conversion for each value, and the end of the line. -/
def printLine (values : List TypedExpr) : List Char :=
  values.flatMap (·.note.conversion.toList) ++ ['\n']

theorem toList_printFormat_eq_escape (values : List TypedExpr) :
    (printFormat values).toList = escape (Text.utf8 (printLine values)) := by
  rw [toList_printFormat, printLine]
  induction values with
  | nil => rfl
  | cons e values ih =>
    simp only [List.flatMap_cons, List.append_assoc] at ih ⊢
    rw [escape_utf8_append, escape_conversion, ih]

/-- A `printf` is a call of a format and of the values, each in its own argument. The format is a
literal of a conversion for each value and of a newline, and of nothing else. -/
theorem readCall?_cPrint (hne : values ≠ [])
    (hnames : ∀ x ∈ usesList values, Lexeme.Class.name.Forms x.toList) :
    ∃ format,
      readCall? (cPrint values).toList =
        some (⟨"printf".toList, ('"' :: (format ++ ['"'])) :: values.map (·.cText.toList)⟩, [';']) ∧
      format = values.flatMap (·.note.conversion.toList) ++ ['\\', 'n'] ∧
      conversions format = values.map (·.note.conversion.toList) ∧
      readLiteral? ('"' :: (format ++ ['"'])) = some (Text.utf8 (printLine values), []) := by
  refine ⟨_, ?_, toList_printFormat values, conversions_printFormat values, ?_⟩
  · have hwords : ∀ e ∈ values, ∀ x ∈ e.uses, IsWord x.toList := fun e he x hx =>
      .of_forms (forall_mem_usesList.1 hnames e he x hx)
    have hformat : Uncut .code ('"' :: ((printFormat values).toList ++ ['"'])) := by
      rw [toList_printFormat_eq_escape]
      exact (Uncut.escape _).quoted
    have htexts : values.map (·.cText.toList) ≠ [] := by simpa using hne
    have htext : (cPrint values).toList = "printf".toList ++ '(' :: ([',', ' '].intercalate
        (('"' :: ((printFormat values).toList ++ ['"'])) :: values.map (·.cText.toList)) ++
          ')' :: [';']) := by
      rw [toList_cPrint, List.intercalate_cons_of_ne_nil htexts]
      simp
    rw [htext]
    refine readCall?_intercalate (by decide) (List.forall_mem_cons.2 ⟨hformat, ?_⟩)
      (List.forall_mem_cons.2 ⟨starts_cons rfl _, ?_⟩)
    · exact List.forall_mem_map.2 fun e he => uncut_cText (hwords e he)
    · exact List.forall_mem_map.2 fun e he => starts_cText (hwords e he)
  · rw [toList_printFormat_eq_escape]
    exact readLiteral?_escape _ []

/-- Neither a comma in a string nor one between the arguments of a call is taken for one between the
values, and a string of conversions is no part of the format. -/
theorem readCall?_cPrint_nested :
    readCall? (cPrint [string (Text.utf8 "a, (%d)\"".toList) .string,
      call "f" [number (.int 1) .int, var "while" .bool] .float]).toList =
      some (⟨"printf".toList,
        ["\"%s%f\\n\"".toList, "\"a, (%d)\\\"\"".toList, "f(1, while)".toList]⟩, [';']) := by
  obtain ⟨format, hcall, rfl, -⟩ := @readCall?_cPrint
    [string (Text.utf8 "a, (%d)\"".toList) .string,
      call "f" [number (.int 1) .int, var "while" .bool] .float]
    (by simp) (List.forall_mem_cons.2 ⟨⟨'f', [], rfl, rfl, by simp⟩,
      List.forall_mem_singleton.2 ⟨'w', ['h', 'i', 'l', 'e'], rfl, rfl, List.all_eq_true.1 rfl⟩⟩)
  exact hcall.trans (by decide +kernel)

end Expr

end Chalk
