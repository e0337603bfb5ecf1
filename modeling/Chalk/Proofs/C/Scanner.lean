import Chalk.C.Stmt
import Chalk.Proofs.C.Denotation
import Chalk.Proofs.Text.Lines

/-!
# Scanning C text

A scan goes through a C text from left to right. It tells string literals from code, where a newline
inside of a literal is an error, and keeps the brackets that are open outside of literals, where one
that closes nothing is an error (`Scanner.step`).

`Keeps` is said of a text on one line that can be put anywhere: behind it the same brackets are open
as before it. `Fits` is said of a line: it is indented by what is open in front of it, and tells how
many blocks are open behind it. Lines that fit one behind the other (`Stacked`) make up a text that
is `WellNested`.
-/

namespace Chalk.C

/-! ## The scan -/

inductive Bracket where
  | paren
  | brace
deriving DecidableEq, Repr, Inhabited

/-- Where a scan is: in code, in a string literal, or behind a backslash in one. -/
inductive Mode where
  | code
  | literal
  | escape
deriving DecidableEq, Repr, Inhabited

structure Scanner where
  mode : Mode
  /-- The open brackets, the innermost first. -/
  opened : List Bracket
deriving DecidableEq, Repr, Inhabited

namespace Scanner

/-- Closes the innermost bracket if it is of the given kind. -/
def close (b : Bracket) : List Bracket → Option Scanner
  | [] => none
  | b' :: opened => if b' = b then some ⟨.code, opened⟩ else none

/-- One character further. -/
def step (s : Scanner) (c : Char) : Option Scanner :=
  match s.mode with
  | .code =>
    if c = '"' then some ⟨.literal, s.opened⟩
    else if c = '(' then some ⟨.code, .paren :: s.opened⟩
    else if c = '\x7b' then some ⟨.code, .brace :: s.opened⟩
    else if c = ')' then close .paren s.opened
    else if c = '\x7d' then close .brace s.opened
    else some s
  | .literal =>
    if c = '\n' then none
    else if c = '"' then some ⟨.code, s.opened⟩
    else if c = '\\' then some ⟨.escape, s.opened⟩
    else some s
  | .escape => if c = '\n' then none else some ⟨.literal, s.opened⟩

def run (s : Scanner) (text : List Char) : Option Scanner :=
  text.foldlM step s

/-- In code, inside the given number of blocks and nothing else. -/
def inside (depth : Nat) : Scanner :=
  ⟨.code, List.replicate depth .brace⟩

/-- The number of open braces. -/
def braces (s : Scanner) : Nat :=
  s.opened.count .brace

@[simp] theorem braces_inside (depth : Nat) : (inside depth).braces = depth :=
  List.count_replicate_self

theorem run_cons (s : Scanner) (c : Char) (text : List Char) :
    s.run (c :: text) = (s.step c).bind (·.run text) := rfl

theorem run_append (s : Scanner) (text text' : List Char) :
    s.run (text ++ text') = (s.run text).bind (·.run text') :=
  List.foldlM_append

theorem run_append_of_run {s s' : Scanner} {text : List Char} (h : s.run text = some s')
    (text' : List Char) : s.run (text ++ text') = s'.run text' := by
  rw [run_append, h]
  rfl

theorem run_cons_of_step {s s' : Scanner} {c : Char} (h : s.step c = some s') (text : List Char) :
    s.run (c :: text) = s'.run text := by
  rw [run_cons, h]
  rfl

end Scanner

open Scanner

/-! ## Texts that leave the scan where it was -/

/-- A printable text behind which a scan is where it was in front of it. -/
structure Keeps (mode : Mode) (text : List Char) : Prop where
  printable : ∀ c ∈ text, IsPrintable c
  run (opened : List Bracket) : Scanner.run ⟨mode, opened⟩ text = some ⟨mode, opened⟩

theorem IsPrintable.ne_newline {c : Char} (h : IsPrintable c) : c ≠ '\n' := by
  rintro rfl
  exact absurd h (by decide)

namespace Keeps

variable {mode : Mode} {text text' : List Char}

theorem nil : Keeps mode [] := ⟨by simp, fun _ => rfl⟩

theorem append (h : Keeps mode text) (h' : Keeps mode text') : Keeps mode (text ++ text') where
  printable := List.forall_mem_append.2 ⟨h.printable, h'.printable⟩
  run opened := by rw [run_append_of_run (h.run opened), h'.run]

theorem of_step (h : ∀ c ∈ text, IsPrintable c ∧
    ∀ opened, Scanner.step ⟨mode, opened⟩ c = some ⟨mode, opened⟩) : Keeps mode text where
  printable c hc := (h c hc).1
  run opened := by
    induction text with
    | nil => rfl
    | cons c text ih =>
      obtain ⟨hc, htext⟩ := List.forall_mem_cons.1 h
      rw [run_cons_of_step (hc.2 opened)]
      exact ih htext

theorem flatMap {α : Type} {f : α → List Char} {xs : List α} (h : ∀ x ∈ xs, Keeps mode (f x)) :
    Keeps mode (xs.flatMap f) := by
  induction xs with
  | nil => exact nil
  | cons x xs ih =>
    obtain ⟨hx, hxs⟩ := List.forall_mem_cons.1 h
    exact hx.append (ih hxs)

theorem intercalate {sep : List Char} {texts : List (List Char)} (hsep : Keeps mode sep)
    (h : ∀ text ∈ texts, Keeps mode text) : Keeps mode (sep.intercalate texts) := by
  induction texts with
  | nil => exact nil
  | cons text texts ih =>
    obtain ⟨htext, htexts⟩ := List.forall_mem_cons.1 h
    cases texts with
    | nil => simpa [List.intercalate] using htext
    | cons text' texts =>
      rw [List.intercalate_cons_cons]
      exact (htext.append hsep).append (ih htexts)

/-- Whether a character stands for nothing but itself in code. -/
def isPlain (c : Char) : Bool :=
  decide (IsPrintable c) && !(['"', '(', ')', '\x7b', '\x7d'].contains c)

theorem step_of_isPlain {c : Char} (h : isPlain c = true) (opened : List Bracket) :
    Scanner.step ⟨.code, opened⟩ c = some ⟨.code, opened⟩ := by
  simp only [isPlain, List.contains_cons, List.contains_nil, Bool.and_eq_true, decide_eq_true_eq,
    Bool.or_false, Bool.not_eq_true', Bool.or_eq_false_iff, beq_eq_false_iff_ne] at h
  obtain ⟨-, hquote, hopen, hclose, hopenBrace, hcloseBrace⟩ := h
  simp only [step, if_neg hquote, if_neg hopen, if_neg hopenBrace, if_neg hclose,
    if_neg hcloseBrace]

theorem of_isPlain (h : ∀ c ∈ text, isPlain c = true) : Keeps .code text := by
  refine of_step fun c hc => ⟨?_, step_of_isPlain (h c hc)⟩
  have hplain := h c hc
  simp only [isPlain, Bool.and_eq_true, decide_eq_true_eq] at hplain
  exact hplain.1

theorem of_all (h : text.all isPlain = true) : Keeps .code text :=
  of_isPlain (List.all_eq_true.1 h)

theorem parens (h : Keeps .code text) : Keeps .code ('(' :: (text ++ [')'])) where
  printable := by
    refine List.forall_mem_cons.2 ⟨by decide, List.forall_mem_append.2 ⟨h.printable, ?_⟩⟩
    exact List.forall_mem_singleton.2 (by decide)
  run opened := by
    rw [run_cons_of_step rfl, run_append_of_run (h.run _)]
    rfl

/-- A literal with the text inside. -/
theorem quoted (h : Keeps .literal text) : Keeps .code ('"' :: (text ++ ['"'])) where
  printable := by
    refine List.forall_mem_cons.2 ⟨by decide, List.forall_mem_append.2 ⟨h.printable, ?_⟩⟩
    exact List.forall_mem_singleton.2 (by decide)
  run opened := by
    rw [run_cons_of_step rfl, run_append_of_run (h.run _)]
    rfl

theorem of_literal (h : ∀ c ∈ text, IsPrintable c ∧ c ≠ '"' ∧ c ≠ '\\') : Keeps .literal text := by
  refine of_step fun c hc => ?_
  obtain ⟨hprintable, hquote, hbackslash⟩ := h c hc
  refine ⟨hprintable, fun opened => ?_⟩
  simp only [step, if_neg hprintable.ne_newline, if_neg hquote, if_neg hbackslash]

/-- A backslash and the character behind it, whatever it is. -/
theorem escaped {c : Char} (h : IsPrintable c) : Keeps .literal ['\\', c] where
  printable := List.forall_mem_cons.2 ⟨by decide, List.forall_mem_singleton.2 h⟩
  run opened := by
    rw [run_cons_of_step rfl, run_cons]
    simp only [step, if_neg h.ne_newline]
    rfl

theorem octalDigit (b : UInt8) : Keeps .literal [octalDigit b] := by
  have hcode := toNat_octalDigit b
  refine of_literal (List.forall_mem_singleton.2 ⟨isPrintable_octalDigit b, ?_, ?_⟩)
  · intro heq
    rw [heq] at hcode
    exact absurd hcode (by show 34 ≠ _; omega)
  · intro heq
    rw [heq] at hcode
    exact absurd hcode (by show 92 ≠ _; omega)

theorem escapeByte (b : UInt8) : Keeps .literal (escapeByte b) := by
  have hprintable : ∀ c ∈ C.escapeByte b, IsPrintable c := fun _ => isPrintable_of_mem_escapeByte
  by_cases hplain : IsPlainByte b
  · rcases escapeByte_cases hplain with ⟨d, heq, -, -, -⟩ | ⟨c, heq, hbackslash, hquote, -⟩
    · rw [heq] at hprintable ⊢
      exact escaped (hprintable d (by simp))
    · rw [heq] at hprintable ⊢
      exact of_literal (List.forall_mem_singleton.2 ⟨hprintable c (by simp), hquote, hbackslash⟩)
  · rw [escapeByte_of_not_isPlainByte hplain]
    exact ((escaped (isPrintable_octalDigit _)).append (octalDigit _)).append (octalDigit b)

/-- Whatever the bytes are, nothing of them gets out of their literal. -/
theorem escape (bytes : List UInt8) : Keeps .literal (escape bytes) :=
  flatMap fun b _ => escapeByte b

end Keeps

/-! ## Lines -/

/-- Four spaces for each open brace, of which a brace at the start of the line closes one, and then
no further space. -/
def IsIndented (braces : Nat) (line : List Char) : Prop :=
  ∃ c cs, line = List.replicate (4 * if c = '\x7d' then braces - 1 else braces) ' ' ++ c :: cs ∧
    c ≠ ' '

/-- A line inside `n` blocks, with `m` blocks open behind it. -/
structure Fits (n m : Nat) (line : List Char) : Prop where
  printable : ∀ c ∈ line, IsPrintable c
  run : (inside n).run line = some (inside m)
  indented : line ≠ [] → IsIndented n line

theorem Fits.empty (n : Nat) : Fits n n [] where
  printable := by simp
  run := rfl
  indented h := absurd rfl h

theorem keeps_spaces (n : Nat) : Keeps .code (List.replicate n ' ') := by
  refine .of_isPlain fun c hc => ?_
  rw [List.eq_of_mem_replicate hc]
  decide

/-- A text behind its indentation. -/
theorem Fits.indented_line {n m depth : Nat} {line : String} {c : Char} {cs : List Char}
    (htext : line.toList = c :: cs) (hspace : c ≠ ' ')
    (hdepth : depth = if c = '\x7d' then n - 1 else n) (hprintable : ∀ d ∈ c :: cs, IsPrintable d)
    (hrun : (inside n).run (c :: cs) = some (inside m)) : Fits n m (C.indented depth line).toList := by
  have hspaces := keeps_spaces (4 * depth)
  have hindented : (C.indented depth line).toList = List.replicate (4 * depth) ' ' ++ c :: cs := by
    have hne : line ≠ "" := by
      rintro rfl
      cases htext
    rw [C.indented, if_neg hne, String.toList_append, String.toList_ofList, htext]
  rw [hindented]
  refine ⟨List.forall_mem_append.2 ⟨hspaces.printable, hprintable⟩, ?_, fun _ => ?_⟩
  · rw [← hrun]
    exact run_append_of_run (hspaces.run _) _
  · exact ⟨c, cs, by rw [hdepth], hspace⟩

/-- Lines that fit one behind the other, from `n` blocks to `m`. -/
inductive Stacked : Nat → List String → Nat → Prop
  | nil {n : Nat} : Stacked n [] n
  | cons {n k m : Nat} {line : String} {lines : List String} (first : Fits n k line.toList)
      (rest : Stacked k lines m) : Stacked n (line :: lines) m

namespace Stacked

variable {n k m : Nat} {line : String} {lines lines' : List String}

theorem single (h : Fits n m line.toList) : Stacked n [line] m :=
  .cons h .nil

theorem append (h : Stacked n lines k) (h' : Stacked k lines' m) :
    Stacked n (lines ++ lines') m := by
  induction h with
  | nil => exact h'
  | cons first _ ih => exact .cons first (ih h')

end Stacked

/-! ## Whole texts -/

open Text (WholeLine)

section WholeLine

variable {l before line after rest : List Char}

/-- A text of one line has no other line. -/
theorem eq_of_wholeLine (hl : '\n' ∉ l) (heq : l = before ++ (line ++ after))
    (h : WholeLine before line after) : before = [] ∧ line = l := by
  have hbefore : before = [] := by
    by_contra hne
    have hlast := List.getLast?_eq_some_getLast hne
    have hmem : '\n' ∈ before := h.begins _ hlast ▸ List.getLast_mem hne
    exact hl (heq ▸ List.mem_append_left _ hmem)
  have hafter : after = [] := by
    cases after with
    | nil => rfl
    | cons c after =>
      rw [h.ends c rfl] at heq
      exact absurd (heq ▸ by simp) hl
  subst hbefore hafter
  simpa using heq.symm

/-- A line of a text is its first line or a line behind the first newline. -/
theorem cases_of_wholeLine (hl : '\n' ∉ l) (heq : l ++ '\n' :: rest = before ++ (line ++ after))
    (h : WholeLine before line after) :
    (before = [] ∧ line = l) ∨
      ∃ before', before = l ++ '\n' :: before' ∧ rest = before' ++ (line ++ after) ∧
        WholeLine before' line after := by
  have hlast : before ≠ [] → '\n' ∈ before := fun hne =>
    h.begins _ (List.getLast?_eq_some_getLast hne) ▸ List.getLast_mem hne
  rcases List.append_eq_append_iff.1 heq with ⟨w, rfl, hw⟩ | ⟨w, rfl, hw⟩
  · cases w with
    | nil =>
      -- only an empty text has no newline at its end
      have hnil : l = [] := by
        by_contra hne
        exact hl (by simpa using hlast (by simpa using hne))
      subst hnil
      cases line with
      | nil => exact .inl ⟨rfl, rfl⟩
      | cons c line =>
        cases hw
        exact absurd List.mem_cons_self h.inside
    | cons c before' =>
      cases hw
      refine .inr ⟨before', rfl, rfl, h.inside, fun d hd => h.begins d ?_, h.ends⟩
      rw [List.getLast?_append, List.getLast?_cons, Option.mem_def.1 hd]
      rfl
  · have hnil : before = [] := by
      by_contra hne
      exact hl (List.mem_append_left _ (hlast hne))
    subst hnil
    refine .inl ⟨rfl, ?_⟩
    rcases List.append_eq_append_iff.1 hw with ⟨v, rfl, hv⟩ | ⟨v, rfl, hv⟩
    · cases v with
      | nil => simp
      | cons c v =>
        have hc : c = '\n' := h.ends c (by rw [hv]; rfl)
        exact absurd (by simp [hc]) hl
    · cases v with
      | nil => simp
      | cons c v =>
        cases hv
        exact absurd (by simp) h.inside

end WholeLine

/-- A text that begins inside of `n` blocks and ends inside of `m`. All literals end on the lines on
which they begin, brackets are properly nested, and each line is indented by the braces that are
open in front of it. -/
structure WellNested (n m : Nat) (text : List Char) : Prop where
  printable : ∀ c ∈ text, c = '\n' ∨ IsPrintable c
  run : (inside n).run text = some (inside m)
  lines : ∀ before line after, text = before ++ (line ++ after) → WholeLine before line after →
    ∃ s, (inside n).run before = some s ∧ s.mode = .code ∧ (line ≠ [] → IsIndented s.braces line)

namespace WellNested

variable {n k m : Nat} {line rest : List Char}

theorem of_line (h : Fits n m line) : WellNested n m line where
  printable c hc := .inr (h.printable c hc)
  run := h.run
  lines before l after heq hl := by
    have hline : '\n' ∉ line := fun hmem => (h.printable _ hmem).ne_newline rfl
    obtain ⟨rfl, rfl⟩ := eq_of_wholeLine hline heq hl
    exact ⟨inside n, rfl, rfl, fun hne => by simpa using h.indented hne⟩

theorem cons (h : Fits n k line) (hrest : WellNested k m rest) :
    WellNested n m (line ++ '\n' :: rest) := by
  have hnewline : (inside n).run (line ++ ['\n']) = some (inside k) := run_append_of_run h.run _
  have hrun : ∀ text, (inside n).run (line ++ '\n' :: text) = (inside k).run text := fun text => by
    rw [← run_append_of_run hnewline, List.append_assoc]
    rfl
  refine ⟨?_, (hrun rest).trans hrest.run, fun before l after heq hl => ?_⟩
  · refine List.forall_mem_append.2 ⟨fun c hc => .inr (h.printable c hc), ?_⟩
    exact List.forall_mem_cons.2 ⟨.inl rfl, hrest.printable⟩
  · have hline : '\n' ∉ line := fun hmem => (h.printable _ hmem).ne_newline rfl
    rcases cases_of_wholeLine hline heq hl with ⟨rfl, rfl⟩ | ⟨before', rfl, hbefore, hl'⟩
    · exact ⟨inside n, rfl, rfl, fun hne => by simpa using h.indented hne⟩
    · rw [hrun]
      exact hrest.lines before' l after hbefore hl'

end WellNested

theorem Stacked.wellNested {n m : Nat} {lines : List String} (h : Stacked n lines m) :
    WellNested n m ("\n".intercalate lines).toList := by
  rw [String.toList_intercalate]
  induction h with
  | nil => exact .of_line (.empty _)
  | @cons n k m line lines first rest ih =>
    cases lines with
    | nil =>
      cases rest
      simpa [List.intercalate] using WellNested.of_line first
    | cons line' lines =>
      rw [List.map_cons, List.map_cons, List.intercalate_cons_cons, List.append_assoc]
      exact .cons first ih

end Chalk.C
