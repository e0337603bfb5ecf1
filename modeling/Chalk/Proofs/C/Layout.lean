import Chalk.C.Program
import Chalk.Proofs.C.Names
import Chalk.Proofs.C.RoundTrip
import Chalk.Proofs.C.Scanner
import Chalk.Proofs.Grammar.Contents

/-!
# How a program is laid out in C

The lines of statements fit one behind the other, with as many blocks open behind them as in front
(`Stmt.stacked_cLines`), so the text of a program is well nested (`C.wellNested_generate`). Only the
names in the program could break the lines, since they are written as they are: they have to be
names of the language, and those have no brackets, quotes or blanks in them.
-/

namespace Chalk

namespace C

/-! ## Names and numbers -/

/-- The characters from `-` to `z`. There are the letters, the digits, underscore, point and dash
among them, but no brackets, quotes and spaces. -/
def IsWordChar (c : Char) : Prop :=
  '-'.toNat ≤ c.toNat ∧ c.toNat ≤ 'z'.toNat

instance (c : Char) : Decidable (IsWordChar c) :=
  inferInstanceAs (Decidable (_ ∧ _))

structure IsWord (text : List Char) : Prop where
  nonempty : text ≠ []
  chars : ∀ c ∈ text, IsWordChar c

/-- A line can begin with the text, and it closes no block. -/
def Starts (text : List Char) : Prop :=
  ∃ c cs, text = c :: cs ∧ c ≠ ' ' ∧ c ≠ '\x7d'

theorem starts_cons {c : Char} (h : (c == ' ' || c == '\x7d') = false) (cs : List Char) :
    Starts (c :: cs) := by
  rw [Bool.or_eq_false_iff, beq_eq_false_iff_ne, beq_eq_false_iff_ne] at h
  exact ⟨c, cs, rfl, h⟩

namespace IsWord

variable {text : List Char}

/-- There are no brackets and quotes in a word. -/
theorem isPlain (h : IsWord text) : ∀ c ∈ text, Keeps.isPlain c = true := by
  intro c hc
  obtain ⟨hlow, hhigh⟩ : 45 ≤ c.toNat ∧ c.toNat ≤ 122 := h.chars c hc
  have hne : ∀ d : Char, d.toNat < 45 ∨ 122 < d.toNat → (c == d) = false := by
    intro d hd
    rw [beq_eq_false_iff_ne]
    rintro rfl
    omega
  simp only [Keeps.isPlain, List.contains_cons, List.contains_nil, Bool.and_eq_true,
    decide_eq_true_eq, isPrintable_iff]
  refine ⟨by omega, ?_⟩
  rw [hne _ (by decide), hne _ (by decide), hne _ (by decide), hne _ (by decide),
    hne _ (by decide)]
  rfl

theorem keeps (h : IsWord text) : Keeps .code text :=
  .of_isPlain h.isPlain

theorem starts (h : IsWord text) : Starts text := by
  obtain ⟨c, cs, rfl⟩ := List.exists_cons_of_ne_nil h.nonempty
  obtain ⟨hlow, hhigh⟩ : 45 ≤ c.toNat ∧ c.toNat ≤ 122 := h.chars c List.mem_cons_self
  refine ⟨c, cs, rfl, ?_, ?_⟩
  · rintro rfl
    exact absurd hlow (by decide)
  · rintro rfl
    exact absurd hhigh (by decide)

theorem isWordChar_of_isNameStart {c : Char} (h : Lexeme.isNameStart c = true) : IsWordChar c := by
  have hcode := Lexeme.code_of_isNameStart h
  exact ⟨Nat.le_trans (by decide) hcode.1, hcode.2⟩

theorem isWordChar_of_isDigit {c : Char} (h : c.isDigit = true) : IsWordChar c := by
  have hcode := Char.isDigit_iff_toNat.1 h
  exact ⟨Nat.le_trans (by decide) hcode.1, Nat.le_trans hcode.2 (by decide)⟩

/-- Names are words, also those that are set aside. -/
theorem of_forms (h : Lexeme.Class.name.Forms text) : IsWord text := by
  obtain ⟨c, cs, rfl, hc, hcs⟩ := h
  refine ⟨List.cons_ne_nil c cs, List.forall_mem_cons.2 ⟨isWordChar_of_isNameStart hc, ?_⟩⟩
  intro d hd
  have hpart : (d.isAlphanum || d == '_') = true := hcs d hd
  cases hdigit : d.isDigit with
  | true => exact isWordChar_of_isDigit hdigit
  | false =>
    rw [Char.isAlphanum, hdigit, Bool.or_false] at hpart
    exact isWordChar_of_isNameStart hpart

theorem of_isName {name : String} (h : IsName name) : IsWord name.toList :=
  of_forms h.exists_cons

theorem of_all (hne : text.isEmpty = false) (h : text.all (decide <| IsWordChar ·) = true) :
    IsWord text :=
  ⟨by simpa using hne, by simpa using h⟩

theorem of_isConstant (h : IsConstant text) : IsWord text := by
  have hdigits : ∀ {ds : List Char}, IsDigits ds → ∀ c ∈ ds, IsWordChar c :=
    fun hds c hc => isWordChar_of_isDigit (hds.2 c hc)
  obtain ⟨whole, fraction, exponent, rfl, hwhole, hfraction, hexponent⟩ := h
  have hpoint : ∀ c ∈ fraction, IsWordChar c := by
    rcases hfraction with rfl | ⟨ds, hds, rfl⟩
    · exact nofun
    · exact List.forall_mem_cons.2 ⟨by decide, hdigits hds⟩
  have hpower : ∀ c ∈ exponent, IsWordChar c := by
    rcases hexponent with rfl | ⟨ds, hds, rfl | rfl⟩
    · exact nofun
    · exact List.forall_mem_cons.2 ⟨by decide, hdigits hds⟩
    · exact List.forall_mem_cons.2 ⟨by decide, List.forall_mem_cons.2 ⟨by decide, hdigits hds⟩⟩
  exact ⟨List.append_ne_nil_of_left_ne_nil hwhole.1 _,
    List.forall_mem_append.2 ⟨hdigits hwhole, List.forall_mem_append.2 ⟨hpoint, hpower⟩⟩⟩

/-- Also the values that have no digits are written as words. -/
theorem number (n : Number) : IsWord n.text.toList := by
  obtain ⟨negative, cs, htext, hform⟩ := n.exists_text
  have hunsigned : IsWord cs := by
    rcases hform with ⟨-, hconstant⟩ | ⟨-, rfl | rfl⟩
    · exact of_isConstant hconstant
    · exact .of_all rfl rfl
    · exact .of_all rfl rfl
  rw [htext]
  cases negative with
  | false => exact hunsigned
  | true =>
    exact ⟨List.cons_ne_nil _ _, List.forall_mem_cons.2 ⟨by decide, hunsigned.chars⟩⟩

end IsWord

/-! ## Texts on a line -/

theorem Starts.append {text : List Char} (h : Starts text) (text' : List Char) :
    Starts (text ++ text') := by
  obtain ⟨c, cs, rfl, hc⟩ := h
  exact ⟨c, cs ++ text', rfl, hc⟩

/-- A text that makes up a line, or its beginning, and leaves all brackets as they are. -/
structure Sentence (text : String) : Prop where
  keeps : Keeps .code text.toList
  starts : Starts text.toList

theorem Keeps.string_append {a b : String} (h : Keeps .code a.toList) (h' : Keeps .code b.toList) :
    Keeps .code (a ++ b).toList := by
  rw [String.toList_append]
  exact h.append h'

namespace Sentence

theorem append {a b : String} (h : Sentence a) (h' : Keeps .code b.toList) : Sentence (a ++ b) where
  keeps := h.keeps.string_append h'
  starts := by
    rw [String.toList_append]
    exact h.starts.append _

theorem of_isWord {text : String} (h : IsWord text.toList) : Sentence text :=
  ⟨h.keeps, h.starts⟩

/-- A text that is written out. -/
theorem of_all {text : String} (hplain : text.toList.all Keeps.isPlain = true)
    (hfirst : text.toList.head?.any (· != ' ') = true) : Sentence text := by
  refine ⟨.of_all hplain, ?_⟩
  generalize text.toList = cs at hplain hfirst
  cases cs with
  | nil => cases hfirst
  | cons c cs =>
    refine ⟨c, cs, rfl, by simpa using hfirst, ?_⟩
    rintro rfl
    cases hplain

theorem fits {line : String} (h : Sentence line) (depth : Nat) :
    Fits depth depth (indented depth line).toList := by
  obtain ⟨c, cs, htext, hspace, hbrace⟩ := h.starts
  have hkeeps := h.keeps
  rw [htext] at hkeeps
  exact .indented_line htext hspace (if_neg hbrace).symm hkeeps.printable (hkeeps.run _)

/-- The line that opens a block. -/
theorem fits_open {head : String} (h : Sentence head) (depth : Nat) :
    Fits depth (depth + 1) (indented depth (head ++ " \x7b")).toList := by
  obtain ⟨c, cs, htext, hspace, hbrace⟩ := h.starts
  have hkeeps := h.keeps
  rw [htext] at hkeeps
  have hall : (head ++ " \x7b").toList = c :: (cs ++ [' ', '\x7b']) := by simp [htext]
  refine .indented_line hall hspace (if_neg hbrace).symm ?_ ?_
  · refine List.forall_mem_append.2 ⟨hkeeps.printable, List.forall_mem_cons.2 ⟨by decide, ?_⟩⟩
    exact List.forall_mem_singleton.2 (by decide)
  · exact Scanner.run_append_of_run (hkeeps.run _) _

end Sentence

/-- The line that closes a block. -/
theorem fits_close (depth : Nat) : Fits (depth + 1) depth (indented depth "\x7d").toList := by
  have htext : "\x7d".toList = '\x7d' :: [] := rfl
  exact .indented_line htext (by decide) rfl (List.forall_mem_singleton.2 (by decide)) rfl

theorem fits_else (depth : Nat) :
    Fits (depth + 1) (depth + 1) (indented depth "\x7d else \x7b").toList := by
  have htext : "\x7d else \x7b".toList = '\x7d' :: (" else ".toList ++ ['\x7b']) := rfl
  have hword : Keeps .code " else ".toList := .of_all rfl
  refine .indented_line htext (by decide) rfl (List.forall_mem_cons.2 ⟨by decide, ?_⟩) rfl
  exact List.forall_mem_append.2 ⟨hword.printable, List.forall_mem_singleton.2 (by decide)⟩

/-- A block between the line that opens it and the one that closes it. -/
theorem Stacked.block {head : String} {depth : Nat} {lines : List String} (hhead : Sentence head)
    (h : Stacked (depth + 1) lines (depth + 1)) :
    Stacked depth (indented depth (head ++ " \x7b") :: lines ++ [indented depth "\x7d"]) depth :=
  .cons (hhead.fits_open depth) (h.append (.single (fits_close depth)))

end C

/-! ## Expressions -/

open C

namespace Expr

theorem isWord_bool (b : Bool) : IsWord (if b then "1" else "0").toList := by
  cases b <;> exact .of_all rfl rfl

theorem keeps_operation (op : Operator) {l r : List Char} (hl : Keeps .code l)
    (hr : Keeps .code r) :
    Keeps .code (l ++ ([' '] ++ (op.sign.spelling ++ ([' '] ++ r)))) := by
  have hspace : Keeps .code [' '] := .of_all rfl
  have hop : Keeps .code op.sign.spelling := by
    cases op <;> exact .of_all rfl
  exact hl.append (hspace.append (hop.append (hspace.append hr)))

mutual

/-- Nothing of the text of an expression gets out of its brackets and literals. -/
theorem keeps_cText_of_isWord :
    ∀ e : TypedExpr, (∀ x ∈ e.uses, IsWord x.toList) → Keeps .code e.cText.toList
  | .number v _, _ => (IsWord.number v).keeps
  | .string bytes _, _ => by
    rw [toList_cText_string]
    exact (Keeps.escape bytes).quoted
  | .bool b _, _ => (isWord_bool b).keeps
  | .var x _, hnames => (hnames x (by simp [uses])).keeps
  | .negate e _, hnames => by
    rw [toList_cText_negate]
    have hdash : Keeps .code ['-'] := .of_all rfl
    exact (hdash.append (keeps_cText_of_isWord e (by simpa only [uses] using hnames))).parens
  | .binary op l r _, hnames => by
    simp only [uses, List.forall_mem_append] at hnames
    rw [toList_cText_binary]
    exact (keeps_operation op (keeps_cText_of_isWord l hnames.1)
      (keeps_cText_of_isWord r hnames.2)).parens
  | .call f es _, hnames => by
    simp only [uses, List.forall_mem_cons] at hnames
    rw [toList_cText_call]
    have hcomma : Keeps .code [',', ' '] := .of_all rfl
    refine hnames.1.keeps.append (Keeps.parens (hcomma.intercalate ?_))
    exact List.forall_mem_map.2 (keeps_cTexts_of_isWord es hnames.2)

theorem keeps_cTexts_of_isWord : ∀ es : List TypedExpr, (∀ x ∈ usesList es, IsWord x.toList) →
    ∀ e ∈ es, Keeps .code e.cText.toList
  | [], _ => by simp
  | e :: es, hnames => by
    simp only [usesList, List.forall_mem_append] at hnames
    exact List.forall_mem_cons.2
      ⟨keeps_cText_of_isWord e hnames.1, keeps_cTexts_of_isWord es hnames.2⟩

end

theorem starts_cText {e : TypedExpr} (hnames : ∀ x ∈ e.uses, IsWord x.toList) :
    Starts e.cText.toList := by
  cases e with
  | number v _ => exact (IsWord.number v).starts
  | string bytes _ =>
    rw [toList_cText_string]
    exact starts_cons rfl _
  | bool b _ => exact (isWord_bool b).starts
  | var x _ => exact (hnames x (by simp [uses])).starts
  | negate e _ =>
    rw [toList_cText_negate]
    exact starts_cons rfl _
  | binary op l r _ =>
    rw [toList_cText_binary]
    exact starts_cons rfl _
  | call f es _ =>
    rw [toList_cText_call]
    exact (hnames f (by simp [uses])).starts.append _

theorem keeps_cText (e : TypedExpr) (hnames : ∀ x ∈ e.uses, IsName x) :
    Keeps .code e.cText.toList :=
  keeps_cText_of_isWord e fun x hx => .of_isName (hnames x hx)

theorem sentence_cText {e : TypedExpr} (hnames : ∀ x ∈ e.uses, IsName x) : Sentence e.cText where
  keeps := keeps_cText e hnames
  starts := starts_cText fun x hx => .of_isName (hnames x hx)

theorem toList_printFormat (values : List TypedExpr) :
    (printFormat values).toList = values.flatMap (·.note.conversion.toList) ++ ['\\', 'n'] := by
  rw [printFormat, String.toList_append, String.toList_join, List.flatMap_map]
  rfl

theorem toList_cPrint (values : List TypedExpr) :
    (cPrint values).toList = ['p', 'r', 'i', 'n', 't', 'f'] ++
      ('(' :: ((('"' :: ((printFormat values).toList ++ ['"'])) ++
        ([',', ' '] ++ [',', ' '].intercalate (values.map (·.cText.toList)))) ++ [')'])) ++
      [';'] := by
  simp [cPrint, String.toList_intercalate, Function.comp_def]

theorem keeps_printFormat (values : List TypedExpr) : Keeps .literal (printFormat values).toList := by
  have hconversion : ∀ ty : Ty, Keeps .literal ty.conversion.toList := by
    intro ty
    cases ty <;> refine .of_literal (List.forall_mem_cons.2 ⟨by decide, ?_⟩) <;>
      exact List.forall_mem_singleton.2 (by decide)
  rw [toList_printFormat]
  exact (Keeps.flatMap fun e _ => hconversion e.note).append (.escaped (by decide))

theorem sentence_cPrint {values : List TypedExpr} (hnames : ∀ x ∈ usesList values, IsName x) :
    Sentence (cPrint values) := by
  have hcomma : Keeps .code [',', ' '] := .of_all rfl
  have harguments : Keeps .code (('"' :: ((printFormat values).toList ++ ['"'])) ++
      ([',', ' '] ++ [',', ' '].intercalate (values.map (·.cText.toList)))) :=
    (keeps_printFormat values).quoted.append (hcomma.append (hcomma.intercalate
      (List.forall_mem_map.2
        (keeps_cTexts_of_isWord values fun x hx => .of_isName (hnames x hx)))))
  have hname : Keeps .code ['p', 'r', 'i', 'n', 't', 'f'] := .of_all rfl
  refine ⟨?_, ?_⟩
  · rw [toList_cPrint]
    exact (hname.append harguments.parens).append (.of_all rfl)
  · rw [toList_cPrint]
    exact starts_cons rfl _

end Expr

/-! ## Statements -/

theorem Ty.sentence_cName (ty : Ty) : Sentence ty.cName := by
  cases ty <;> exact .of_all rfl rfl

namespace C

theorem keeps_name {name : String} (h : IsName name) : Keeps .code name.toList :=
  (IsWord.of_isName h).keeps

/-- A word and an expression in parentheses behind it. -/
theorem sentence_condition {word : String} (hword : Sentence word) {e : TypedExpr}
    (hnames : ∀ x ∈ e.uses, IsName x) : Sentence (word ++ " (" ++ e.cText ++ ")") := by
  have htext : word ++ " (" ++ e.cText ++ ")" = word ++ (" (" ++ e.cText ++ ")") := by
    simp only [String.append_assoc]
  have hlist : (" (" ++ e.cText ++ ")").toList = [' '] ++ ('(' :: (e.cText.toList ++ [')'])) := by
    simp
  rw [htext]
  refine hword.append ?_
  rw [hlist]
  exact (Keeps.of_all rfl).append (e.keeps_cText hnames).parens

theorem append_open (text : String) : text ++ ") \x7b" = text ++ ")" ++ " \x7b" := by
  rw [String.append_assoc]
  rfl

theorem sentence_head {f : Signature} (hname : IsName f.name)
    (hparams : ∀ x ∈ f.params.map Prod.fst, IsName x) : Sentence (head f) := by
  have hparam : ∀ p ∈ f.params, Keeps .code (p.2.cName ++ " " ++ p.1).toList := by
    intro p hp
    have hspace : Sentence (p.2.cName ++ " ") :=
      p.2.sentence_cName.append (.of_all rfl)
    exact (hspace.append (keeps_name (hparams p.1 (List.mem_map_of_mem hp)))).keeps
  have hcomma : Keeps .code [',', ' '] := .of_all rfl
  have hinside := hcomma.intercalate (List.forall_mem_map.2 hparam)
  have hstart : Sentence (f.returns.cName ++ " " ++ f.name) :=
    (f.returns.sentence_cName.append (.of_all rfl)).append (keeps_name hname)
  have htext : head f = f.returns.cName ++ " " ++ f.name ++
      ("(" ++ ", ".intercalate (f.params.map fun p => p.2.cName ++ " " ++ p.1) ++ ")") := by
    simp only [head, String.append_assoc]
  have hlist : ("(" ++ ", ".intercalate (f.params.map fun p => p.2.cName ++ " " ++ p.1) ++
      ")").toList = '(' :: ([',', ' '].intercalate
        (f.params.map fun p => (p.2.cName ++ " " ++ p.1).toList) ++ [')']) := by
    simp [String.toList_intercalate, Function.comp_def]
  rw [htext]
  refine hstart.append ?_
  rw [hlist]
  exact hinside.parens

theorem sentence_declare {v : Variable} {e : TypedExpr} (hname : IsName v.name)
    (hnames : ∀ x ∈ e.uses, IsName x) :
    Sentence ((if v.mutable then "" else "const ") ++ v.ty.cName ++ " " ++ v.name ++ " = " ++
      e.cText ++ ";") := by
  have hty : Sentence ((if v.mutable then "" else "const ") ++ v.ty.cName) := by
    cases v.mutable with
    | true =>
      rw [if_pos rfl, String.empty_append]
      exact v.ty.sentence_cName
    | false =>
      have hconst : Sentence "const " := .of_all rfl rfl
      exact hconst.append v.ty.sentence_cName.keeps
  have htarget := (hty.append (b := " ") (.of_all rfl)).append (keeps_name hname)
  have hvalue := (htarget.append (b := " = ") (.of_all rfl)).append
    (e.keeps_cText hnames)
  exact hvalue.append (.of_all rfl)

end C

namespace Stmt

mutual

/-- The lines of a statement fit one behind the other, and behind them as many blocks are open as in
front. -/
theorem stacked_cLines : ∀ (s : TypedStmt) (depth : Nat), (∀ x ∈ s.names, IsName x) →
    Stacked depth (s.cLines depth) depth
  | .declare v e _, depth, hnames => by
    simp only [names, List.forall_mem_cons] at hnames
    rw [cLines]
    exact .single ((sentence_declare hnames.1 hnames.2).fits depth)
  | .assign x e _, depth, hnames => by
    simp only [names, List.forall_mem_cons] at hnames
    have htarget : Sentence (x ++ " = ") :=
      (Sentence.of_isWord (.of_isName hnames.1)).append (.of_all rfl)
    rw [cLines]
    exact .single (((htarget.append (e.keeps_cText hnames.2)).append
      (.of_all rfl)).fits depth)
  | .branch e a b _, depth, hnames => by
    simp only [names, List.forall_mem_append] at hnames
    obtain ⟨he, ha, hb⟩ := hnames
    have hif : Sentence "if" := .of_all rfl rfl
    have hcondition : Sentence ("if (" ++ e.cText ++ ")") := sentence_condition hif he
    have hthen := stacked_cBody a (depth + 1) ha
    cases b with
    | nil =>
      rw [cLines, append_open, List.append_nil]
      exact .block hcondition hthen
    | cons s b =>
      have helse := stacked_cBody (s :: b) (depth + 1) hb
      rw [cLines, append_open, List.cons_append]
      · exact .block hcondition (hthen.append (.cons (fits_else depth) helse))
      · exact nofun
  | .loop e a _, depth, hnames => by
    simp only [names, List.forall_mem_append] at hnames
    have hwhile : Sentence "while" := .of_all rfl rfl
    have hcondition : Sentence ("while (" ++ e.cText ++ ")") := sentence_condition hwhile hnames.1
    rw [cLines, append_open]
    exact .block hcondition (stacked_cBody a (depth + 1) hnames.2)
  | .function f a _, depth, hnames => by
    simp only [names, List.forall_mem_cons, List.forall_mem_append] at hnames
    obtain ⟨hname, hparams, ha⟩ := hnames
    have hblock := Stacked.block (sentence_head hname hparams) (stacked_cBody a (depth + 1) ha)
    have hblank : Stacked depth [indented depth ""] depth := .single (.empty depth)
    rw [cLines]
    simpa using hblock.append hblank
  | .ret (some e) _, depth, hnames => by
    have hnames : ∀ x ∈ e.uses, IsName x := by simpa [names, Expr.usesList] using hnames
    have hreturn : Sentence "return " := .of_all rfl rfl
    rw [cLines]
    exact .single (((hreturn.append (e.keeps_cText hnames)).append
      (.of_all rfl)).fits depth)
  | .ret none _, depth, _ => by
    have hreturn : Sentence "return;" := .of_all rfl rfl
    rw [cLines]
    exact .single (hreturn.fits depth)
  | .print es _, depth, hnames => by
    simp only [names] at hnames
    rw [cLines]
    exact .single ((Expr.sentence_cPrint hnames).fits depth)
  | .expr e _, depth, hnames => by
    simp only [names] at hnames
    rw [cLines]
    exact .single (((Expr.sentence_cText hnames).append (.of_all rfl)).fits depth)

theorem stacked_cBody : ∀ (ss : List TypedStmt) (depth : Nat), (∀ x ∈ namesList ss, IsName x) →
    Stacked depth (cBody depth ss) depth
  | [], _, _ => .nil
  | s :: ss, depth, hnames => by
    simp only [namesList, List.forall_mem_append] at hnames
    exact (stacked_cLines s depth hnames.1).append (stacked_cBody ss depth hnames.2)

end

end Stmt

/-! ## Programs -/

namespace C

theorem indented_zero (line : String) : indented 0 line = line := by
  simp [indented]

theorem programLines_eq (program : List TypedStmt) :
    programLines program = preamble ++ Stmt.cBody 0 (program.filter Stmt.isFunction) ++
      if program.filter (!·.isFunction) = [] then []
      else mainLines (program.filter (!·.isFunction)) := by
  simp only [programLines, List.partition_eq_filter_filter, List.isEmpty_iff]
  rfl

theorem stacked_preamble : Stacked 0 preamble 0 := by
  have hinclude : ∀ line ∈ ["#include <stdio.h>", "#include <string.h>"],
      Fits 0 0 line.toList := by
    intro line hline
    have hsentence : Sentence line := by
      simp only [List.mem_cons, List.not_mem_nil, or_false] at hline
      rcases hline with rfl | rfl <;>
        exact .of_all rfl rfl
    have hfits := hsentence.fits 0
    rwa [indented_zero] at hfits
  exact .cons (hinclude _ (by simp)) (.cons (hinclude _ (by simp)) (.single (.empty 0)))

theorem stacked_mainLines {statements : List TypedStmt}
    (hnames : ∀ x ∈ Stmt.namesList statements, IsName x) : Stacked 0 (mainLines statements) 0 := by
  have hhead : Sentence "int main()" := by
    have hparens : Keeps .code ['(', ')'] := Keeps.nil.parens
    have hname : Keeps .code "int main".toList := .of_all rfl
    exact ⟨hname.append hparens, starts_cons rfl _⟩
  have hreturn : Sentence "return 0;" := .of_all rfl rfl
  have hbody := (Stmt.stacked_cBody statements 1 hnames).append (.single (hreturn.fits 1))
  have hblock := Stacked.block hhead hbody
  rw [indented_zero, indented_zero, ← List.cons_append, List.append_assoc] at hblock
  exact hblock

theorem stacked_programLines {program : List TypedStmt}
    (hnames : ∀ x ∈ Stmt.namesList program, IsName x) : Stacked 0 (programLines program) 0 := by
  have hfilter := Stmt.forall_mem_namesList_filter hnames
  have hfunctions := stacked_preamble.append (Stmt.stacked_cBody _ 0 (hfilter Stmt.isFunction))
  rw [programLines_eq]
  refine hfunctions.append ?_
  split
  · exact .nil
  · exact stacked_mainLines (hfilter _)

/-- The text of a program is well nested if the names in it are names. -/
theorem wellNested_generate {program : List TypedStmt}
    (hnames : ∀ x ∈ Stmt.namesList program, IsName x) :
    WellNested 0 0 (generate program).toList :=
  (stacked_programLines hnames).wellNested

end C

end Chalk
