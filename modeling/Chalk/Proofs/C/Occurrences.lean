import Chalk.Proofs.C.Arguments
import Chalk.Proofs.Typing.Resolution

/-!
# The names in C statements

The words in the lines of a statement are the ones that the statement is made of, in order
(`Stmt.words_cLines`): words of C, names that are defined there, and names that are used there. So
what is said of the occurrences of names in a statement is said of its C text.
-/

namespace Chalk

namespace C

/-! ## Texts that end a word -/

/-- The text has the given names, and no run goes on behind it. -/
def Closes (text : String) (ws : List String) : Prop :=
  ∀ rest, words (text.toList ++ rest) = ws ++ words rest

theorem Closes.words_eq {text : String} {ws : List String} (h : Closes text ws) :
    words text.toList = ws := by
  have hall := h []
  rw [List.append_nil] at hall
  exact hall.trans (List.append_nil ws)

variable {a b : String} {ws ws' : List String}

theorem Closes.append (h : Closes a ws) (h' : Closes b ws') : Closes (a ++ b) (ws ++ ws') := by
  intro rest
  rw [String.toList_append, List.append_assoc, h, h' rest, List.append_assoc]

/-- A word behind a sign. -/
theorem Closes.word (h : Closes a ws) (h' : Spells b.toList ws') :
    Spells (a ++ b).toList (ws ++ ws') := by
  intro rest hrest
  rw [String.toList_append, List.append_assoc, h, h' rest hrest, List.append_assoc]

/-- A sign behind a word. -/
theorem Spells.sign (h : Spells a.toList ws) (h' : Closes b [])
    (hfirst : b.toList.head?.any (!Lexeme.isNamePart ·) = true) : Closes (a ++ b) ws := by
  intro rest
  have hbehind : Stops (b.toList ++ rest) := by
    cases hb : b.toList with
    | nil =>
      rw [hb] at hfirst
      cases hfirst
    | cons c cs =>
      rw [hb] at hfirst
      exact stops_cons (by simpa using hfirst) _
  rw [String.toList_append, List.append_assoc, h _ hbehind, h' rest, List.nil_append]

theorem words_indented (depth : Nat) (line : String) :
    words (indented depth line).toList = words line.toList := by
  have hspaces : ∀ n, words (List.replicate n ' ' ++ line.toList) = words line.toList := by
    intro n
    induction n with
    | zero => rfl
    | succ n ih => rw [List.replicate_succ, List.cons_append, words_cons rfl rfl, ih]
  by_cases hline : line = ""
  · simp [indented, hline]
  · rw [indented, if_neg hline, String.toList_append, String.toList_ofList, hspaces]

/-! ## Lines -/

theorem spells_cName (ty : Ty) : Spells ty.cName.toList [ty.keyword.text] := by
  have hword : Spells "char".toList ["char"] := .word rfl (List.all_eq_true.1 rfl)
  cases ty with
  | int | bool | float | void => exact .word rfl (List.all_eq_true.1 rfl)
  | string => exact hword.append (.cons rfl rfl .nil) (stops_cons rfl [])

theorem closes_declare {v : Variable} {e : TypedExpr} (hname : IsName v.name)
    (hnames : ∀ x ∈ e.uses, IsName x) :
    Closes ((if v.mutable then "" else "const ") ++ v.ty.cName ++ " " ++ v.name ++ " = " ++
        e.cText ++ ";")
      ((if v.mutable then [] else ["const"]) ++ v.ty.keyword.text :: v.name ::
        e.mentions.map Mention.name) := by
  have hqualifier : Closes (if v.mutable then "" else "const ")
      (if v.mutable then [] else ["const"]) := by
    cases v.mutable with
    | true => exact fun _ => rfl
    | false => exact fun _ => rfl
  have hty := (hqualifier.word (spells_cName v.ty)).sign (b := " ") (fun _ => rfl) rfl
  have htarget := (hty.word (.of_isName hname)).sign (b := " = ") (fun _ => rfl) rfl
  have hvalue := (htarget.word (e.spells_cText hnames)).sign (b := ";") (fun _ => rfl) rfl
  simpa using hvalue

/-- A word, and a condition in parentheses in front of a block. -/
theorem closes_condition {word : String} {ws : List String} (hword : Closes word ws) {e : TypedExpr}
    (hnames : ∀ x ∈ e.uses, IsName x) :
    Closes (word ++ e.cText ++ ") \x7b") (ws ++ e.mentions.map Mention.name) :=
  (hword.word (e.spells_cText hnames)).sign (fun _ => rfl) rfl

theorem closes_head {f : Signature} (hname : IsName f.name)
    (hparams : ∀ x ∈ f.params.map Prod.fst, IsName x) :
    Closes (head f ++ " \x7b") (f.returns.keyword.text :: f.name ::
      f.params.flatMap fun p => [p.2.keyword.text, p.1]) := by
  have hparam : ∀ p ∈ f.params,
      Spells (p.2.cName ++ " " ++ p.1).toList [p.2.keyword.text, p.1] := fun p hp =>
    ((spells_cName p.2).sign (b := " ") (fun _ => rfl) rfl).word
      (.of_isName (hparams p.1 (List.mem_map_of_mem hp)))
  have hinside : Spells (", ".intercalate (f.params.map fun p => p.2.cName ++ " " ++ p.1)).toList
      (f.params.flatMap fun p => [p.2.keyword.text, p.1]) := by
    rw [String.toList_intercalate, List.map_map]
    exact .intercalate hparam
  have hty := (spells_cName f.returns).sign (b := " ") (fun _ => rfl) rfl
  have hopen := (hty.word (.of_isName hname)).sign (b := "(") (fun _ => rfl) rfl
  have hbrace : Closes " \x7b" [] := fun _ => rfl
  have hall := ((hopen.word hinside).sign (b := ")") (fun _ => rfl) rfl).append hbrace
  simpa [head] using hall

theorem closes_cPrint {es : List TypedExpr} (hnames : ∀ x ∈ Expr.usesList es, IsName x) :
    Closes (Expr.cPrint es) ("printf" :: (Expr.mentionsList es).map Mention.name) := by
  have hformat : Closes ("printf(\"" ++ Expr.printFormat es ++ "\", ") ["printf"] := by
    intro rest
    have htext : ("printf(\"" ++ Expr.printFormat es ++ "\", ").toList ++ rest =
        "printf(".toList ++ '"' :: (escape (Text.utf8 (Expr.printLine es)) ++
          '"' :: ',' :: ' ' :: rest) := by
      rw [← Expr.toList_printFormat_eq_escape]
      simp
    have hname : Closes "printf(" ["printf"] := fun _ => rfl
    rw [htext, hname, words_literal, words_cons rfl rfl, words_cons rfl rfl]
  have harguments : Spells (", ".intercalate (es.map Expr.cText)).toList
      ((Expr.mentionsList es).map Mention.name) := by
    rw [String.toList_intercalate, List.map_map]
    exact Expr.spells_arguments hnames
  exact (hformat.word harguments).sign (fun _ => rfl) rfl

end C

/-! ## Statements -/

open C

namespace Stmt

theorem map_word_ofMentions (visible : List String) (ms : List Mention) :
    (Occurrence.ofMentions visible ms).map Occurrence.word = ms.map Mention.name := by
  simp [Occurrence.ofMentions, Occurrence.word, Function.comp_def]

theorem map_word_flatMap_ofParam (ps : List (String × Ty)) :
    (ps.flatMap Occurrence.ofParam).map Occurrence.word =
      ps.flatMap fun p => [p.2.keyword.text, p.1] := by
  rw [List.map_flatMap]
  rfl

/-- The words of lines. -/
def wordsOf (lines : List String) : List String :=
  lines.flatMap (words ·.toList)

theorem wordsOf_cons {line : String} {ws : List String} (h : Closes line ws) (depth : Nat)
    (lines : List String) : wordsOf (indented depth line :: lines) = ws ++ wordsOf lines := by
  rw [wordsOf, List.flatMap_cons, words_indented, h.words_eq]
  rfl

theorem wordsOf_append (lines lines' : List String) :
    wordsOf (lines ++ lines') = wordsOf lines ++ wordsOf lines' :=
  List.flatMap_append

@[simp] theorem wordsOf_nil : wordsOf [] = [] := rfl

theorem wordsOf_close (depth : Nat) (lines : List String) :
    wordsOf (indented depth "\x7d" :: lines) = wordsOf lines := by
  have hclose : Closes "\x7d" [] := fun _ => rfl
  exact wordsOf_cons hclose depth lines

mutual

/-- The words in the lines of a statement are the ones that it is made of. -/
theorem words_cLines : ∀ (s : TypedStmt) (depth : Nat) (visible : List String),
    (∀ x ∈ s.names, IsName x) →
      wordsOf (s.cLines depth) = (s.occurrences visible).map Occurrence.word
  | .declare v e _, depth, visible, hnames => by
    simp only [names, List.forall_mem_cons] at hnames
    have hqualifier : (if v.mutable then [] else [Occurrence.keyword .qualifier]).map
        Occurrence.word = if v.mutable then [] else ["const"] := by
      cases v.mutable <;> rfl
    rw [cLines, wordsOf_cons (closes_declare hnames.1 hnames.2), occurrences, List.map_append,
      hqualifier, List.map_cons, List.map_cons, map_word_ofMentions]
    exact List.append_nil _
  | .assign x e _, depth, visible, hnames => by
    simp only [names, List.forall_mem_cons] at hnames
    have htarget := (Spells.of_isName hnames.1).sign (b := " = ") (fun _ => rfl) rfl
    have hline := (htarget.word (e.spells_cText hnames.2)).sign (b := ";") (fun _ => rfl) rfl
    rw [cLines, wordsOf_cons hline, occurrences, List.map_cons, map_word_ofMentions]
    exact List.append_nil _
  | .branch e a b _, depth, visible, hnames => by
    simp only [names, List.forall_mem_append] at hnames
    obtain ⟨he, ha, hb⟩ := hnames
    have hif : Closes "if (" ["if"] := fun _ => rfl
    have helse : Closes "\x7d else \x7b" ["else"] := fun _ => rfl
    have hcondition := wordsOf_cons (closes_condition hif he) depth
    have hthen := words_cBody a (depth + 1) visible ha
    cases b with
    | nil => simp [cLines, occurrences, hcondition, wordsOf_append, hthen, wordsOf_close,
        map_word_ofMentions, Occurrence.word, Keyword.text]
    | cons s b =>
      have hotherwise := words_cBody (s :: b) (depth + 1) visible hb
      simp [cLines, occurrences, hcondition, wordsOf_append, hthen, wordsOf_close,
        wordsOf_cons helse, hotherwise, map_word_ofMentions, Occurrence.word, Keyword.text]
  | .loop e a _, depth, visible, hnames => by
    simp only [names, List.forall_mem_append] at hnames
    have hwhile : Closes "while (" ["while"] := fun _ => rfl
    have hbody := words_cBody a (depth + 1) visible hnames.2
    simp [cLines, occurrences, wordsOf_cons (closes_condition hwhile hnames.1), wordsOf_append,
      hbody, wordsOf_close, map_word_ofMentions, Occurrence.word, Keyword.text]
  | .function f a _, depth, visible, hnames => by
    simp only [names, List.forall_mem_cons, List.forall_mem_append] at hnames
    obtain ⟨hname, hparams, ha⟩ := hnames
    have hblank : Closes "" [] := fun _ => rfl
    have hbody := words_cBody a (depth + 1) (f.params.map Prod.fst ++ f.name :: visible) ha
    simp [cLines, occurrences, wordsOf_cons (closes_head hname hparams), wordsOf_append,
      hbody, wordsOf_close, wordsOf_cons hblank, map_word_flatMap_ofParam, Occurrence.word]
  | .ret (some e) _, depth, visible, hnames => by
    have hnames : ∀ x ∈ e.uses, IsName x := by simpa [names, Expr.usesList] using hnames
    have hreturn : Closes "return " ["return"] := fun _ => rfl
    have hline := (hreturn.word (e.spells_cText hnames)).sign (b := ";") (fun _ => rfl) rfl
    rw [cLines, wordsOf_cons hline, occurrences, List.map_cons, map_word_ofMentions]
    simp [Expr.mentionsList, Occurrence.word, Keyword.text]
  | .ret none _, depth, visible, _ => by
    have hreturn : Closes "return;" ["return"] := fun _ => rfl
    exact wordsOf_cons hreturn depth []
  | .print es _, depth, visible, hnames => by
    simp only [names] at hnames
    rw [cLines, wordsOf_cons (closes_cPrint hnames), occurrences, List.map_cons,
      map_word_ofMentions]
    exact List.append_nil _
  | .expr e _, depth, visible, hnames => by
    simp only [names] at hnames
    have hline := (e.spells_cText hnames).sign (b := ";") (fun _ => rfl) rfl
    rw [cLines, wordsOf_cons hline, occurrences, map_word_ofMentions]
    exact List.append_nil _

theorem words_cBody : ∀ (ss : List TypedStmt) (depth : Nat) (visible : List String),
    (∀ x ∈ namesList ss, IsName x) →
      wordsOf (cBody depth ss) = (occurrencesList visible ss).map Occurrence.word
  | [], _, _, _ => rfl
  | s :: ss, depth, visible, hnames => by
    simp only [namesList, List.forall_mem_append] at hnames
    rw [cBody, wordsOf_append, words_cLines s depth visible hnames.1,
      words_cBody ss depth _ hnames.2, occurrencesList, List.map_append]

end

end Stmt

end Chalk
