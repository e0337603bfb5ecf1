import Chalk.Proofs.C.Denotation
import Chalk.Proofs.C.NumberText
import Chalk.Proofs.C.RoundTrip
import Chalk.Proofs.Typing.Relevance

/-!
# The names in C text

A name in C text is a run of letters, digits and underscores that begins with no digit and lies
outside of string literals (`C.words`). The names in the text of an expression are the ones that its
tree mentions, in order (`Expr.words_cText`). There is one kind of name among them that was none
before: a number without digits is written as a bare word, which C takes for a variable.
-/

namespace Chalk

/-! ## Names of a text -/

namespace C

/-- A run of characters, if it is a name. -/
def name (run : List Char) : List String :=
  if run.head?.any Lexeme.isNameStart then [String.ofList run] else []

/-- The names of a text without literals, behind the characters of a run. -/
def wordsFrom (run : List Char) : List Char → List String
  | [] => name run
  | c :: cs => if Lexeme.isNamePart c then wordsFrom (run ++ [c]) cs else name run ++ wordsFrom [] cs

/-- The names of a text. -/
def words (text : List Char) : List String :=
  wordsFrom [] (outside false text)

example : words "(f(x_1, \"a b\") + 2.5e10)".toList = ["f", "x_1"] := by decide +kernel

/-- No run goes on with the text. -/
def Stops (rest : List Char) : Prop :=
  ∀ c ∈ rest.head?, Lexeme.isNamePart c = false

theorem stops_cons {c : Char} (h : Lexeme.isNamePart c = false) (cs : List Char) :
    Stops (c :: cs) := by
  rintro _ ⟨⟩
  exact h

variable {run rest : List Char}

theorem wordsFrom_append (h : ∀ c ∈ run, Lexeme.isNamePart c = true) (before rest : List Char) :
    wordsFrom before (run ++ rest) = wordsFrom (before ++ run) rest := by
  induction run generalizing before with
  | nil => rw [List.nil_append, List.append_nil]
  | cons c run ih =>
    obtain ⟨hc, hrun⟩ := List.forall_mem_cons.1 h
    rw [List.cons_append, wordsFrom, if_pos hc, ih hrun, List.append_assoc]
    rfl

theorem wordsFrom_stop (h : Stops rest) (run : List Char) :
    wordsFrom run rest = name run ++ wordsFrom [] rest := by
  cases rest with
  | nil => exact (List.append_nil _).symm
  | cons c rest =>
    have hc : ¬ Lexeme.isNamePart c = true := by simp [h c rfl]
    rw [wordsFrom, wordsFrom, if_neg hc, if_neg hc]
    rfl

theorem head?_outside (text : List Char) : (outside false text).head? = text.head? := by
  cases text <;> rfl

theorem words_run (hrun : ∀ c ∈ run, Lexeme.isNamePart c = true) (hrest : Stops rest) :
    words (run ++ rest) = name run ++ words rest := by
  have hquote : '"' ∉ run := fun hmem => absurd (hrun _ hmem) (by decide)
  have hstops : Stops (outside false rest) := by
    rw [Stops, head?_outside]
    exact hrest
  rw [words, outside_append hquote, wordsFrom_append hrun, List.nil_append, wordsFrom_stop hstops]
  rfl

theorem words_cons {c : Char} (hpart : Lexeme.isNamePart c = false) (hquote : (c == '"') = false)
    (rest : List Char) : words (c :: rest) = words rest := by
  rw [words, outside, hquote, wordsFrom, hpart]
  rfl

theorem outside_literal (bytes : List UInt8) (rest : List Char) :
    outside true (escape bytes ++ '"' :: rest) = '"' :: outside false rest := by
  have hdigit : ∀ b cs, outside true (octalDigit b :: cs) = outside true cs := by
    intro b cs
    have hbackslash : octalDigit b ≠ '\\' := octalDigit_ne rfl b
    rw [outside, if_neg (octalDigit_ne rfl b)]
    simp [hbackslash]
  have hbyte : ∀ b cs, outside true (escapeByte b ++ cs) = outside true cs := by
    intro b cs
    by_cases hplain : IsPlainByte b
    · exact outside_escapeByte hplain cs
    · rw [escapeByte_of_not_isPlainByte hplain]
      simp only [List.cons_append, List.nil_append, outside, hdigit]
  induction bytes with
  | nil => simp [escape, outside]
  | cons b bytes ih => rw [escape, List.flatMap_cons, List.append_assoc, hbyte, ← escape, ih]

theorem words_literal (bytes : List UInt8) (rest : List Char) :
    words ('"' :: (escape bytes ++ '"' :: rest)) = words rest := by
  have houtside : outside false ('"' :: (escape bytes ++ '"' :: rest)) =
      '"' :: '"' :: outside false rest := congrArg ('"' :: ·) (outside_literal bytes rest)
  rw [words, houtside]
  rfl

/-! ## Texts and their names -/

/-- In front of anything that does not go on with it, the text has the given names. -/
def Spells (text : List Char) (ws : List String) : Prop :=
  ∀ rest, Stops rest → words (text ++ rest) = ws ++ words rest

namespace Spells

variable {text text' : List Char} {ws ws' : List String}

theorem words_eq (h : Spells text ws) : words text = ws := by
  have hall := h [] (by simp [Stops])
  rw [List.append_nil] at hall
  exact hall.trans (List.append_nil ws)

theorem nil : Spells [] [] := fun _ _ => rfl

theorem append (h : Spells text ws) (h' : Spells text' ws') (hstops : Stops text') :
    Spells (text ++ text') (ws ++ ws') := by
  intro rest hrest
  have hbehind : Stops (text' ++ rest) := by
    intro c hc
    rw [List.head?_append] at hc
    rcases Option.or_eq_some_iff.1 hc with hc | ⟨-, hc⟩
    · exact hstops c hc
    · exact hrest c hc
  rw [List.append_assoc, h _ hbehind, h' rest hrest, List.append_assoc]

theorem cons {c : Char} (hpart : Lexeme.isNamePart c = false) (hquote : (c == '"') = false)
    (h : Spells text ws) : Spells (c :: text) ws := by
  intro rest hrest
  rw [List.cons_append, words_cons hpart hquote, h rest hrest]

/-- A text in parentheses. -/
theorem parens (h : Spells text ws) : Spells ('(' :: (text ++ [')'])) ws := by
  have hclose : Spells [')'] [] := .cons rfl rfl .nil
  have hinside := h.append hclose (stops_cons rfl [])
  rw [List.append_nil] at hinside
  exact hinside.cons rfl rfl

theorem word {c : Char} {cs : List Char} (hc : Lexeme.isNameStart c = true)
    (hcs : ∀ d ∈ cs, Lexeme.isNamePart d = true) : Spells (c :: cs) [String.ofList (c :: cs)] := by
  have hpart : Lexeme.isNamePart c = true := by
    simp only [Lexeme.isNameStart, Bool.or_eq_true] at hc
    simp only [Lexeme.isNamePart, Char.isAlphanum, Bool.or_eq_true]
    exact hc.imp_left .inl
  have hname : name (c :: cs) = [String.ofList (c :: cs)] := if_pos hc
  intro rest hrest
  rw [words_run (List.forall_mem_cons.2 ⟨hpart, hcs⟩) hrest, hname]

theorem of_isName {x : String} (h : IsName x) : Spells x.toList [x] := by
  obtain ⟨c, cs, htext, hc, hcs⟩ := h.exists_cons
  have hword := word hc hcs
  rwa [← htext, String.ofList_toList] at hword

/-- Texts with commas between them. -/
theorem intercalate {α : Type} {xs : List α} {text : α → List Char} {ws : α → List String}
    (h : ∀ x ∈ xs, Spells (text x) (ws x)) :
    Spells ([',', ' '].intercalate (xs.map text)) (xs.flatMap ws) := by
  induction xs with
  | nil => exact nil
  | cons x xs ih =>
    obtain ⟨hfirst, hrest⟩ := List.forall_mem_cons.1 h
    cases xs with
    | nil => simpa [List.intercalate] using hfirst
    | cons y xs =>
      have hcomma : Lexeme.isNamePart ',' = false := rfl
      have hbehind := ((ih hrest).cons (c := ' ') rfl rfl).cons hcomma rfl
      rw [List.map_cons, List.map_cons, List.intercalate_cons_cons, List.append_assoc,
        List.flatMap_cons]
      exact hfirst.append hbehind (stops_cons hcomma _)

/-- A run that begins with a digit is no name. -/
theorem numeral {d : Char} {ds : List Char} (hd : d.isDigit = true)
    (hds : ∀ c ∈ ds, Lexeme.isNamePart c = true) : Spells (d :: ds) [] := by
  have hpart : Lexeme.isNamePart d = true := by
    simp [Lexeme.isNamePart, Char.isAlphanum, hd]
  have hname : name (d :: ds) = [] := by
    have hstart : Lexeme.isNameStart d = false := Lexeme.isNameStart_eq_false_of_isDigit hd
    simp [name, hstart]
  intro rest hrest
  rw [words_run (List.forall_mem_cons.2 ⟨hpart, hds⟩) hrest, hname]

theorem digits {ds : List Char} (h : ∀ c ∈ ds, c.isDigit = true) : Spells ds [] := by
  cases ds with
  | nil => exact nil
  | cons d ds =>
    obtain ⟨hd, hds⟩ := List.forall_mem_cons.1 h
    refine numeral hd fun c hc => ?_
    simp [Lexeme.isNamePart, Char.isAlphanum, hds c hc]

/-- Digits are no name, and the letter in front of an exponent belongs to their run. -/
theorem exponent {ds cs : List Char} (h : IsDigits ds) (hexponent : IsExponent cs) :
    Spells (ds ++ cs) [] := by
  obtain ⟨d, ds, rfl⟩ := List.exists_cons_of_ne_nil h.1
  have hpart : ∀ {ds : List Char}, (∀ c ∈ ds, c.isDigit = true) →
      ∀ c ∈ ds, Lexeme.isNamePart c = true := by
    intro ds hds c hc
    simp [Lexeme.isNamePart, Char.isAlphanum, hds c hc]
  obtain ⟨hd, hds⟩ := List.forall_mem_cons.1 h.2
  rcases hexponent with rfl | ⟨power, hpower, rfl | rfl⟩
  · rw [List.append_nil]
    exact numeral hd (hpart hds)
  · refine numeral hd (List.forall_mem_append.2 ⟨hpart hds, List.forall_mem_cons.2 ⟨rfl, ?_⟩⟩)
    exact hpart hpower.2
  · have hrun : Spells (d :: (ds ++ ['e'])) [] :=
      numeral hd (List.forall_mem_append.2 ⟨hpart hds, List.forall_mem_singleton.2 rfl⟩)
    have hminus : Spells ('-' :: power) [] := (digits hpower.2).cons rfl rfl
    have hall := hrun.append hminus (stops_cons rfl power)
    rwa [List.cons_append, List.append_assoc] at hall

theorem of_isConstant (h : IsConstant text) : Spells text [] := by
  obtain ⟨whole, fraction, cs, rfl, hwhole, rfl | ⟨ds, hds, rfl⟩, hexponent⟩ := h
  · exact exponent hwhole hexponent
  · exact (digits hwhole.2).append ((exponent hds hexponent).cons rfl rfl) (stops_cons rfl _)

/-- A number without digits is a word. -/
theorem number (n : Number) : Spells n.text.toList n.word?.toList := by
  obtain ⟨negative, cs, htext, hform⟩ := n.exists_text
  have hunsigned : Spells cs n.word?.toList := by
    rcases hform with ⟨hnone, hconstant⟩ | ⟨hword, hletters⟩
    · rw [hnone]
      exact of_isConstant hconstant
    · rw [hword]
      rcases hletters with rfl | rfl <;> exact word rfl (List.all_eq_true.1 rfl)
  rw [htext]
  cases negative with
  | false => exact hunsigned
  | true => exact hunsigned.cons rfl rfl

end Spells

end C

/-! ## Names of expressions -/

/-- What a name is used for in C text: a variable that is read or written, or a function that is
called. -/
inductive Role where
  | read
  | write
  | call
  /-- A number that C takes for a variable. -/
  | word
deriving DecidableEq, Repr, Inhabited

structure Mention where
  role : Role
  name : String
deriving DecidableEq, Repr, Inhabited

namespace Expr

mutual

/-- The names in the C text of an expression, in order. -/
def mentions {ν : Type} : Expr ν → List Mention
  | number value _ => value.word?.toList.map (⟨.word, ·⟩)
  | string .. | bool .. => []
  | var name _ => [⟨.read, name⟩]
  | negate operand _ => operand.mentions
  | binary _ left right _ => left.mentions ++ right.mentions
  | call callee arguments _ => ⟨.call, callee⟩ :: mentionsList arguments

/-- `mentions` on a list of expressions. -/
def mentionsList {ν : Type} : List (Expr ν) → List Mention
  | [] => []
  | e :: es => e.mentions ++ mentionsList es

end

mutual

/-- The names that are used are mentioned. All other mentions are words of numbers. -/
theorem uses_eq {ν : Type} : ∀ e : Expr ν,
    e.uses = (e.mentions.filter (·.role ≠ .word)).map Mention.name
  | .number v _ => by
    rw [mentions, uses]
    cases v.word? <;> rfl
  | .string .. | .bool .. | .var .. => rfl
  | .negate e _ => e.uses_eq
  | .binary _ l r _ => by
    rw [mentions, uses, l.uses_eq, r.uses_eq, List.filter_append, List.map_append]
  | .call f es _ => by
    rw [mentions, uses, usesList_eq es]
    rfl

theorem usesList_eq {ν : Type} : ∀ es : List (Expr ν),
    usesList es = ((mentionsList es).filter (·.role ≠ .word)).map Mention.name
  | [] => rfl
  | e :: es => by
    rw [mentionsList, usesList, e.uses_eq, usesList_eq es, List.filter_append, List.map_append]

end

theorem mem_uses_iff {ν : Type} {e : Expr ν} {x : String} :
    x ∈ e.uses ↔ ∃ m ∈ e.mentions, m.role ≠ .word ∧ m.name = x := by
  simp [uses_eq, and_assoc]

theorem map_mentionsList {ν : Type} (es : List (Expr ν)) :
    (mentionsList es).map Mention.name = es.flatMap (·.mentions.map Mention.name) := by
  induction es with
  | nil => rfl
  | cons e es ih => rw [mentionsList, List.map_append, ih, List.flatMap_cons]

open C

theorem spells_operator (op : Operator) {text : List Char} {ws : List String}
    (h : Spells text ws) : Spells (op.sign.spelling ++ text) ws := by
  cases op <;> exact h

mutual

theorem spells_cText : ∀ e : TypedExpr, (∀ x ∈ e.uses, IsName x) →
    Spells e.cText.toList (e.mentions.map Mention.name)
  | .number v ty, _ => by
    have hnames : ((number v ty).mentions.map Mention.name) = v.word?.toList := by
      simp [mentions, Function.comp_def]
    rw [hnames]
    exact Spells.number v
  | .string bytes _, _ => by
    intro rest _
    rw [toList_cText_string, List.cons_append, List.append_assoc]
    exact words_literal bytes rest
  | .bool b _, _ => by
    have hdigit : Spells (if b then "1" else "0").toList [] := by
      cases b <;> exact .digits (List.forall_mem_singleton.2 rfl)
    exact hdigit
  | .var x _, hnames => .of_isName (hnames x (by simp [uses]))
  | .negate e _, hnames => by
    rw [toList_cText_negate]
    have hinside := spells_cText e (by simpa only [uses] using hnames)
    exact (hinside.cons rfl rfl).parens
  | .binary op l r _, hnames => by
    simp only [uses, List.forall_mem_append] at hnames
    rw [toList_cText_binary, mentions, List.map_append]
    have hspace : Lexeme.isNamePart ' ' = false := rfl
    have hright := spells_operator op ((spells_cText r hnames.2).cons hspace rfl)
    refine ((spells_cText l hnames.1).append (hright.cons hspace rfl) ?_).parens
    exact stops_cons hspace _
  | .call f es _, hnames => by
    simp only [uses, List.forall_mem_cons] at hnames
    have harguments := Spells.intercalate (spells_cTexts es hnames.2)
    rw [toList_cText_call, mentions, List.map_cons, map_mentionsList]
    exact (Spells.of_isName hnames.1).append harguments.parens (stops_cons rfl _)

theorem spells_cTexts : ∀ es : List TypedExpr, (∀ x ∈ usesList es, IsName x) →
    ∀ e ∈ es, Spells e.cText.toList (e.mentions.map Mention.name)
  | [], _ => nofun
  | e :: es, hnames => by
    rw [usesList, List.forall_mem_append] at hnames
    exact List.forall_mem_cons.2 ⟨spells_cText e hnames.1, spells_cTexts es hnames.2⟩

end

theorem spells_arguments {es : List TypedExpr} (hnames : ∀ x ∈ usesList es, IsName x) :
    Spells ([',', ' '].intercalate (es.map (·.cText.toList)))
      ((mentionsList es).map Mention.name) := by
  rw [map_mentionsList]
  exact .intercalate (spells_cTexts es hnames)

/-- The names in the text of an expression are the ones that it mentions, in order. -/
theorem words_cText {e : TypedExpr} (h : ∀ x ∈ e.uses, IsName x) :
    words e.cText.toList = e.mentions.map Mention.name :=
  (spells_cText e h).words_eq

end Expr

end Chalk
