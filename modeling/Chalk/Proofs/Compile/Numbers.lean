import Chalk.Proofs.C.Constant
import Chalk.Proofs.Compile.Concatenation
import Chalk.Proofs.Compile.Nesting
import Chalk.Proofs.Token.Fault
import Chalk.Proofs.Token.Writing

/-!
# The numbers of a source

The numbers in the tree that is written out are those that the number tokens of the source denote, in
the same order (`forall₂_numbers_of_typeCheck`). So each of them is written as a constant of C unless
its token overflows, and the C text for one that does is a word (`compile_constants`).
-/

namespace Chalk

/-! ## The numbers in a tree -/

namespace Expr

mutual

/-- The numbers in an expression, from left to right. -/
def numbers {ν : Type} : Expr ν → List Number
  | number value _ => [value]
  | string .. | bool .. | var .. => []
  | negate operand _ => operand.numbers
  | binary _ left right _ => left.numbers ++ right.numbers
  | call _ arguments _ => numbersList arguments

/-- `numbers` on a list of expressions. -/
def numbersList {ν : Type} : List (Expr ν) → List Number
  | [] => []
  | e :: es => e.numbers ++ numbersList es

end

end Expr

namespace Stmt

mutual

/-- The numbers in a statement, at any depth, in the order in which they are written. -/
def numbers {ε σ : Type} : Stmt ε σ → List Number
  | declare _ value _ | assign _ value _ | expr value _ => value.numbers
  | branch condition thenBody elseBody _ =>
    condition.numbers ++ (numbersList thenBody ++ numbersList elseBody)
  | loop condition body _ => condition.numbers ++ numbersList body
  | function _ body _ => numbersList body
  | ret value _ => Expr.numbersList value.toList
  | print values _ => Expr.numbersList values

/-- `numbers` on a list of statements. -/
def numbersList {ε σ : Type} : List (Stmt ε σ) → List Number
  | [] => []
  | s :: rest => s.numbers ++ numbersList rest

end

end Stmt

mutual

theorem Expr.numbers_map {ν μ : Type} (f : ν → μ) : ∀ e : Expr ν, (e.map f).numbers = e.numbers
  | .number .. | .string .. | .bool .. | .var .. => rfl
  | .negate e _ => e.numbers_map f
  | .binary _ l r _ => by
    rw [Expr.map, Expr.numbers, Expr.numbers, l.numbers_map f, r.numbers_map f]
  | .call _ es _ => by rw [Expr.map, Expr.numbers, Expr.numbers, Expr.numbersList_map f es]

theorem Expr.numbersList_map {ν μ : Type} (f : ν → μ) :
    ∀ es : List (Expr ν), Expr.numbersList (Expr.mapList f es) = Expr.numbersList es
  | [] => rfl
  | e :: es => by
    rw [Expr.mapList, Expr.numbersList, Expr.numbersList, e.numbers_map f,
      Expr.numbersList_map f es]

end

mutual

theorem Stmt.numbers_map {ε σ ε' σ' : Type} (f : ε → ε') (g : σ → σ') :
    ∀ s : Stmt ε σ, (s.map f g).numbers = s.numbers
  | .declare _ e _ | .assign _ e _ | .expr e _ => e.numbers_map f
  | .branch e a b _ => by
    simp only [Stmt.map, Stmt.numbers, e.numbers_map f, Stmt.numbersList_map f g a,
      Stmt.numbersList_map f g b]
  | .loop e a _ => by
    simp only [Stmt.map, Stmt.numbers, e.numbers_map f, Stmt.numbersList_map f g a]
  | .function _ a _ => by simp only [Stmt.map, Stmt.numbers, Stmt.numbersList_map f g a]
  | .ret none _ => rfl
  | .ret (some e) _ => Expr.numbersList_map f [e]
  | .print es _ => by
    rw [Stmt.map, Stmt.numbers, Stmt.numbers, ← Expr.mapList_eq, Expr.numbersList_map]

theorem Stmt.numbersList_map {ε σ ε' σ' : Type} (f : ε → ε') (g : σ → σ') :
    ∀ ss : List (Stmt ε σ), Stmt.numbersList (Stmt.mapList f g ss) = Stmt.numbersList ss
  | [] => rfl
  | s :: ss => by
    rw [Stmt.mapList, Stmt.numbersList, Stmt.numbersList, s.numbers_map f g,
      Stmt.numbersList_map f g ss]

end

/-- Checking changes no number. -/
theorem WellTyped.numbersList_eq {ρ : Option Ty} {Γ : Env} {ss : List ParsedStmt}
    {ts : List TypedStmt} (h : WellTyped ρ Γ ss ts) : Stmt.numbersList ts = Stmt.numbersList ss := by
  rw [← Stmt.numbersList_map (fun _ => ()) (fun _ => ()) ts, h.erase, Stmt.numbersList_map]

/-! ## The numbers that tokens denote -/

namespace Token

/-- The tokens that are numbers. -/
def numbers (ts : List Token) : List Token :=
  ts.filter (·.kind = .number)

theorem numbers_append (ts us : List Token) : numbers (ts ++ us) = numbers ts ++ numbers us :=
  List.filter_append ..

theorem numbers_cons {t : Token} (h : t.kind ≠ .number) (ts : List Token) :
    numbers (t :: ts) = numbers ts :=
  List.filter_cons_of_neg (by simpa using h)

theorem numbers_concat {t : Token} (h : t.kind ≠ .number) (ts : List Token) :
    numbers (ts ++ [t]) = numbers ts := by
  rw [numbers_append, numbers_cons h]
  exact List.append_nil _

theorem mem_numbers {t : Token} {ts : List Token} : t ∈ numbers ts ↔ t ∈ ts ∧ t.kind = .number := by
  simp [numbers]

end Token

theorem isNumeral_of_tokenize {source file : String} {ts : List Token}
    (h : tokenize source file = .ok ts) :
    ∀ t ∈ ts, t.kind = .number → IsNumeral t.value.toList :=
  forall_of_tokenize (fun _ => nofun) (fun hcut htoken hkind => by
    obtain ⟨rfl, rfl, -⟩ := Lexeme.Class.eq_number_of_token? htoken hkind
    exact (Lexeme.Class.cut?_eq_some_iff.1 hcut).2.1) h

/-- The numbers in the tree of a phrase. -/
def Phrase.numbers : Phrase → List Number
  | chain _ e | unary e | atom e => e.numbers
  | callee .. | params _ | returns _ => []
  | arguments es => Expr.numbersList es
  | stmt s | branch s => s.numbers
  | otherwise body | block body | stmts body => Stmt.numbersList body

theorem Phrase.numbers_operand (p : Power) (e : ParsedExpr) : (operand p e).numbers = e.numbers := by
  cases p <;> rfl

/-- The numbers in a tree are those that its number tokens stand for, one by one. -/
theorem Derives.forall₂_numbers {reads : String → Number → Prop} {φ : Phrase} {ts : List Token}
    (h : Derives reads φ ts) :
    List.Forall₂ (fun t v => reads t.value v) (Token.numbers ts) φ.numbers := by
  induction h with
  | ofOperand _ ih =>
    rw [Phrase.numbers_operand] at ih
    exact ih
  | operation _ kind _ ihl ihr =>
    rw [Phrase.numbers_operand] at ihr
    rw [Token.numbers_append, Token.numbers_cons (by simp [kind])]
    exact List.rel_append ihl ihr
  | call _ opens _ closes ihcallee iharguments =>
    rw [Token.numbers_append, Token.numbers_cons (by simp [opens]),
      Token.numbers_concat (by simp [closes])]
    exact List.rel_append ihcallee iharguments
  | moreArguments _ kind _ ihfirst ihrest =>
    rw [Token.numbers_append, Token.numbers_cons (by simp [kind])]
    exact List.rel_append ihfirst ihrest
  | loop keyword _ _ ihcondition ihbody =>
    rw [Token.numbers_cons (by simp [keyword]), Token.numbers_append]
    exact List.rel_append ihcondition ihbody
  | function keyword name opens _ closes _ _ ihparams ihreturns ihbody =>
    rw [Token.numbers_cons (by simp [keyword]), Token.numbers_cons (by simp [name]),
      Token.numbers_cons (by simp [opens]), Token.numbers_append,
      Token.numbers_cons (by simp [closes]), Token.numbers_append]
    exact List.rel_append ihparams (List.rel_append ihreturns ihbody)
  | exprStmt _ ends ih =>
    rw [← List.cons_append, Token.numbers_concat (by simp [ends])]
    exact ih
  | branch keyword _ _ _ ihcondition ihbody ihother =>
    rw [Token.numbers_cons (by simp [keyword]), Token.numbers_append, Token.numbers_append]
    exact List.rel_append ihcondition (List.rel_append ihbody ihother)
  | moreStmts _ _ ihfirst ihrest =>
    rw [Token.numbers_append]
    exact List.rel_append ihfirst ihrest
  | _ =>
    simp_all [Phrase.numbers, Phrase.expr, Phrase.operand, Expr.numbers, Expr.numbersList,
      Stmt.numbers, Stmt.numbersList, Token.numbers, Token.IsType]

/-! ## From the source to C -/

theorem forall₂_numbers_of_typeCheck {source file : String} {ts : List Token} {p : Program}
    {t : List TypedStmt} (htokens : tokenize source file = .ok ts) (hparse : parse ts file = .ok p)
    (hcheck : typeCheck p = .ok t) :
    List.Forall₂ (fun token v => Denotes token.value v) (Token.numbers ts)
      (Stmt.numbersList t) := by
  have hwell : WellTyped none .empty p t := (Stmt.checkAll_iff p).1 hcheck
  have hforms : ∀ token ∈ Token.numbers ts, IsNumeral token.value.toList := fun token hmem =>
    have ⟨hmem, hkind⟩ := Token.mem_numbers.1 hmem
    isNumeral_of_tokenize htokens token hmem hkind
  have hlaid : Laid file [] source.toList ts := Cursor.laid_of_scan htokens
  obtain ⟨pieces, rfl, hkinds⟩ := hlaid.eq_append_end
  have hderives : Derives Number.Read (.stmts p) pieces := (parse_append_end_iff hkinds).1 hparse
  rw [Token.numbers_concat (by simp [Token.endAt])] at hforms ⊢
  rw [hwell.numbersList_eq]
  refine ((List.forall₂_and_left _ _).2 ⟨hforms, hderives.forall₂_numbers⟩).imp ?_
  rintro token v ⟨form, hread⟩
  exact .of_read? form hread

/-- The numbers in the tree that is written out are those that the number tokens of the source
denote, one by one. The C text for one is a constant unless its token overflows, and then it is the
word `inf`. -/
theorem compile_constants {source file text : String} (h : compile source file = .ok text) :
    ∃ ts p t, tokenize source file = .ok ts ∧ parse ts file = .ok p ∧ typeCheck p = .ok t ∧
      text = C.generate t ∧
      List.Forall₂ (fun token v => Denotes token.value v ∧ ∀ ty,
        (C.IsConstant (Expr.number v ty).cText.toList ↔ ¬ Overflows token.value.toList) ∧
          (Overflows token.value.toList → (Expr.number v ty).cText = "inf"))
        (Token.numbers ts) (Stmt.numbersList t) := by
  obtain ⟨ts, p, t, htokens, hparse, hcheck, rfl⟩ := exists_stages_of_compile h
  refine ⟨ts, p, t, htokens, hparse, hcheck, rfl, ?_⟩
  refine (forall₂_numbers_of_typeCheck htokens hparse hcheck).imp ?_
  intro token v hdenotes
  refine ⟨hdenotes, fun ty => ?_⟩
  rw [Expr.cText]
  exact hdenotes.isConstant_text_iff

/-- Numbers with zeros in front, in a call, and with more digits than a value has. -/
def longNumerals : String :=
  "fn f(x: float) -> float \x7b return -x; \x7d\nprint(007, f(0.0000001), 12345678901234567890.5);"

theorem compile_constants_longNumerals : ∃ text ts p t,
    compile longNumerals "main" = .ok text ∧
      (Token.numbers ts).map (·.value) = ["007", "0.0000001", "12345678901234567890.5"] ∧
      tokenize longNumerals "main" = .ok ts ∧ parse ts "main" = .ok p ∧ typeCheck p = .ok t ∧
      text = C.generate t ∧
      List.Forall₂ (fun token v => Denotes token.value v ∧ ∀ ty,
        (C.IsConstant (Expr.number v ty).cText.toList ↔ ¬ Overflows token.value.toList) ∧
          (Overflows token.value.toList → (Expr.number v ty).cText = "inf"))
        (Token.numbers ts) (Stmt.numbersList t) := by
  have hok : (compile longNumerals "main").isOk = true := by decide +kernel
  have hvalues : (tokenize longNumerals "main").map (fun ts => (Token.numbers ts).map (·.value)) =
      .ok ["007", "0.0000001", "12345678901234567890.5"] := by
    decide +kernel
  cases h : compile longNumerals "main" with
  | error e =>
    rw [h] at hok
    cases hok
  | ok text =>
    obtain ⟨ts, p, t, htokens, hstages⟩ := compile_constants h
    rw [htokens] at hvalues
    exact ⟨text, ts, p, t, rfl, Except.ok.inj hvalues, htokens, hstages⟩

/-! ## A number alone -/

theorem Denotes.isNumeral {numeral : String} {v : Number} (h : Denotes numeral v) :
    IsNumeral numeral.toList := by
  cases h with
  | int digits _ => exact .inl digits
  | float digits fractionDigits form => exact .inr ⟨_, _, digits, fractionDigits, form⟩

/-- A number and a semicolon are a statement. -/
theorem readProgram_number {numeral : String} {v : Number} (h : Denotes numeral v) (file : String) :
    ∃ line, readProgram (numeral ++ ";") file = .ok [.expr (.number v line) line] := by
  have hbehind : ∀ d ∈ [';'].head?, d.isDigit = false ∧ d ≠ '.' := by
    rintro d ⟨⟩
    decide
  obtain ⟨t, hkind, rfl, hnumeral⟩ := Cursor.Passes.numeral file [] h.isNumeral hbehind
  obtain ⟨z, hends, hsemicolon⟩ :
      ∃ z : Token, z.kind = .sign .semicolon ∧
        Cursor.Passes file ([] ++ t.value.toList) [';'] [] [z] :=
    Cursor.Passes.sign file _ .semicolon nofun
  have htokens : tokenize (t.value ++ ";") file =
      .ok ([t, z] ++ [.endAt (.behind file (t.value.toList ++ [';']))]) := by
    rw [tokenize, Cursor.ofText, String.toList_append]
    exact (hnumeral.append hsemicolon).scan_eq
  have hvalue : Derives Number.Read (.expr (.number v (some t.line))) [t] :=
    .ofOperand (.ofOperand (.ofOperand (.ofAtom (.number hkind h.read?))))
  have hderives : Derives Number.Read (.stmts [.expr (.number v (some t.line)) (some t.line)])
      [t, z] :=
    .moreStmts (.exprStmt hvalue hends) .noStmt
  refine ⟨some t.line, ?_⟩
  rw [readProgram, htokens]
  exact hderives.parse_eq_ok _ file

/-- A power of ten above all finite values, written out with a point. -/
def powerAbove : String :=
  "1" ++ String.ofList (List.replicate 309 '0') ++ ".0"

theorem denotes_powerAbove : Denotes powerAbove (.float (.infinite false)) := by
  have hwhole : IsDigits ('1' :: List.replicate 309 '0') :=
    ⟨List.cons_ne_nil _ _, List.forall_mem_cons.2 ⟨rfl, fun c => C.IsConstant.isDigit_of_mem_zeros⟩⟩
  have hfraction : IsDigits ['0'] := ⟨by simp, List.forall_mem_singleton.2 rfl⟩
  have htext : powerAbove.toList = '1' :: List.replicate 309 '0' ++ '.' :: ['0'] := by
    simp only [powerAbove, String.toList_append, String.toList_ofList]
    rw [show "1".toList = ['1'] from rfl, show ".0".toList = ['.', '0'] from rfl,
      List.singleton_append]
  have hinfinite : Binary64.ofDecimal false
      (Nat.ofDigitChars 10 ('1' :: List.replicate 309 '0' ++ ['0']) 0) (-(['0'].length : Int)) =
        .infinite false := by
    apply (Binary64.ofDecimal_eq_infinite_iff false _ _).2
    decide +kernel
  have hdenotes := Denotes.float hwhole hfraction htext
  rwa [hinfinite] at hdenotes

/-- A source that compiles although the text for its number is a word. -/
theorem not_isConstant_powerAbove : ∃ p t v, readProgram (powerAbove ++ ";") "main" = .ok p ∧
    typeCheck p = .ok t ∧ Stmt.numbersList t = [v] ∧
    (∀ ty, (Expr.number v ty).cText = "inf" ∧ ¬ C.IsConstant (Expr.number v ty).cText.toList) ∧
    compile (powerAbove ++ ";") "main" = .ok
      ("#include <stdio.h>\n#include <string.h>\n\nint main() \x7b\n" ++
        "    inf;\n    return 0;\n\x7d") := by
  obtain ⟨line, hread⟩ := readProgram_number denotes_powerAbove "main"
  have htext : ∀ ty, (Expr.number (.float (.infinite false)) ty).cText = "inf" := fun _ => rfl
  have hgenerate : C.generate [.expr (.number (.float (.infinite false)) .float) ()] =
      "#include <stdio.h>\n#include <string.h>\n\nint main() \x7b\n" ++
        "    inf;\n    return 0;\n\x7d" := by
    decide +kernel
  refine ⟨_, [.expr (.number (.float (.infinite false)) .float) ()], _, hread, rfl, rfl,
    fun ty => ⟨htext ty, ?_⟩, ?_⟩
  · rw [htext]
    exact C.not_isConstant_inf
  · rw [compile, hread, ← hgenerate]
    rfl

end Chalk
