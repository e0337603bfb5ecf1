import Chalk.Proofs.Compile.Numbers

/-!
# What the C text relies on

When a tree is written out in C nothing about it is checked. That its names can stand in the text as
they are, that its integers are in range and that there is something to print goes back to the
tokens, and each node has its line from one of them: all this holds at every depth of a tree that
was read from a source, and a check of the types keeps what the text relies on
(`wellFormed_of_parse`).
-/

namespace Chalk

/-! ## Well-formed trees -/

/-- Integers are written without a sign, and they are at most `2 ^ 63 - 1`. -/
def Number.InRange : Number → Prop
  | int v => 0 ≤ v ∧ v ≤ 2 ^ 63 - 1
  | float _ => True

/-- An expression in which all names are names of the language and all numbers are in range, and
`Noted` holds of the notes. -/
inductive Expr.WellFormed {ν : Type} (Noted : ν → Prop) : Expr ν → Prop
  | number {v : Number} {n : ν} (range : v.InRange) (note : Noted n) :
      WellFormed Noted (.number v n)
  | string {bytes : List UInt8} {n : ν} (note : Noted n) : WellFormed Noted (.string bytes n)
  | bool {b : Bool} {n : ν} (note : Noted n) : WellFormed Noted (.bool b n)
  | var {x : String} {n : ν} (name : IsName x) (note : Noted n) : WellFormed Noted (.var x n)
  | negate {e : Expr ν} {n : ν} (operand : WellFormed Noted e) (note : Noted n) :
      WellFormed Noted (.negate e n)
  | binary {op : Operator} {l r : Expr ν} {n : ν} (left : WellFormed Noted l)
      (right : WellFormed Noted r) (note : Noted n) : WellFormed Noted (.binary op l r n)
  | call {f : String} {es : List (Expr ν)} {n : ν} (name : IsName f)
      (arguments : ∀ e ∈ es, WellFormed Noted e) (note : Noted n) :
      WellFormed Noted (.call f es n)

/-- A statement in which all expressions are well-formed, all names are names of the language and
there is always something to print, and `Noted` holds of the notes. -/
inductive Stmt.WellFormed {ε σ : Type} (ExprNoted : ε → Prop) (Noted : σ → Prop) :
    Stmt ε σ → Prop
  | declare {v : Variable} {e : Expr ε} {n : σ} (name : IsName v.name)
      (value : e.WellFormed ExprNoted) (note : Noted n) :
      WellFormed ExprNoted Noted (.declare v e n)
  | assign {x : String} {e : Expr ε} {n : σ} (name : IsName x) (value : e.WellFormed ExprNoted)
      (note : Noted n) : WellFormed ExprNoted Noted (.assign x e n)
  | branch {e : Expr ε} {a b : List (Stmt ε σ)} {n : σ} (condition : e.WellFormed ExprNoted)
      (thenBody : ∀ s ∈ a, WellFormed ExprNoted Noted s)
      (elseBody : ∀ s ∈ b, WellFormed ExprNoted Noted s) (note : Noted n) :
      WellFormed ExprNoted Noted (.branch e a b n)
  | loop {e : Expr ε} {a : List (Stmt ε σ)} {n : σ} (condition : e.WellFormed ExprNoted)
      (body : ∀ s ∈ a, WellFormed ExprNoted Noted s) (note : Noted n) :
      WellFormed ExprNoted Noted (.loop e a n)
  | function {f : Signature} {a : List (Stmt ε σ)} {n : σ} (name : IsName f.name)
      (params : ∀ p ∈ f.params, IsName p.1) (body : ∀ s ∈ a, WellFormed ExprNoted Noted s)
      (note : Noted n) : WellFormed ExprNoted Noted (.function f a n)
  | ret {value : Option (Expr ε)} {n : σ} (result : ∀ e ∈ value, e.WellFormed ExprNoted)
      (note : Noted n) : WellFormed ExprNoted Noted (.ret value n)
  | print {es : List (Expr ε)} {n : σ} (nonempty : es ≠ [])
      (values : ∀ e ∈ es, e.WellFormed ExprNoted) (note : Noted n) :
      WellFormed ExprNoted Noted (.print es n)
  | expr {e : Expr ε} {n : σ} (value : e.WellFormed ExprNoted) (note : Noted n) :
      WellFormed ExprNoted Noted (.expr e n)

theorem Expr.WellFormed.noted {ν : Type} {Noted : ν → Prop} {e : Expr ν}
    (h : e.WellFormed Noted) : Noted e.note := by
  cases h <;> assumption

/-! ## Trees that tokens make up -/

/-- What a token has to be for the tree to be well-formed. -/
structure Token.Fit (reads : String → Number → Prop) (Noted : Line → Prop) (t : Token) : Prop where
  name : t.kind = .identifier → IsName t.value
  range : t.kind = .number → ∀ v, reads t.value v → v.InRange
  line : Noted (some t.line)

/-- The tree of a phrase is well-formed. -/
def Phrase.WellFormed (Noted : Line → Prop) : Phrase → Prop
  | chain _ e | unary e | atom e => e.WellFormed Noted
  | callee f line => IsName f ∧ Noted line
  | arguments es => ∀ e ∈ es, e.WellFormed Noted
  | params ps => ∀ p ∈ ps, IsName p.1
  | returns _ => True
  | stmt s | branch s => s.WellFormed Noted Noted
  | otherwise body | block body | stmts body => ∀ s ∈ body, s.WellFormed Noted Noted

theorem Phrase.wellFormed_operand {Noted : Line → Prop} {p : Power} {e : ParsedExpr} :
    (operand p e).WellFormed Noted ↔ e.WellFormed Noted := by
  cases p <;> rfl

/-- Every rule of the grammar builds a well-formed tree from well-formed parts and fit tokens. -/
theorem Derives.wellFormed {reads : String → Number → Prop} {Noted : Line → Prop} {φ : Phrase}
    {ts : List Token} (h : Derives reads φ ts) (hfit : ∀ t ∈ ts, t.Fit reads Noted) :
    φ.WellFormed Noted := by
  induction h with
  | number kind value =>
    have ht := List.forall_mem_singleton.1 hfit
    exact .number (ht.range kind _ value) ht.line
  | string => exact .string (List.forall_mem_singleton.1 hfit).line
  | bool => exact .bool (List.forall_mem_singleton.1 hfit).line
  | var kind =>
    have ht := List.forall_mem_singleton.1 hfit
    exact .var (ht.name kind) ht.line
  | name kind =>
    have ht := List.forall_mem_singleton.1 hfit
    exact ⟨ht.name kind, ht.line⟩
  | group _ _ _ ih | parens _ _ _ ih | block _ _ _ ih =>
    simp only [List.forall_mem_append, List.forall_mem_cons] at hfit
    exact ih hfit.2.1
  | negate _ _ ih =>
    obtain ⟨hdash, hoperand⟩ := List.forall_mem_cons.1 hfit
    exact .negate (ih hoperand) hdash.line
  | ofAtom _ ih | ofBranch _ ih => exact ih hfit
  | call _ _ _ _ ihcallee iharguments =>
    simp only [List.forall_mem_append, List.forall_mem_cons] at hfit
    obtain ⟨hcallee, -, harguments, -⟩ := hfit
    obtain ⟨hname, hline⟩ := ihcallee hcallee
    exact .call hname (iharguments harguments) hline
  | ofOperand _ ih => exact Phrase.wellFormed_operand.1 (ih hfit)
  | operation _ _ _ ihl ihr =>
    simp only [List.forall_mem_append, List.forall_mem_cons] at hfit
    obtain ⟨hleft, -, hright⟩ := hfit
    have hl : Expr.WellFormed Noted _ := ihl hleft
    exact .binary hl (Phrase.wellFormed_operand.1 (ihr hright)) hl.noted
  | noArgument | noParam | noElse | noStmt => exact List.forall_mem_nil _
  | noReturns | someReturns => trivial
  | lastArgument _ ih => exact List.forall_mem_singleton.2 (ih hfit)
  | moreArguments _ _ _ ih ihs =>
    simp only [List.forall_mem_append, List.forall_mem_cons] at hfit
    obtain ⟨hfirst, -, hrest⟩ := hfit
    exact List.forall_mem_cons.2 ⟨ih hfirst, ihs hrest⟩
  | lastParam name =>
    exact List.forall_mem_singleton.2 ((List.forall_mem_cons.1 hfit).1.name name)
  | moreParams name _ _ _ _ ih =>
    simp only [List.forall_mem_cons] at hfit
    obtain ⟨hname, -, -, -, hrest⟩ := hfit
    exact List.forall_mem_cons.2 ⟨hname.name name, ih hrest⟩
  | declare _ name _ _ _ _ _ ih =>
    simp only [List.forall_mem_append, List.forall_mem_cons] at hfit
    obtain ⟨hkeyword, hname, -, -, -, hvalue, -⟩ := hfit
    exact .declare (hname.name name) (ih hvalue) hkeyword.line
  | assign name _ _ _ ih =>
    simp only [List.forall_mem_append, List.forall_mem_cons] at hfit
    obtain ⟨hname, -, hvalue, -⟩ := hfit
    exact .assign (hname.name name) (ih hvalue) hname.line
  | loop _ _ _ ih ihbody =>
    simp only [List.forall_mem_append, List.forall_mem_cons] at hfit
    obtain ⟨hkeyword, hcondition, hbody⟩ := hfit
    exact .loop (ih hcondition) (ihbody hbody) hkeyword.line
  | function _ name _ _ _ _ _ ihparams _ ihbody =>
    simp only [List.forall_mem_append, List.forall_mem_cons] at hfit
    obtain ⟨hkeyword, hname, -, hparams, -, -, hbody⟩ := hfit
    exact .function (hname.name name) (ihparams hparams) (ihbody hbody) hkeyword.line
  | retNone => exact .ret (by simp) (List.forall_mem_cons.1 hfit).1.line
  | retSome _ _ _ ih =>
    simp only [List.forall_mem_append, List.forall_mem_cons] at hfit
    obtain ⟨hkeyword, hvalue, -⟩ := hfit
    exact .ret (fun e he => Option.some.inj he ▸ ih hvalue) hkeyword.line
  | print _ _ _ nonempty _ _ ih =>
    simp only [List.forall_mem_append, List.forall_mem_cons] at hfit
    obtain ⟨hkeyword, -, hvalues, -⟩ := hfit
    exact .print nonempty (ih hvalues) hkeyword.line
  | exprStmt _ _ ih =>
    simp only [List.forall_mem_append, List.forall_mem_cons] at hfit
    obtain ⟨hfirst, hrest, -⟩ := hfit
    exact .expr (ih (List.forall_mem_cons.2 ⟨hfirst, hrest⟩)) hfirst.line
  | branch _ _ _ _ ih ihbody ihother =>
    simp only [List.forall_mem_append, List.forall_mem_cons] at hfit
    obtain ⟨hkeyword, hcondition, hbody, hother⟩ := hfit
    exact .branch (ih hcondition) (ihbody hbody) (ihother hother) hkeyword.line
  | elseBranch _ _ ih =>
    exact List.forall_mem_singleton.2 (ih (List.forall_mem_cons.1 hfit).2)
  | elseBlock _ _ ih => exact ih (List.forall_mem_cons.1 hfit).2
  | moreStmts _ _ ih ihs =>
    obtain ⟨hfirst, hrest⟩ := List.forall_mem_append.1 hfit
    exact List.forall_mem_cons.2 ⟨ih hfirst, ihs hrest⟩

/-! ## Trees that are checked -/

mutual

/-- A check of the types changes no part of an expression but its notes. -/
theorem Typed.wellFormed {Γ : Env} {Noted : Line → Prop} {e : ParsedExpr} {ty : Ty}
    {e' : TypedExpr} :
    Typed Γ e ty e' → e.WellFormed Noted → e'.WellFormed (fun _ => True)
  | .number, .number range _ => .number range trivial
  | .string, .string _ => .string trivial
  | .bool, .bool _ => .bool trivial
  | .var _, .var name _ => .var name trivial
  | .negate operand _, .negate hoperand _ => .negate (operand.wellFormed hoperand) trivial
  | .comparison _ left right, .binary hleft hright _ =>
    .binary (left.wellFormed hleft) (right.wellFormed hright) trivial
  | .arithmetic _ left right, .binary hleft hright _ =>
    .binary (left.wellFormed hleft) (right.wellFormed hright) trivial
  | .call _ arguments, .call name harguments _ =>
    .call name (arguments.wellFormed harguments) trivial

theorem TypedAll.wellFormed {Γ : Env} {Noted : Line → Prop} {es : List ParsedExpr}
    {tys : List Ty} {es' : List TypedExpr} : TypedAll Γ es tys es' →
      (∀ e ∈ es, e.WellFormed Noted) → ∀ e ∈ es', e.WellFormed (fun _ => True)
  | .nil, _ => List.forall_mem_nil _
  | .cons first rest, hes =>
    have ⟨hfirst, hrest⟩ := List.forall_mem_cons.1 hes
    List.forall_mem_cons.2 ⟨first.wellFormed hfirst, rest.wellFormed hrest⟩

end

theorem TypedAll.ne_nil {Γ : Env} {es : List ParsedExpr} {tys : List Ty} {es' : List TypedExpr}
    (h : TypedAll Γ es tys es') (hne : es ≠ []) : es' ≠ [] := by
  cases h with
  | nil => exact absurd rfl hne
  | cons => exact List.cons_ne_nil _ _

/-- Statements that obey the rules of the types stay well-formed. -/
theorem WellTyped.wellFormed {ρ : Option Ty} {Γ : Env} {Noted : Line → Prop}
    {ss : List ParsedStmt} {ts : List TypedStmt} (h : WellTyped ρ Γ ss ts)
    (hss : ∀ s ∈ ss, s.WellFormed Noted Noted) :
    ∀ t ∈ ts, t.WellFormed (fun _ => True) (fun _ => True) := by
  induction h with
  | nil => exact List.forall_mem_nil _
  | declare value _ ih =>
    rw [List.forall_mem_cons] at hss ⊢
    cases hss.1 with
    | declare name hvalue => exact ⟨.declare name (value.wellFormed hvalue) trivial, ih hss.2⟩
  | assign _ value _ ih =>
    rw [List.forall_mem_cons] at hss ⊢
    cases hss.1 with
    | assign name hvalue => exact ⟨.assign name (value.wellFormed hvalue) trivial, ih hss.2⟩
  | branch condition _ _ _ iha ihb ih =>
    rw [List.forall_mem_cons] at hss ⊢
    cases hss.1 with
    | branch hcondition ha hb =>
      exact ⟨.branch (condition.wellFormed hcondition) (iha ha) (ihb hb) trivial, ih hss.2⟩
  | loop condition _ _ iha ih =>
    rw [List.forall_mem_cons] at hss ⊢
    cases hss.1 with
    | loop hcondition ha =>
      exact ⟨.loop (condition.wellFormed hcondition) (iha ha) trivial, ih hss.2⟩
  | function _ _ iha ih =>
    rw [List.forall_mem_cons] at hss ⊢
    cases hss.1 with
    | function name params ha => exact ⟨.function name params (iha ha) trivial, ih hss.2⟩
  | retSome _ value _ ih =>
    rw [List.forall_mem_cons] at hss ⊢
    cases hss.1 with
    | ret hvalue =>
      have htyped := value.wellFormed (hvalue _ rfl)
      exact ⟨.ret (fun e he => Option.some.inj he ▸ htyped) trivial, ih hss.2⟩
  | retNone _ _ ih =>
    rw [List.forall_mem_cons] at hss ⊢
    exact ⟨.ret (by simp) trivial, ih hss.2⟩
  | print values _ ih =>
    rw [List.forall_mem_cons] at hss ⊢
    cases hss.1 with
    | print nonempty hvalues =>
      exact ⟨.print (values.ne_nil nonempty) (values.wellFormed hvalues) trivial, ih hss.2⟩
  | expr value _ ih =>
    rw [List.forall_mem_cons] at hss ⊢
    cases hss.1 with
    | expr hvalue => exact ⟨.expr (value.wellFormed hvalue) trivial, ih hss.2⟩

/-! ## Trees that are read from a source -/

/-- A line on which one of the tokens begins, other than the end. -/
def IsLineOf (ts : List Token) (line : Line) : Prop :=
  ∃ t ∈ ts, t.kind ≠ .eof ∧ line = some t.line

theorem Denotes.inRange {text : String} {v : Number} (h : Denotes text v) : v.InRange := by
  cases h with
  | int digits fits =>
    refine ⟨Int.natCast_nonneg _, ?_⟩
    omega
  | float => trivial

/-- Each token of a source but the end is fit for a tree. -/
theorem fit_of_tokenize {source file : String} {ts : List Token}
    (h : tokenize source file = .ok ts) :
    ∀ t ∈ ts, t.kind ≠ .eof → t.Fit Number.Read (IsLineOf ts) := by
  intro t ht hkind
  refine ⟨isName_of_tokenize h t ht, fun hnumber v hread => ?_, t, ht, hkind, rfl⟩
  have hdenotes : Denotes t.value v := .of_read? (isNumeral_of_tokenize h t ht hnumber) hread
  exact hdenotes.inRange

/-- In a tree that was read from a source, at every depth, all names are names of the language, all
integers are in range, there is always something to print, and each node has the line of one of the
tokens. When the types are checked, the first three are kept. -/
theorem wellFormed_of_parse {source file : String} {ts : List Token} {p : Program}
    (htokens : tokenize source file = .ok ts) (hparse : parse ts file = .ok p) :
    (∀ s ∈ p, s.WellFormed (IsLineOf ts) (IsLineOf ts)) ∧
      ∀ typed, typeCheck p = .ok typed →
        ∀ s ∈ typed, s.WellFormed (fun _ => True) (fun _ => True) := by
  have hread : ∀ s ∈ p, s.WellFormed (IsLineOf ts) (IsLineOf ts) := by
    obtain ⟨pieces, hts, -⟩ := exists_pieces_of_tokenize htokens
    have hends : (Stream.ofTokens ts file).tokens = ts := by
      rw [hts]
      exact Stream.tokens_ofTokens_of_end ..
    obtain ⟨us, hderives, hus⟩ := exists_derives_of_parse hends hparse
    exact hderives.wellFormed fun t ht => fit_of_tokenize htokens t (hus t ht).1 (hus t ht).2
  refine ⟨hread, fun typed hcheck => ?_⟩
  have hwell : WellTyped none .empty p typed := (Stmt.checkAll_iff p).1 hcheck
  exact hwell.wellFormed hread

/-- A call in parentheses inside of a loop in a function, on several lines. -/
def nestedCall : String :=
  "fn f(x: int) -> int \x7b\n  while x < 9 \x7b print(\n-x, (f)(x)); \x7d\n  return 0;\n\x7d"

theorem wellFormed_nestedCall : ∃ ts p typed, tokenize nestedCall "main" = .ok ts ∧
    parse ts "main" = .ok p ∧ typeCheck p = .ok typed ∧
    (∀ s ∈ p, s.WellFormed (IsLineOf ts) (IsLineOf ts)) ∧
    ∀ s ∈ typed, s.WellFormed (fun _ => True) (fun _ => True) := by
  have hok : (compile nestedCall "main").isOk = true := by decide +kernel
  cases h : compile nestedCall "main" with
  | error e =>
    rw [h] at hok
    cases hok
  | ok text =>
    obtain ⟨ts, p, typed, htokens, hparse, hcheck, -⟩ := exists_stages_of_compile h
    obtain ⟨hread, htyped⟩ := wellFormed_of_parse htokens hparse
    exact ⟨ts, p, typed, htokens, hparse, hcheck, hread, htyped typed hcheck⟩

end Chalk
