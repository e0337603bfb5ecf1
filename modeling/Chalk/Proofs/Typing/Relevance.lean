import Chalk.Proofs.Typing.Frame

/-!
# Only the names that are used count

Two contexts with the same function around agree on a set of names when each of them stands for the
same thing in both (`Context.AgreeOn`); how many scopes are open, in which of them a name is defined
and what else is defined there is left free. If they agree on the names that a statement uses, the
check of the statement has the same result in both (`Stmt.check_eq_of_agreeOn`).

A check is followed from step to step by `Checker.Respects`: from contexts that agree it reaches the
same result and contexts that agree again. What a block does to the scopes is not followed: a block
leaves the context as it was (`Checker.Framed.still_block`).
-/

namespace Chalk

/-! ## The names that are used -/

namespace Expr

mutual

/-- The names that an expression uses, for a variable or for a function. -/
def uses {ν : Type} : Expr ν → List String
  | number .. | string .. | bool .. => []
  | var name _ => [name]
  | negate operand _ => operand.uses
  | binary _ left right _ => left.uses ++ right.uses
  | call callee arguments _ => callee :: usesList arguments

/-- `uses` on a list of expressions. -/
def usesList {ν : Type} : List (Expr ν) → List String
  | [] => []
  | e :: es => e.uses ++ usesList es

end

end Expr

namespace Stmt

mutual

/-- The names that a statement uses, at any depth: for a variable, for a function or as the target
of an assignment. The names that it only defines are not among them. -/
def uses {ε σ : Type} : Stmt ε σ → List String
  | declare _ value _ => value.uses
  | assign target value _ => target :: value.uses
  | branch condition thenBody elseBody _ =>
    condition.uses ++ (usesList thenBody ++ usesList elseBody)
  | loop condition body _ => condition.uses ++ usesList body
  | function _ body _ => usesList body
  | ret value _ => Expr.usesList value.toList
  | print values _ => Expr.usesList values
  | expr value _ => value.uses

/-- `uses` on a list of statements. -/
def usesList {ε σ : Type} : List (Stmt ε σ) → List String
  | [] => []
  | s :: rest => s.uses ++ usesList rest

end

end Stmt

/-! ## Scopes that agree -/

/-- Each name of the set stands for the same thing in both. -/
def Scopes.AgreeOn (X : String → Prop) (s s' : Scopes) : Prop :=
  ∀ x, X x → s.lookup? x = s'.lookup? x

namespace Scopes.AgreeOn

variable {X : String → Prop} {s s' : Scopes}

theorem mono {Y : String → Prop} (h : s.AgreeOn X s') (hYX : ∀ x, Y x → X x) : s.AgreeOn Y s' :=
  fun x hx => h x (hYX x hx)

/-- The scopes agree on what they define alike as well. -/
theorem define_or (h : s.AgreeOn X s') (name : String) (entry : Entry) :
    (s.define name entry).AgreeOn (fun x => X x ∨ x = name) (s'.define name entry) := by
  intro x hx
  rw [lookup?_define, lookup?_define]
  by_cases hname : x = name
  · rw [if_pos hname, if_pos hname]
  · rw [if_neg hname, if_neg hname]
    exact h x (hx.resolve_right hname)

theorem define (h : s.AgreeOn X s') (name : String) (entry : Entry) :
    (s.define name entry).AgreeOn X (s'.define name entry) :=
  (h.define_or name entry).mono fun _ => .inl

theorem push (h : s.AgreeOn X s') : s.push.AgreeOn X s'.push := fun x hx => by
  rw [lookup?_push, lookup?_push, h x hx]

theorem findVariable_eq (h : s.AgreeOn X s') {x : String} (hx : X x) (line : Line) :
    s.findVariable x line = s'.findVariable x line := by
  rw [findVariable, findVariable, h x hx]

theorem findFunction_eq (h : s.AgreeOn X s') {x : String} (hx : X x) (line : Line) :
    s.findFunction x line = s'.findFunction x line := by
  rw [findFunction, findFunction, h x hx]

end Scopes.AgreeOn

/-! ## Expressions -/

namespace Expr

variable {X : String → Prop} {s s' : Scopes}

mutual

theorem check_congr (h : s.AgreeOn X s') :
    ∀ e : ParsedExpr, (∀ x ∈ e.uses, X x) → e.check s = e.check s'
  | .number .., _ | .string .., _ | .bool .., _ => rfl
  | .var x line, hX => by
    rw [check, check, h.findVariable_eq (hX x (by simp [uses]))]
  | .negate e line, hX => by
    rw [check, check, check_congr h e (by simpa only [uses] using hX)]
  | .binary op l r line, hX => by
    simp only [uses, List.forall_mem_append] at hX
    rw [check, check, check_congr h l hX.1, check_congr h r hX.2]
  | .call callee es line, hX => by
    simp only [uses, List.forall_mem_cons] at hX
    rw [check, check, h.findFunction_eq hX.1]
    congr 1
    funext f
    rw [checkArguments_congr h es hX.2]

theorem checkArguments_congr (h : s.AgreeOn X s') :
    ∀ (es : List ParsedExpr) {function : String} {line : Line} {position : Nat} {tys : List Ty},
      (∀ x ∈ usesList es, X x) →
      checkArguments s function line position es tys =
        checkArguments s' function line position es tys
  | [], _, _, _, tys, _ => by cases tys <;> rfl
  | e :: es, _, _, _, [], _ => rfl
  | e :: es, _, _, _, ty :: tys, hX => by
    simp only [usesList, List.forall_mem_append] at hX
    rw [checkArguments, checkArguments, check_congr h e hX.1]
    congr 1
    funext e'
    rw [checkArguments_congr h es hX.2]

end

theorem checkAll_congr (h : s.AgreeOn X s') (es : List ParsedExpr)
    (hX : ∀ x ∈ usesList es, X x) : checkAll s es = checkAll s' es := by
  induction es with
  | nil => rfl
  | cons e es ih =>
    simp only [usesList, List.forall_mem_append] at hX
    rw [checkAll, checkAll, check_congr h e hX.1, ih hX.2]

end Expr

/-! ## Statements -/

/-- The function around is the same, and each name of the set stands for the same thing in both. -/
structure Context.AgreeOn (X : String → Prop) (c c' : Context) : Prop where
  function : c.function = c'.function
  scopes : c.scopes.AgreeOn X c'.scopes

/-- A statement defines one name at most, and the contexts behind it agree on that one too. -/
theorem Context.AgreeOn.extend {X : String → Prop} {c c' : Context} (h : c.AgreeOn X c')
    (d : Option (String × Entry)) :
    (c.extend d).AgreeOn (fun x => X x ∨ x ∈ d.map Prod.fst) (c'.extend d) := by
  cases d with
  | none =>
    refine ⟨h.function, h.scopes.mono fun x hx => ?_⟩
    simpa using hx
  | some d =>
    refine ⟨h.function, (h.scopes.define_or d.1 d.2).mono fun x hx => ?_⟩
    simpa [eq_comm] using hx

namespace Checker

variable {α β : Type} {X : String → Prop}

/-- From contexts that agree, a check reaches the same result and contexts that agree. -/
def Respects (X : String → Prop) (p : Checker α) : Prop :=
  ∀ c c', c.AgreeOn X c' → (p c).1 = (p c').1 ∧ (p c).2.AgreeOn X (p c').2

namespace Respects

theorem pure (a : α) : Respects X (Pure.pure a : Checker α) := fun _ _ h => ⟨rfl, h⟩

theorem fault (cause : SemanticError.Cause) (line : Line) :
    Respects X (Checker.fault cause line : Checker α) := fun _ _ h => ⟨rfl, h⟩

theorem look {f : Scopes → Except SemanticError α} (hf : ∀ s s', s.AgreeOn X s' → f s = f s') :
    Respects X (Checker.look f) := fun c c' h => ⟨hf c.scopes c'.scopes h.scopes, h⟩

theorem enclosing : Respects X Checker.enclosing := fun _ _ h =>
  ⟨congrArg Except.ok h.function, h⟩

theorem define (name : String) (entry : Entry) : Respects X (Checker.define name entry) :=
  fun _ _ h => ⟨rfl, h.function, h.scopes.define name entry⟩

theorem bind {p : Checker α} {f : α → Checker β} (hp : Respects X p) (hf : ∀ a, Respects X (f a)) :
    Respects X (p >>= f) := by
  intro c c' h
  obtain ⟨hresult, hafter⟩ := hp c c' h
  rw [bind_apply, bind_apply]
  generalize p c = x, p c' = y at hresult hafter ⊢
  obtain ⟨r, c₁⟩ := x
  obtain ⟨r', c₁'⟩ := y
  obtain rfl : r = r' := hresult
  cases r with
  | ok a => exact hf a c₁ c₁' hafter
  | error e => exact ⟨rfl, hafter⟩

theorem ite {P : Prop} [Decidable P] {p q : Checker α} (hp : Respects X p) (hq : Respects X q) :
    Respects X (if P then p else q) := by
  split
  · exact hp
  · exact hq

theorem defineParams (ps : List (String × Ty)) : Respects X (Checker.defineParams ps) := by
  induction ps with
  | nil => exact pure ()
  | cons p ps ih => exact (define p.1 _).bind fun _ => ih

/-- The contexts behind a block are those before it. -/
theorem block {p : Checker α} (hp : Respects X p) (hframed : p.Framed) :
    Respects X (Checker.block p) := by
  intro c c' h
  refine ⟨(hp { c with scopes := c.scopes.push } { c' with scopes := c'.scopes.push }
    ⟨h.function, h.scopes.push⟩).1, ?_⟩
  rw [hframed.still_block c, hframed.still_block c']
  exact h

theorem inside {p : Checker α} (hp : Respects X p) (f : Signature) :
    Respects X (Checker.inside f p) := by
  intro c c' h
  obtain ⟨hresult, hafter⟩ :=
    hp { c with function := some f } { c' with function := some f } ⟨rfl, h.scopes⟩
  exact ⟨hresult, h.function, hafter.scopes⟩

end Respects

end Checker

namespace Stmt

open Checker

variable {X : String → Prop}

theorem respects_look {e : ParsedExpr} (hX : ∀ x ∈ e.uses, X x) : Respects X (look e.check) :=
  Respects.look fun _ _ h => e.check_congr h hX

theorem respects_checkDeclare (target : Variable) (value : ParsedExpr) (line : Line)
    (hX : ∀ x ∈ value.uses, X x) : Respects X (checkDeclare target value line) := by
  refine (respects_look hX).bind fun value' => .ite ?_ (.fault _ _)
  exact (Respects.define _ _).bind fun _ => .pure _

theorem respects_checkAssign (name : String) (value : ParsedExpr) (line : Line)
    (hname : X name) (hX : ∀ x ∈ value.uses, X x) : Respects X (checkAssign name value line) := by
  have htarget : Respects X (look (·.findVariable name line)) :=
    Respects.look fun _ _ h => h.findVariable_eq hname line
  refine htarget.bind fun target => .ite ?_ (.fault _ _)
  exact (respects_look hX).bind fun value' => .ite (.pure _) (.fault _ _)

theorem respects_checkRet (value : Option ParsedExpr) (line : Line)
    (hX : ∀ x ∈ Expr.usesList value.toList, X x) : Respects X (checkRet value line) := by
  refine Respects.enclosing.bind fun f => ?_
  cases f with
  | none => exact .fault _ _
  | some f =>
    cases value with
    | none => exact .ite (.pure _) (.fault _ _)
    | some value =>
      refine (respects_look fun x hx => hX x ?_).bind fun value' => .ite (.pure _) (.fault _ _)
      simpa [Expr.usesList] using hx

mutual

theorem respects_check : ∀ s : ParsedStmt, (∀ x ∈ s.uses, X x) → Respects X (check s)
  | .declare target value line, hX => respects_checkDeclare target value line hX
  | .assign name value line, hX =>
    respects_checkAssign name value line (hX name (.head _)) fun x hx => hX x (.tail _ hx)
  | .branch condition thenBody elseBody line, hX => by
    simp only [uses, List.forall_mem_append] at hX
    obtain ⟨hcondition, hthen, helse⟩ := hX
    refine (respects_look hcondition).bind fun _ => ?_
    refine ((respects_checkAll thenBody hthen).block (framed_checkAll _)).bind fun _ => ?_
    exact ((respects_checkAll elseBody helse).block (framed_checkAll _)).bind fun _ => .pure _
  | .loop condition body line, hX => by
    simp only [uses, List.forall_mem_append] at hX
    refine (respects_look hX.1).bind fun _ => ?_
    exact ((respects_checkAll body hX.2).block (framed_checkAll _)).bind fun _ => .pure _
  | .function f body line, hX => by
    refine (Respects.define _ _).bind fun _ => ?_
    have hbody : Respects X (do defineParams f.params; checkAll body) :=
      (Respects.defineParams _).bind fun _ => respects_checkAll body hX
    have hframed : Framed (do defineParams f.params; checkAll body) :=
      (framed_defineParams _).bind fun _ => framed_checkAll body
    exact ((hbody.block hframed).inside f).bind fun _ => .pure _
  | .ret value line, hX => respects_checkRet value line hX
  | .print values line, hX =>
    (Respects.look fun _ _ h => Expr.checkAll_congr h values hX).bind fun _ => .pure _
  | .expr value line, hX => (respects_look hX).bind fun _ => .pure _

theorem respects_checkAll : ∀ ss : List ParsedStmt, (∀ x ∈ usesList ss, X x) →
    Respects X (checkAll ss)
  | [], _ => .pure []
  | s :: ss, hX => by
    simp only [usesList, List.forall_mem_append] at hX
    refine (respects_check s hX.1).bind fun _ => ?_
    exact (respects_checkAll ss hX.2).bind fun _ => .pure _

end

/-- If two contexts agree on a set of names that holds all those the statement uses, its check finds
the same tree or the same fault in both. Behind it they agree on these names again, and without a
fault also on the name that the statement defines. -/
theorem check_eq_of_agreeOn {s : ParsedStmt} {c c' : Context} (hX : ∀ x ∈ s.uses, X x)
    (h : c.AgreeOn X c') :
    (check s c).1 = (check s c').1 ∧
      (check s c).2.AgreeOn X (check s c').2 ∧
      ∀ t, (check s c).1 = .ok t →
        (check s c).2.AgreeOn (fun x => X x ∨ x ∈ s.definition?.map Prod.fst) (check s c').2 := by
  obtain ⟨hresult, hafter⟩ := respects_check s hX c c' h
  refine ⟨hresult, hafter, fun t ht => ?_⟩
  rw [check_snd ht, check_snd (hresult ▸ ht)]
  exact h.extend _

/-- A function with an assignment to an outer variable is checked at the top and in the third of
three scopes, among definitions that it does not use. -/
theorem check_eq_of_agreeOn_accumulate :
    let total : String × Entry := ("total", .var ⟨"total", .int, true⟩)
    let other : String × Entry := ("other", .var ⟨"other", .string, false⟩)
    let s : ParsedStmt := .function ⟨"add", [("n", .int)], .void⟩
      [.assign "total" (.binary .add (.var "total" (some 2)) (.var "n" (some 2)) (some 2)) (some 2)]
      (some 1)
    let c : Context := ⟨⟨[total], []⟩, none⟩
    let c' : Context := ⟨⟨[other], [[("add", other.2), total], [("total", other.2)]]⟩, none⟩
    (check s c).1.isOk ∧ (check s c).1 = (check s c').1 ∧
      (check s c).2.scopes.lookup? "add" = (check s c').2.scopes.lookup? "add" := by
  intro total other s c c'
  have hagree : c.AgreeOn (· ∈ s.uses) c' := by
    refine ⟨rfl, ?_⟩
    show ∀ x, x ∈ ["total", "total", "n"] → c.scopes.lookup? x = c'.scopes.lookup? x
    decide
  have hok : ∃ t, (check s c).1 = .ok t := ⟨_, rfl⟩
  obtain ⟨hresult, -, hafter⟩ := check_eq_of_agreeOn (fun _ hx => hx) hagree
  obtain ⟨t, ht⟩ := hok
  exact ⟨by rw [ht]; rfl, hresult, (hafter t ht).scopes "add" (.inr rfl)⟩

end Stmt

end Chalk
