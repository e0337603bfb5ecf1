import Chalk.Proofs.Outcome
import Chalk.Typing.Stmt

/-!
# Checking does not look at lines

When the lines of a program are changed, the fault that is found in it is the same one on the
changed line, and without a fault the result is the same (`typeCheck_map`). The checker passes lines
on and does nothing else with them, so this holds of each of its steps and is kept when steps follow
each other (`Checker.Relines.bind`).
-/

namespace Chalk

/-- The same fault with its line changed. -/
def SemanticError.mapLine (f : Line → Line) (e : SemanticError) : SemanticError :=
  { e with line := f e.line }

/-! ## Expressions -/

namespace Scopes

variable (f : Line → Line) (s : Scopes) (x : String) (line : Line)

theorem findVariable_mapLine :
    s.findVariable x (f line) = (s.findVariable x line).mapError (·.mapLine f) := by
  unfold findVariable
  cases s.lookup? x with
  | none => rfl
  | some entry => cases entry <;> rfl

theorem findFunction_mapLine :
    s.findFunction x (f line) = (s.findFunction x line).mapError (·.mapLine f) := by
  unfold findFunction
  cases s.lookup? x with
  | none => rfl
  | some entry => cases entry <;> rfl

end Scopes

namespace Expr

variable (f : Line → Line) (s : Scopes)

theorem length_mapList {ν μ : Type} (g : ν → μ) (es : List (Expr ν)) :
    (mapList g es).length = es.length := by
  rw [mapList_eq, List.length_map]

mutual

theorem check_map : ∀ e : ParsedExpr, (e.map f).check s = (e.check s).mapError (·.mapLine f)
  | .number .. | .string .. | .bool .. => rfl
  | .var x line => by
    rw [map, check, check, mapError_bind, Scopes.findVariable_mapLine]
    rfl
  | .negate e line => by
    rw [map, check, check, mapError_bind, check_map e]
    congr 1
    funext e'
    split <;> rfl
  | .binary op l r line => by
    rw [map, check, check, mapError_bind, check_map l]
    congr 1
    funext l'
    rw [mapError_bind, check_map r]
    congr 1
    funext r'
    split <;> rfl
  | .call callee es line => by
    rw [map, check, check, mapError_bind, Scopes.findFunction_mapLine]
    congr 1
    funext g
    rw [length_mapList]
    split
    · rw [mapError_bind, checkArguments_map es]
      rfl
    · rfl

theorem checkArguments_map : ∀ (es : List ParsedExpr) {function : String} {line : Line}
    {position : Nat} {tys : List Ty},
    checkArguments s function (f line) position (mapList f es) tys =
      (checkArguments s function line position es tys).mapError (·.mapLine f)
  | [], _, _, _, tys => by cases tys <;> rfl
  | e :: es, _, _, _, [] => rfl
  | e :: es, _, _, _, ty :: tys => by
    rw [mapList, checkArguments, checkArguments, mapError_bind, check_map e]
    congr 1
    funext e'
    split
    · rw [mapError_bind, checkArguments_map es]
      rfl
    · rfl

end

theorem checkAll_map (es : List ParsedExpr) :
    checkAll s (es.map (map f)) = (checkAll s es).mapError (·.mapLine f) := by
  induction es with
  | nil => rfl
  | cons e es ih =>
    rw [List.map_cons, checkAll, checkAll, mapError_bind, check_map]
    congr 1
    funext e'
    rw [mapError_bind, ih]
    rfl

end Expr

/-! ## Statements -/

namespace Checker

variable {α β : Type} {f : Line → Line}

/-- The check `q` is the check `p` with the line of its fault changed. -/
def Relines (f : Line → Line) (p q : Checker α) : Prop :=
  ∀ c, q c = ((p c).1.mapError (·.mapLine f), (p c).2)

namespace Relines

theorem pure (a : α) : Relines f (Pure.pure a) (Pure.pure a) := fun _ => rfl

theorem fault (cause : SemanticError.Cause) (line : Line) :
    Relines f (Checker.fault cause line : Checker α) (Checker.fault cause (f line)) := fun _ => rfl

theorem look {g g' : Scopes → Except SemanticError α}
    (h : ∀ s, g' s = (g s).mapError (·.mapLine f)) : Relines f (Checker.look g) (Checker.look g') :=
  fun c => by rw [Checker.look, h, Checker.look]

theorem enclosing : Relines f Checker.enclosing Checker.enclosing := fun _ => rfl

theorem define (name : String) (entry : Entry) :
    Relines f (Checker.define name entry) (Checker.define name entry) := fun _ => rfl

theorem bind {p q : Checker α} {g g' : α → Checker β} (h : Relines f p q)
    (hg : ∀ a, Relines f (g a) (g' a)) : Relines f (p >>= g) (q >>= g') := by
  intro c
  rw [bind_apply, bind_apply, h c]
  match p c with
  | (.ok a, c') => exact hg a c'
  | (.error e, c') => rfl

theorem ite {b : Prop} [Decidable b] {p q p' q' : Checker α} (h : Relines f p q)
    (h' : Relines f p' q') : Relines f (if b then p else p') (if b then q else q') := by
  split
  · exact h
  · exact h'

theorem block {p q : Checker α} (h : Relines f p q) :
    Relines f (Checker.block p) (Checker.block q) := by
  intro c
  simp only [Checker.block, h _]

theorem inside {p q : Checker α} (h : Relines f p q) (signature : Signature) :
    Relines f (Checker.inside signature p) (Checker.inside signature q) := by
  intro c
  simp only [Checker.inside, h _]

theorem defineParams (ps : List (String × Ty)) :
    Relines f (Checker.defineParams ps) (Checker.defineParams ps) := by
  induction ps with
  | nil => exact .pure ()
  | cons p ps ih => exact (define p.1 _).bind fun _ => ih

end Relines

end Checker

namespace Stmt

open Checker

variable (f : Line → Line)

theorem checkDeclare_map (target : Variable) (value : ParsedExpr) (line : Line) :
    Relines f (checkDeclare target value line) (checkDeclare target (value.map f) (f line)) :=
  (Relines.look fun s => Expr.check_map f s value).bind fun _ =>
    .ite ((Relines.define _ _).bind fun _ => .pure _) (.fault _ _)

theorem checkAssign_map (name : String) (value : ParsedExpr) (line : Line) :
    Relines f (checkAssign name value line) (checkAssign name (value.map f) (f line)) :=
  (Relines.look fun s => s.findVariable_mapLine f name line).bind fun _ =>
    .ite ((Relines.look fun s => Expr.check_map f s value).bind fun _ =>
      .ite (.pure _) (.fault _ _)) (.fault _ _)

theorem checkRet_map (value : Option ParsedExpr) (line : Line) :
    Relines f (checkRet value line) (checkRet (value.map (Expr.map f)) (f line)) := by
  refine Relines.enclosing.bind fun signature => ?_
  cases signature with
  | none => exact .fault _ _
  | some signature =>
    cases value with
    | none => exact .ite (.pure _) (.fault _ _)
    | some value =>
      exact (Relines.look fun s => Expr.check_map f s value).bind
        fun _ => .ite (.pure _) (.fault _ _)

mutual

theorem check_map : ∀ s : ParsedStmt, Relines f (check s) (check (s.map f f))
  | .declare target value line => checkDeclare_map f target value line
  | .assign target value line => checkAssign_map f target value line
  | .branch condition thenBody elseBody _ =>
    (Relines.look fun s => Expr.check_map f s condition).bind fun _ =>
      (checkAll_map thenBody).block.bind fun _ => (checkAll_map elseBody).block.bind fun _ =>
        .pure _
  | .loop condition body _ =>
    (Relines.look fun s => Expr.check_map f s condition).bind fun _ =>
      (checkAll_map body).block.bind fun _ => .pure _
  | .function signature body _ =>
    (Relines.define _ _).bind fun _ =>
      (((Relines.defineParams _).bind fun _ => checkAll_map body).block.inside signature).bind
        fun _ => .pure _
  | .ret value line => checkRet_map f value line
  | .print values _ =>
    (Relines.look fun s => Expr.checkAll_map f s values).bind fun _ => .pure _
  | .expr value _ =>
    (Relines.look fun s => Expr.check_map f s value).bind fun _ => .pure _

theorem checkAll_map : ∀ ss : List ParsedStmt, Relines f (checkAll ss) (checkAll (mapList f f ss))
  | [] => .pure []
  | s :: ss => (check_map s).bind fun _ => (checkAll_map ss).bind fun _ => .pure _

end

end Stmt

theorem typeCheck_map (f : Line → Line) (p : List ParsedStmt) :
    typeCheck (p.map (Stmt.map f f)) = (typeCheck p).mapError (·.mapLine f) := by
  rw [typeCheck, ← Stmt.mapList_eq, Stmt.checkAll_map f p]
  rfl

end Chalk
