import Chalk.Typing.Stmt

/-!
# What checking leaves unchanged

Whatever it finds, a check of statements leaves the outer scopes and the function around them as
they were (`Checker.Framed`): only the innermost scope can grow. So a check in a scope of its own
leaves the whole context as it was (`Checker.Still`), and a statement without fault leaves the
context it was checked in, with the name that it defines if it defines one (`Stmt.check_snd`).
-/

namespace Chalk

namespace Checker

variable {α β : Type}

/-- A check that leaves the context as it was. -/
def Still (p : Checker α) : Prop :=
  ∀ c, (p c).2 = c

/-- A check that leaves all but the innermost scope as it was. -/
def Framed (p : Checker α) : Prop :=
  ∀ c, (p c).2.scopes.outer = c.scopes.outer ∧ (p c).2.function = c.function

theorem Still.framed {p : Checker α} (h : p.Still) : p.Framed := by
  intro c
  rw [h c]
  exact ⟨rfl, rfl⟩

theorem still_pure (a : α) : (pure a : Checker α).Still := fun _ => rfl

theorem still_fault (cause : SemanticError.Cause) (line : Line) :
    (fault cause line : Checker α).Still := fun _ => rfl

theorem still_look (f : Scopes → Except SemanticError α) : (look f).Still := fun _ => rfl

theorem still_enclosing : enclosing.Still := fun _ => rfl

theorem Still.bind {p : Checker α} {f : α → Checker β} (hp : p.Still) (hf : ∀ a, (f a).Still) :
    (p >>= f).Still := by
  intro c
  have hc := hp c
  rw [bind_apply]
  match p c, hc with
  | (.ok a, _), rfl => exact hf a _
  | (.error e, _), rfl => rfl

theorem framed_define (name : String) (entry : Entry) : (define name entry).Framed := fun _ =>
  ⟨rfl, rfl⟩

theorem Framed.bind {p : Checker α} {f : α → Checker β} (hp : p.Framed) (hf : ∀ a, (f a).Framed) :
    (p >>= f).Framed := by
  intro c
  obtain ⟨houter, hfunction⟩ := hp c
  rw [bind_apply]
  match p c, houter, hfunction with
  | (.ok a, c'), houter, hfunction =>
    exact ⟨(hf a c').1.trans houter, (hf a c').2.trans hfunction⟩
  | (.error e, c'), houter, hfunction => exact ⟨houter, hfunction⟩

/-- The scopes that are left open are the outer ones of the scope that is closed. -/
theorem Framed.still_block {p : Checker α} (hp : p.Framed) : (block p).Still := by
  intro c
  obtain ⟨houter, hfunction⟩ := hp { c with scopes := c.scopes.push }
  simp only [block, Scopes.pop, houter, hfunction]
  rfl

theorem Still.inside {p : Checker α} (hp : p.Still) (f : Signature) : (inside f p).Still := by
  intro c
  simp only [Checker.inside, hp _]

theorem framed_defineParams (ps : List (String × Ty)) : (defineParams ps).Framed := by
  induction ps with
  | nil => exact (still_pure ()).framed
  | cons p ps ih => exact (framed_define p.1 _).bind fun _ => ih

end Checker

/-- The name that a statement defines for those behind it. -/
def Stmt.definition? : ParsedStmt → Option (String × Entry)
  | .declare target _ _ => some (target.name, .var target)
  | .function signature _ _ => some (signature.name, .fn signature)
  | _ => none

/-- The name that a statement has defined when its check is over, with the given result. A function
is defined before its body is looked at, a variable only behind its declaration. -/
def Stmt.defined? : ParsedStmt → Except SemanticError TypedStmt → Option (String × Entry)
  | .declare target _ _, .ok _ => some (target.name, .var target)
  | .function signature _ _, _ => some (signature.name, .fn signature)
  | _, _ => none

/-- The context behind a statement that may define a name. -/
def Context.extend (c : Context) : Option (String × Entry) → Context
  | some (name, entry) => c.define name entry
  | none => c

theorem Scopes.lookup_inner_define (s : Scopes) (x y : String) (entry : Entry) :
    (s.define x entry).inner.lookup y = if y = x then some entry else s.inner.lookup y := by
  rw [define, List.lookup_cons]
  by_cases h : y = x
  · rw [if_pos h, beq_iff_eq.2 h]
  · rw [if_neg h, beq_eq_false_iff_ne.2 h]

namespace Stmt

open Checker

theorem framed_checkDeclare (target : Variable) (value : ParsedExpr) (line : Line) :
    (checkDeclare target value line).Framed := by
  refine (still_look _).framed.bind fun value' => ?_
  split
  · exact (framed_define _ _).bind fun _ => (still_pure _).framed
  · exact (still_fault _ _).framed

theorem still_checkAssign (name : String) (value : ParsedExpr) (line : Line) :
    (checkAssign name value line).Still := by
  refine (still_look _).bind fun target => ?_
  split
  · refine (still_look _).bind fun value' => ?_
    split
    · exact still_pure _
    · exact still_fault _ _
  · exact still_fault _ _

theorem still_checkRet (value : Option ParsedExpr) (line : Line) : (checkRet value line).Still := by
  refine still_enclosing.bind fun f => ?_
  cases f with
  | none => exact still_fault .returnOutsideFunction line
  | some f =>
    cases value with
    | some value =>
      refine (still_look _).bind fun value' => ?_
      split
      · exact still_pure _
      · exact still_fault _ _
    | none =>
      dsimp only
      split
      · exact still_pure _
      · exact still_fault _ _

theorem still_branch {thenBody elseBody : List ParsedStmt} (hthen : (checkAll thenBody).Framed)
    (helse : (checkAll elseBody).Framed) (condition : ParsedExpr) (line : Line) :
    (check (.branch condition thenBody elseBody line)).Still :=
  (still_look _).bind fun _ => hthen.still_block.bind fun _ => helse.still_block.bind fun _ =>
    still_pure _

theorem still_loop {body : List ParsedStmt} (hbody : (checkAll body).Framed)
    (condition : ParsedExpr) (line : Line) : (check (.loop condition body line)).Still :=
  (still_look _).bind fun _ => hbody.still_block.bind fun _ => still_pure _

theorem still_print (values : List ParsedExpr) (line : Line) : (check (.print values line)).Still :=
  (still_look _).bind fun _ => still_pure _

theorem still_expr (value : ParsedExpr) (line : Line) : (check (.expr value line)).Still :=
  (still_look _).bind fun _ => still_pure _

/-- Behind the name of a function, its body changes nothing. -/
theorem check_function_snd {body : List ParsedStmt} (hbody : (checkAll body).Framed)
    (f : Signature) (line : Line) (c : Context) :
    (check (.function f body line) c).2 = c.define f.name (.fn f) := by
  have hinside : (inside f (block do defineParams f.params; checkAll body)).Still :=
    ((framed_defineParams _).bind fun _ => hbody).still_block.inside f
  exact (hinside.bind fun _ => still_pure _) (c.define f.name (.fn f))

mutual

theorem framed_check : ∀ s : ParsedStmt, (check s).Framed
  | .declare target value line => framed_checkDeclare target value line
  | .assign name value line => (still_checkAssign name value line).framed
  | .branch condition thenBody elseBody line =>
    (still_branch (framed_checkAll thenBody) (framed_checkAll elseBody) condition line).framed
  | .loop condition body line => (still_loop (framed_checkAll body) condition line).framed
  | .function f body line => fun c => by
    rw [check_function_snd (framed_checkAll body)]
    exact ⟨rfl, rfl⟩
  | .ret value line => (still_checkRet value line).framed
  | .print values line => (still_print values line).framed
  | .expr value line => (still_expr value line).framed

theorem framed_checkAll : ∀ ss : List ParsedStmt, (checkAll ss).Framed
  | [] => (still_pure []).framed
  | s :: ss =>
    (framed_check s).bind fun _ => (framed_checkAll ss).bind fun _ => (still_pure _).framed

end

theorem checkDeclare_snd (target : Variable) (value : ParsedExpr) (line : Line) (c : Context) :
    (checkDeclare target value line c).2 =
      c.extend (defined? (.declare target value line) (checkDeclare target value line c).1) := by
  simp only [checkDeclare, bind_apply, look]
  cases value.check c.scopes with
  | error e => rfl
  | ok value' =>
    dsimp only
    split
    · rfl
    · rfl

/-- A statement has defined its name and done nothing else. -/
theorem check_snd_eq (s : ParsedStmt) (c : Context) :
    (check s c).2 = c.extend (s.defined? (check s c).1) := by
  cases s with
  | declare target value line => exact checkDeclare_snd target value line c
  | assign name value line => exact still_checkAssign name value line c
  | branch condition thenBody elseBody line =>
    exact still_branch (framed_checkAll thenBody) (framed_checkAll elseBody) condition line c
  | loop condition body line => exact still_loop (framed_checkAll body) condition line c
  | function f body line => exact check_function_snd (framed_checkAll body) f line c
  | ret value line => exact still_checkRet value line c
  | print values line => exact still_print values line c
  | expr value line => exact still_expr value line c

/-- Behind a statement without fault its name is defined. -/
theorem check_snd {s : ParsedStmt} {t : TypedStmt} {c : Context} (h : (check s c).1 = .ok t) :
    (check s c).2 = c.extend s.definition? := by
  rw [check_snd_eq, h]
  cases s with
  | _ => rfl

/-- Whatever it finds, the check of an expression leaves the whole context as it was, and the check
of a statement the function around it and all scopes but the innermost. There only the name that the
statement has defined stands for something else than before; without one, nothing has changed. -/
theorem check_changes_only_defined (c : Context) :
    (∀ e : ParsedExpr, (look e.check c).2 = c) ∧
      ∀ s : ParsedStmt,
        (check s c).2.scopes.depth = c.scopes.depth ∧
          (check s c).2.function = c.function ∧
          (check s c).2.scopes.outer = c.scopes.outer ∧
          match s.defined? (check s c).1 with
          | some (x, entry) => ∀ y, (check s c).2.scopes.inner.lookup y =
              if y = x then some entry else c.scopes.inner.lookup y
          | none => (check s c).2 = c := by
  refine ⟨fun e => still_look e.check c, fun s => ?_⟩
  obtain ⟨houter, hfunction⟩ := framed_check s c
  refine ⟨?_, hfunction, houter, ?_⟩
  · rw [Scopes.depth, houter]
    rfl
  · have hsnd := check_snd_eq s c
    cases hdefined : s.defined? (check s c).1 with
    | none => rwa [hdefined] at hsnd
    | some definition =>
      rw [hdefined] at hsnd
      intro y
      rw [hsnd]
      exact Scopes.lookup_inner_define ..

end Stmt

end Chalk
