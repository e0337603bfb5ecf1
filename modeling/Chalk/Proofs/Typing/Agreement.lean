import Chalk.Proofs.Outcome
import Chalk.Proofs.Typing.Frame
import Chalk.Proofs.Typing.Rules

/-!
# The checker decides the rules

The checker works on scopes that it opens, fills and closes again, the rules on an environment.
`Scopes.env` is the environment that scopes stand for. Along it each check gives a result if and
only if the rules do, and the same one: `Expr.check_iff` for expressions, `Stmt.checkAll_iff` for
the statements of a block. For a block the checker has to come back to the scopes it started from,
which is what the frame lemmas say.
-/

namespace Chalk

/-- What the rules know of an entry. -/
def Entry.binding : Entry → Binding
  | .var v => .var v.ty v.mutable
  | .fn f => .fn (f.params.map Prod.snd) f.returns

namespace Scopes

variable {s : Scopes} {x : String} {line : Line}

/-- The environment that scopes stand for. -/
def env (s : Scopes) : Env := fun x =>
  (s.lookup? x).map Entry.binding

@[simp] theorem env_push (s : Scopes) : s.push.env = s.env := rfl

theorem env_define (s : Scopes) (x : String) (entry : Entry) :
    (s.define x entry).env = s.env.bind x entry.binding := by
  funext y
  simp only [env, Env.bind, lookup?_define]
  split
  · rfl
  · rfl

theorem findVariable_iff {ty : Ty} {m : Bool} :
    (∃ v, s.findVariable x line = .ok v ∧ v.ty = ty ∧ v.mutable = m) ↔
      s.env x = some (.var ty m) := by
  rw [findVariable, env]
  cases s.lookup? x with
  | none => simp
  | some entry => cases entry <;> simp [Entry.binding]

theorem findFunction_iff {params : List Ty} {ty : Ty} :
    (∃ f, s.findFunction x line = .ok f ∧ f.params.map Prod.snd = params ∧ f.returns = ty) ↔
      s.env x = some (.fn params ty) := by
  rw [findFunction, env]
  cases s.lookup? x with
  | none => simp
  | some entry => cases entry <;> simp [Entry.binding]

end Scopes

/-! ## Expressions -/

theorem Operator.of_resultTy {op : Operator} {l r ty : Ty} (h : op.resultTy l r = .ok ty) :
    l = r ∧ ty = if op.isComparison then .bool else l := by
  unfold resultTy at h
  split at h <;> split at h <;> simp_all

theorem Ty.isNumeric_iff {ty : Ty} : ty.isNumeric = true ↔ ty = .int ∨ ty = .float := by
  cases ty <;> decide

namespace Expr

variable (s : Scopes)

mutual

theorem check_iff : ∀ (e : ParsedExpr) {ty : Ty} {e' : TypedExpr},
    e.check s = .ok e' ∧ e'.note = ty ↔ Typed s.env e ty e'
  | .number v line, ty, e' | .string bytes line, ty, e' | .bool b line, ty, e' => by
    constructor
    · intro h
      obtain ⟨h, hty⟩ := h
      cases h
      cases hty
      constructor
    · intro h
      cases h
      exact ⟨rfl, rfl⟩
  | .var x line, ty, e' => by
    simp only [check, bind_eq_ok_iff]
    constructor
    · intro h
      obtain ⟨⟨v, hv, h⟩, hty⟩ := h
      cases h
      cases hty
      exact .var (Scopes.findVariable_iff.1 ⟨v, hv, rfl, rfl⟩)
    · intro h
      cases h with
      | var name =>
        obtain ⟨v, hv, rfl, -⟩ := Scopes.findVariable_iff.2 name
        exact ⟨⟨v, hv, rfl⟩, rfl⟩
  | .negate e line, ty, e' => by
    simp only [check, bind_eq_ok_iff]
    constructor
    · intro h
      obtain ⟨⟨a, ha, h⟩, hty⟩ := h
      split at h
      · next hnumeric =>
        cases h
        cases hty
        exact .negate ((check_iff e).1 ⟨ha, rfl⟩) (Ty.isNumeric_iff.1 hnumeric)
      · cases h
    · intro h
      cases h with
      | negate operand numeric =>
        obtain ⟨ha, rfl⟩ := (check_iff e).2 operand
        exact ⟨⟨_, ha, if_pos (Ty.isNumeric_iff.2 numeric)⟩, rfl⟩
  | .binary op l r line, ty, e' => by
    simp only [check, bind_eq_ok_iff]
    constructor
    · intro h
      obtain ⟨⟨l', hl, r', hr, h⟩, hty⟩ := h
      split at h
      · next res hres =>
        cases h
        cases hty
        obtain ⟨heq, rfl⟩ := Operator.of_resultTy hres
        have hleft := (check_iff l).1 ⟨hl, rfl⟩
        have hright := (check_iff r).1 ⟨hr, heq.symm⟩
        cases hop : op.isComparison with
        | true => exact .comparison hop hleft hright
        | false => exact .arithmetic hop hleft hright
      · cases h
    · intro h
      cases h with
      | comparison compares left right =>
        obtain ⟨hl, rfl⟩ := (check_iff l).2 left
        obtain ⟨hr, hty⟩ := (check_iff r).2 right
        exact ⟨⟨_, hl, _, hr, by simp [Operator.resultTy, compares, hty]⟩, rfl⟩
      | arithmetic computes left right =>
        obtain ⟨hl, rfl⟩ := (check_iff l).2 left
        obtain ⟨hr, hty⟩ := (check_iff r).2 right
        exact ⟨⟨_, hl, _, hr, by simp [Operator.resultTy, computes, hty]⟩, rfl⟩
  | .call f es line, ty, e' => by
    simp only [check, bind_eq_ok_iff]
    constructor
    · intro h
      obtain ⟨⟨g, hg, h⟩, hty⟩ := h
      split at h
      · next hlength =>
        obtain ⟨es', hes, h⟩ := bind_eq_ok_iff.1 h
        cases h
        cases hty
        have harguments := (checkArguments_iff es (by simpa using hlength)).1 hes
        exact .call (Scopes.findFunction_iff.1 ⟨g, hg, rfl, rfl⟩) harguments
      · cases h
    · intro h
      cases h with
      | call name arguments =>
        obtain ⟨g, hg, rfl, rfl⟩ := Scopes.findFunction_iff.2 name
        have hlength := arguments.length_eq
        refine ⟨⟨g, hg, ?_⟩, rfl⟩
        rw [if_pos (by simpa using hlength)]
        exact bind_eq_ok_iff.2 ⟨_, (checkArguments_iff es hlength).2 arguments, rfl⟩

theorem checkArguments_iff : ∀ (es : List ParsedExpr) {function : String} {line : Line}
    {position : Nat} {tys : List Ty} {es' : List TypedExpr}, es.length = tys.length →
    (checkArguments s function line position es tys = .ok es' ↔ TypedAll s.env es tys es')
  | [], _, _, _, tys, es', hlength => by
    cases tys with
    | cons => cases hlength
    | nil =>
      constructor
      · intro h
        cases h
        exact .nil
      · intro h
        cases h
        rfl
  | e :: es, _, _, _, tys, es', hlength => by
    cases tys with
    | nil => cases hlength
    | cons ty tys =>
      simp only [checkArguments, bind_eq_ok_iff]
      have hrest : es.length = tys.length := Nat.succ.inj hlength
      constructor
      · intro h
        obtain ⟨a, ha, h⟩ := h
        split at h
        · next hty =>
          obtain ⟨rest, hes, h⟩ := bind_eq_ok_iff.1 h
          cases h
          exact .cons ((check_iff e).1 ⟨ha, hty⟩) ((checkArguments_iff es hrest).1 hes)
        · cases h
      · intro h
        cases h with
        | cons first rest =>
          obtain ⟨ha, hty⟩ := (check_iff e).2 first
          refine ⟨_, ha, ?_⟩
          rw [if_pos hty]
          exact bind_eq_ok_iff.2 ⟨_, (checkArguments_iff es hrest).2 rest, rfl⟩

end

theorem checkAll_iff (es : List ParsedExpr) {es' : List TypedExpr} :
    checkAll s es = .ok es' ↔ ∃ tys, TypedAll s.env es tys es' := by
  induction es generalizing es' with
  | nil =>
    constructor
    · intro h
      cases h
      exact ⟨[], .nil⟩
    · intro h
      obtain ⟨tys, h⟩ := h
      cases h
      rfl
  | cons e es ih =>
    simp only [checkAll, bind_eq_ok_iff]
    constructor
    · intro h
      obtain ⟨e', he, rest, hes, h⟩ := h
      cases h
      obtain ⟨tys, hes⟩ := ih.1 hes
      exact ⟨_ :: tys, .cons ((check_iff s e).1 ⟨he, rfl⟩) hes⟩
    · intro h
      obtain ⟨tys, h⟩ := h
      cases h with
      | cons first rest =>
        exact ⟨_, ((check_iff s e).2 first).1, _, ih.2 ⟨_, rest⟩, rfl⟩

end Expr

/-! ## Checks and their results -/

namespace Checker

variable {α β : Type} {p : Checker α} {f : α → Checker β} {c : Context} {a : α} {b : β}

/-- The check finds no fault and gives the value. -/
def Gives (p : Checker α) (c : Context) (a : α) : Prop :=
  (p c).1 = .ok a

theorem gives_pure {a' : α} : Gives (pure a) c a' ↔ a' = a := by
  constructor
  · intro h
    cases h
    rfl
  · intro h
    rw [h]
    rfl

theorem gives_bind : Gives (p >>= f) c b ↔ ∃ a, Gives p c a ∧ Gives (f a) (p c).2 b := by
  unfold Gives
  rw [bind_apply]
  match p c with
  | (.ok a, _) =>
    constructor
    · intro h
      exact ⟨a, rfl, h⟩
    · intro h
      obtain ⟨_, ha, h⟩ := h
      cases ha
      exact h
  | (.error e, _) =>
    constructor
    · intro h
      cases h
    · intro h
      obtain ⟨_, ha, _⟩ := h
      cases ha

theorem Still.gives_bind (hp : p.Still) :
    Gives (p >>= f) c b ↔ ∃ a, Gives p c a ∧ Gives (f a) c b := by
  rw [Checker.gives_bind, hp c]

theorem gives_look_bind {g : Scopes → Except SemanticError α} :
    Gives (look g >>= f) c b ↔ ∃ a, g c.scopes = .ok a ∧ Gives (f a) c b :=
  (still_look g).gives_bind

theorem gives_enclosing_bind {g : Option Signature → Checker β} :
    Gives (enclosing >>= g) c b ↔ Gives (g c.function) c b :=
  Iff.rfl

theorem not_gives_fault {cause : SemanticError.Cause} {line : Line} :
    ¬ Gives (fault cause line) c a := by
  intro h
  cases h

/-- A check that goes on under a condition only. -/
theorem gives_ite_fault {q : Prop} [Decidable q] {cause : SemanticError.Cause} {line : Line} :
    Gives (if q then p else fault cause line) c a ↔ q ∧ Gives p c a := by
  by_cases hq : q
  · rw [if_pos hq]
    exact ⟨fun h => ⟨hq, h⟩, And.right⟩
  · rw [if_neg hq]
    exact ⟨fun h => absurd h not_gives_fault, fun h => absurd h.1 hq⟩

end Checker

namespace Context

/-- The result type of the function around a statement. -/
def returns (c : Context) : Option Ty :=
  c.function.map (·.returns)

/-- The context in which the statements of a block are checked. -/
def enter (c : Context) : Context :=
  { c with scopes := c.scopes.push }

end Context

/-! ## Statements -/

namespace Stmt

open Checker

variable {c : Context} {t : TypedStmt} {line : Line}

theorem checkDeclare_iff {v : Variable} {e : ParsedExpr} :
    Gives (checkDeclare v e line) c t ↔
      ∃ e', Typed c.scopes.env e v.ty e' ∧ t = .declare v e' () := by
  simp only [checkDeclare, gives_look_bind, gives_ite_fault, ← Expr.check_iff]
  constructor
  · intro h
    obtain ⟨e', he, hty, h⟩ := h
    exact ⟨e', ⟨he, hty⟩, gives_pure.1 h⟩
  · intro h
    obtain ⟨e', ⟨he, hty⟩, h⟩ := h
    exact ⟨e', he, hty, gives_pure.2 h⟩

theorem checkAssign_iff {x : String} {e : ParsedExpr} :
    Gives (checkAssign x e line) c t ↔
      ∃ ty e', c.scopes.env x = some (.var ty true) ∧ Typed c.scopes.env e ty e' ∧
        t = .assign x e' () := by
  simp only [checkAssign, gives_look_bind, gives_ite_fault, gives_pure, ← Expr.check_iff]
  constructor
  · intro h
    obtain ⟨v, hv, hmut, e', he, hty, h⟩ := h
    exact ⟨v.ty, e', Scopes.findVariable_iff.1 ⟨v, hv, rfl, hmut⟩, ⟨he, hty⟩, h⟩
  · intro h
    obtain ⟨ty, e', hx, ⟨he, hty⟩, h⟩ := h
    obtain ⟨v, hv, rfl, hmut⟩ := Scopes.findVariable_iff.2 hx
    exact ⟨v, hv, hmut, e', he, hty, h⟩

theorem checkRet_some_iff {e : ParsedExpr} :
    Gives (checkRet (some e) line) c t ↔
      ∃ ty e', c.returns = some ty ∧ Typed c.scopes.env e ty e' ∧ t = .ret (some e') () := by
  rw [checkRet, gives_enclosing_bind, Context.returns]
  cases c.function with
  | none => simp [not_gives_fault]
  | some f =>
    simp only [gives_look_bind, gives_ite_fault, gives_pure, ← Expr.check_iff, Option.map_some]
    constructor
    · intro h
      obtain ⟨e', he, hty, h⟩ := h
      exact ⟨f.returns, e', rfl, ⟨he, hty⟩, h⟩
    · intro h
      obtain ⟨_, e', hreturns, ⟨he, hty⟩, h⟩ := h
      cases hreturns
      exact ⟨e', he, hty, h⟩

theorem checkRet_none_iff :
    Gives (checkRet none line) c t ↔ c.returns = some .void ∧ t = .ret none () := by
  rw [checkRet, gives_enclosing_bind, Context.returns]
  cases c.function with
  | none => simp [not_gives_fault]
  | some f => simp only [gives_ite_fault, gives_pure, Option.map_some, Option.some.injEq]

theorem check_branch_iff {e : ParsedExpr} {a b : List ParsedStmt} :
    Gives (check (.branch e a b line)) c t ↔
      ∃ ty e' a' b', Typed c.scopes.env e ty e' ∧ Gives (checkAll a) c.enter a' ∧
        Gives (checkAll b) c.enter b' ∧ t = .branch e' a' b' () := by
  simp only [check, gives_look_bind, (framed_checkAll _).still_block.gives_bind, gives_pure,
    ← Expr.check_iff]
  constructor
  · intro h
    obtain ⟨e', he, a', ha, b', hb, h⟩ := h
    exact ⟨_, e', a', b', ⟨he, rfl⟩, ha, hb, h⟩
  · intro h
    obtain ⟨_, e', a', b', ⟨he, _⟩, ha, hb, h⟩ := h
    exact ⟨e', he, a', ha, b', hb, h⟩

theorem check_loop_iff {e : ParsedExpr} {a : List ParsedStmt} :
    Gives (check (.loop e a line)) c t ↔
      ∃ ty e' a', Typed c.scopes.env e ty e' ∧ Gives (checkAll a) c.enter a' ∧
        t = .loop e' a' () := by
  simp only [check, gives_look_bind, (framed_checkAll _).still_block.gives_bind, gives_pure,
    ← Expr.check_iff]
  constructor
  · intro h
    obtain ⟨e', he, a', ha, h⟩ := h
    exact ⟨_, e', a', ⟨he, rfl⟩, ha, h⟩
  · intro h
    obtain ⟨_, e', a', ⟨he, _⟩, ha, h⟩ := h
    exact ⟨e', he, a', ha, h⟩

theorem check_print_iff {es : List ParsedExpr} :
    Gives (check (.print es line)) c t ↔
      ∃ tys es', TypedAll c.scopes.env es tys es' ∧ t = .print es' () := by
  simp only [check, gives_look_bind, gives_pure, Expr.checkAll_iff]
  constructor
  · intro h
    obtain ⟨es', ⟨tys, hes⟩, h⟩ := h
    exact ⟨tys, es', hes, h⟩
  · intro h
    obtain ⟨tys, es', hes, h⟩ := h
    exact ⟨es', ⟨tys, hes⟩, h⟩

theorem check_expr_iff {e : ParsedExpr} :
    Gives (check (.expr e line)) c t ↔ ∃ ty e', Typed c.scopes.env e ty e' ∧ t = .expr e' () := by
  simp only [check, gives_look_bind, gives_pure, ← Expr.check_iff]
  constructor
  · intro h
    obtain ⟨e', he, h⟩ := h
    exact ⟨_, e', ⟨he, rfl⟩, h⟩
  · intro h
    obtain ⟨_, e', ⟨he, _⟩, h⟩ := h
    exact ⟨e', he, h⟩

theorem defineParams_apply (ps : List (String × Ty)) (c : Context) :
    ∃ c', defineParams ps c = (.ok (), c') ∧ c'.function = c.function ∧
      c'.scopes.env = c.scopes.env.bindParams ps := by
  induction ps generalizing c with
  | nil => exact ⟨c, rfl, rfl, rfl⟩
  | cons p ps ih =>
    obtain ⟨c', happly, hfunction, henv⟩ := ih (c.define p.1 (.var ⟨p.1, p.2, false⟩))
    refine ⟨c', happly, hfunction, henv.trans ?_⟩
    rw [Context.define, Scopes.env_define]
    rfl

/-- The body of a function is checked where its name and its parameters are known. -/
theorem check_function_iff (f : Signature) (a : List ParsedStmt) (line : Line) (c : Context) :
    ∃ c' : Context, c'.returns = some f.returns ∧
      c'.scopes.env = (c.scopes.env.bindFunction f).bindParams f.params ∧
      ∀ t, Gives (check (.function f a line)) c t ↔
        ∃ a', Gives (checkAll a) c' a' ∧ t = .function f a' () := by
  obtain ⟨c', happly, hfunction, henv⟩ := defineParams_apply f.params
    { c.define f.name (.fn f) with scopes := (c.define f.name (.fn f)).scopes.push,
                                   function := some f }
  refine ⟨c', ?_, ?_, fun t => ?_⟩
  · rw [Context.returns, hfunction]
    rfl
  · rw [henv, Scopes.env_push, Context.define, Scopes.env_define]
    rfl
  · have hstill : (inside f (block do defineParams f.params; checkAll a)).Still :=
      ((framed_defineParams _).bind fun _ => framed_checkAll a).still_block.inside f
    have hbody : ∀ a', Gives (inside f (block do defineParams f.params; checkAll a))
        (c.define f.name (.fn f)) a' ↔ Gives (checkAll a) c' a' := by
      intro a'
      show ((defineParams f.params >>= fun _ => checkAll a) _).1 = .ok a' ↔ _
      rw [bind_apply, happly]
      rfl
    show Gives (inside f (block do defineParams f.params; checkAll a) >>= _) _ t ↔ _
    simp only [hstill.gives_bind, hbody, gives_pure]

theorem checkAll_cons_iff {s : ParsedStmt} {ss : List ParsedStmt} {ts : List TypedStmt} :
    Gives (checkAll (s :: ss)) c ts ↔
      ∃ t ts', Gives (check s) c t ∧ Gives (checkAll ss) (c.extend s.definition?) ts' ∧
        ts = t :: ts' := by
  simp only [checkAll, gives_bind, gives_pure]
  constructor
  · intro h
    obtain ⟨t, ht, ts', hts, h⟩ := h
    rw [check_snd ht] at hts
    exact ⟨t, ts', ht, hts, h⟩
  · intro h
    obtain ⟨t, ts', ht, hts, h⟩ := h
    rw [← check_snd ht] at hts
    exact ⟨t, ht, ts', hts, h⟩

theorem checkAll_iff : ∀ (ss : List ParsedStmt) {c : Context} {ts : List TypedStmt},
    Gives (checkAll ss) c ts ↔ WellTyped c.returns c.scopes.env ss ts
  | [], c, ts => by
    rw [checkAll, gives_pure]
    constructor
    · intro h
      cases h
      exact .nil
    · intro h
      cases h
      rfl
  | .declare v e line :: ss, c, ts => by
    simp only [checkAll_cons_iff, check, checkDeclare_iff, checkAll_iff ss]
    have henv : (c.extend (definition? (.declare v e line))).scopes.env =
        c.scopes.env.bind v.name (.var v.ty v.mutable) := Scopes.env_define ..
    rw [henv]
    constructor
    · intro h
      obtain ⟨_, ts', ⟨e', he, rfl⟩, hts, h⟩ := h
      cases h
      exact .declare he hts
    · intro h
      cases h with
      | declare value rest => exact ⟨_, _, ⟨_, value, rfl⟩, rest, rfl⟩
  | .assign x e line :: ss, c, ts => by
    simp only [checkAll_cons_iff, check, checkAssign_iff, checkAll_iff ss]
    constructor
    · intro h
      obtain ⟨_, ts', ⟨ty, e', hx, he, rfl⟩, hts, h⟩ := h
      cases h
      exact .assign hx he hts
    · intro h
      cases h with
      | assign target value rest => exact ⟨_, _, ⟨_, _, target, value, rfl⟩, rest, rfl⟩
  | .branch e a b line :: ss, c, ts => by
    simp only [checkAll_cons_iff, check_branch_iff, checkAll_iff a, checkAll_iff b, checkAll_iff ss]
    constructor
    · intro h
      obtain ⟨_, ts', ⟨ty, e', a', b', he, ha, hb, rfl⟩, hts, h⟩ := h
      cases h
      exact .branch he ha hb hts
    · intro h
      cases h with
      | branch condition thenBody elseBody rest =>
        exact ⟨_, _, ⟨_, _, _, _, condition, thenBody, elseBody, rfl⟩, rest, rfl⟩
  | .loop e a line :: ss, c, ts => by
    simp only [checkAll_cons_iff, check_loop_iff, checkAll_iff a, checkAll_iff ss]
    constructor
    · intro h
      obtain ⟨_, ts', ⟨ty, e', a', he, ha, rfl⟩, hts, h⟩ := h
      cases h
      exact .loop he ha hts
    · intro h
      cases h with
      | loop condition body rest => exact ⟨_, _, ⟨_, _, _, condition, body, rfl⟩, rest, rfl⟩
  | .function f a line :: ss, c, ts => by
    obtain ⟨c', hreturns, hbody, hcheck⟩ := check_function_iff f a line c
    simp only [checkAll_cons_iff, hcheck, checkAll_iff a, checkAll_iff ss, hreturns, hbody]
    have henv : (c.extend (definition? (.function f a line))).scopes.env =
        c.scopes.env.bindFunction f := Scopes.env_define ..
    rw [henv]
    constructor
    · intro h
      obtain ⟨_, ts', ⟨a', ha, rfl⟩, hts, h⟩ := h
      cases h
      exact .function ha hts
    · intro h
      cases h with
      | function body rest => exact ⟨_, _, ⟨_, body, rfl⟩, rest, rfl⟩
  | .ret (some e) line :: ss, c, ts => by
    simp only [checkAll_cons_iff, check, checkRet_some_iff, checkAll_iff ss]
    constructor
    · intro h
      obtain ⟨_, ts', ⟨ty, e', hty, he, rfl⟩, hts, h⟩ := h
      cases h
      exact .retSome hty he hts
    · intro h
      cases h with
      | retSome inside value rest => exact ⟨_, _, ⟨_, _, inside, value, rfl⟩, rest, rfl⟩
  | .ret none line :: ss, c, ts => by
    simp only [checkAll_cons_iff, check, checkRet_none_iff, checkAll_iff ss]
    constructor
    · intro h
      obtain ⟨_, ts', ⟨hty, rfl⟩, hts, h⟩ := h
      cases h
      exact .retNone hty hts
    · intro h
      cases h with
      | retNone inside rest => exact ⟨_, _, ⟨inside, rfl⟩, rest, rfl⟩
  | .print es line :: ss, c, ts => by
    simp only [checkAll_cons_iff, check_print_iff, checkAll_iff ss]
    constructor
    · intro h
      obtain ⟨_, ts', ⟨tys, es', hes, rfl⟩, hts, h⟩ := h
      cases h
      exact .print hes hts
    · intro h
      cases h with
      | print values rest => exact ⟨_, _, ⟨_, _, values, rfl⟩, rest, rfl⟩
  | .expr e line :: ss, c, ts => by
    simp only [checkAll_cons_iff, check_expr_iff, checkAll_iff ss]
    constructor
    · intro h
      obtain ⟨_, ts', ⟨ty, e', he, rfl⟩, hts, h⟩ := h
      cases h
      exact .expr he hts
    · intro h
      cases h with
      | expr value rest => exact ⟨_, _, ⟨_, _, value, rfl⟩, rest, rfl⟩

end Stmt

/-- A program is accepted if and only if it obeys the rules, and what is given for it is the same
program with the types of its expressions. -/
theorem typeCheck_eq_ok_iff_wellTyped (p : List ParsedStmt) (t : List TypedStmt) :
    (typeCheck p = .ok t ↔ WellTyped none .empty p t) ∧
      (WellTyped none .empty p t →
        Stmt.mapList (fun _ => ()) (fun _ => ()) t = Stmt.mapList (fun _ => ()) (fun _ => ()) p) :=
  ⟨Stmt.checkAll_iff p, WellTyped.erase⟩

end Chalk
