import Chalk.Proofs.Grammar.Soundness

/-!
# More depth changes no finished reply

A parser is below another when it agrees with it wherever it is not cut short. Rules respect this
order, so the parts of a grammar grow with the depth (`Grammar.parts_le_succ`), and a run that was
not cut short has the reply of every deeper run (`Grammar.reply_of_le`). `Settles rule s r` says
that the runs of a rule deep enough reply `r`; with `Settles.bind` such facts are put together step
by step, without counting.
-/

namespace Chalk

namespace Parser

variable {α β : Type}

/-- The replies of `p` are those of `q`, where `p` is not cut short. -/
def Le (p q : Parser α) : Prop :=
  ∀ s, p s = .cut ∨ p s = q s

theorem Le.refl (p : Parser α) : p.Le p := fun _ => .inr rfl

theorem Le.trans {p q r : Parser α} (h : p.Le q) (h' : q.Le r) : p.Le r := by
  intro s
  rcases h s with hcut | heq
  · exact .inl hcut
  · rw [heq]
    exact h' s

theorem Le.bind {p q : Parser α} {f g : α → Parser β} (h : p.Le q) (hf : ∀ a, (f a).Le (g a)) :
    (p >>= f).Le (q >>= g) := by
  intro s
  simp only [bind_apply]
  rcases h s with hcut | heq
  · exact .inl (by rw [hcut])
  · rw [heq]
    cases q s with
    | done a s' => exact hf a s'
    | failed e s' => exact .inr rfl
    | cut => exact .inl rfl

theorem Le.ite {c : Prop} [Decidable c] {p q p' q' : Parser α} (h : p.Le q) (h' : p'.Le q') :
    (if c then p else p').Le (if c then q else q') := by
  split
  · exact h
  · exact h'

end Parser

open Chalk.Parser

namespace Parts

/-- The order of parsers, part by part. -/
structure Le (P Q : Parts) : Prop where
  expr (p : Power) : (P.expr p).Le (Q.expr p)
  tail (p : Power) (left : ParsedExpr) : (P.tail p left).Le (Q.tail p left)
  arguments : P.arguments.Le Q.arguments
  params : P.params.Le Q.params
  stmt : P.stmt.Le Q.stmt
  branch : P.branch.Le Q.branch
  body : P.body.Le Q.body
  program : P.program.Le Q.program

namespace Le

variable {P Q : Parts}

theorem negationRule (h : P.Le Q) : P.negationRule.Le Q.negationRule :=
  .bind (.refl _) fun _ => .bind (h.expr _) fun _ => .refl _

theorem groupRule (h : P.Le Q) : P.groupRule.Le Q.groupRule :=
  .bind (.refl _) fun _ => .bind (h.expr _) fun _ => .refl _

theorem headRule (h : P.Le Q) (rule : HeadRule) : (P.headRule rule).Le (Q.headRule rule) := by
  cases rule with
  | primary => exact .refl _
  | negation => exact h.negationRule
  | group => exact h.groupRule

theorem tailRule (h : P.Le Q) (left : ParsedExpr) (p : Power) (rule : TailRule) :
    (P.tailRule left p rule).Le (Q.tailRule left p rule) := by
  cases rule with
  | binary =>
    refine .bind (.refl _) fun t => ?_
    cases Operator.ofKind? t.kind with
    | none => exact .refl _
    | some op => exact .bind (h.expr _) fun _ => .refl _
  | call =>
    cases left with
    | var => exact .bind (.refl _) fun _ => .bind h.arguments fun _ => .refl _
    | number | string | bool | negate | binary | call => exact .refl _

theorem exprRule (h : P.Le Q) (g : Grammar) (p : Power) :
    (P.exprRule g p).Le (Q.exprRule g p) := by
  refine .bind (.refl _) fun k => ?_
  cases g.head k with
  | none => exact .refl _
  | some rule => exact .bind (h.headRule rule) fun _ => h.tail _ _

theorem tailsRule (h : P.Le Q) (g : Grammar) (p : Power) (left : ParsedExpr) :
    (P.tailsRule g p left).Le (Q.tailsRule g p left) := by
  refine .bind (.refl _) fun k => ?_
  cases g.tail k with
  | none => exact .refl _
  | some entry => exact .ite (.bind (h.tailRule left _ _) fun _ => h.tail _ _) (.refl _)

/-- A comma or the end of a list is read in the same way; the rest of the list is a part. -/
theorem separated {α : Type} {list list' : Parser (List α)} (h : list.Le list') (wanted : String)
    (a : α) :
    (do
      if (← kind) ≠ .sign .closeParen then
        let _ ← expectHere (.sign .comma) wanted
      let rest ← list
      pure (a :: rest) : Parser (List α)).Le
    (do
      if (← kind) ≠ .sign .closeParen then
        let _ ← expectHere (.sign .comma) wanted
      let rest ← list'
      pure (a :: rest)) := by
  have hrest : (do let rest ← list; pure (a :: rest) : Parser (List α)).Le
      (do let rest ← list'; pure (a :: rest)) := .bind h fun _ => .refl _
  exact .bind (.refl _) fun _ => .ite (.bind (.refl _) fun _ => hrest) hrest

theorem argumentsRule (h : P.Le Q) : P.argumentsRule.Le Q.argumentsRule :=
  .bind (.refl _) fun _ => .ite (.refl _) <| .bind (h.expr _) fun e => separated h.arguments _ e

theorem paramsRule (h : P.Le Q) : P.paramsRule.Le Q.paramsRule :=
  .bind (.refl _) fun _ => .ite (.refl _) <| .bind (.refl _) fun x => .bind (.refl _) fun _ =>
    .bind (.refl _) fun ty => separated h.params _ (x.value, ty)

theorem bodyRule (h : P.Le Q) : P.bodyRule.Le Q.bodyRule := by
  intro s
  rw [bodyRule_apply, bodyRule_apply]
  split
  · exact .inr rfl
  · split
    · exact .inr rfl
    · exact Parser.Le.bind h.stmt (fun _ => .bind h.body fun _ => .refl _) s

theorem blockRule (h : P.Le Q) : P.blockRule.Le Q.blockRule :=
  .bind (.refl _) fun _ => h.body

theorem declarationRule (h : P.Le Q) : P.declarationRule.Le Q.declarationRule :=
  .bind (.refl _) fun _ => .bind (.refl _) fun _ => .bind (.refl _) fun _ =>
    .bind (.refl _) fun _ => .bind (.refl _) fun _ => .bind (h.expr _) fun _ => .refl _

theorem assignmentRule (h : P.Le Q) : P.assignmentRule.Le Q.assignmentRule :=
  .bind (.refl _) fun _ => .bind (.refl _) fun _ => .bind (h.expr _) fun _ => .refl _

theorem elseRule (h : P.Le Q) : P.elseRule.Le Q.elseRule :=
  .bind (.refl _) fun _ => .ite
    (.bind (.refl _) fun _ => .bind (.refl _) fun _ =>
      .ite (.bind h.branch fun _ => .refl _) h.blockRule) (.refl _)

theorem branchRule (h : P.Le Q) : P.branchRule.Le Q.branchRule :=
  .bind (.refl _) fun _ => .bind (h.expr _) fun _ => .bind h.blockRule fun _ =>
    .bind h.elseRule fun _ => .refl _

theorem loopRule (h : P.Le Q) : P.loopRule.Le Q.loopRule :=
  .bind (.refl _) fun _ => .bind (h.expr _) fun _ => .bind h.blockRule fun _ => .refl _

theorem functionRule (h : P.Le Q) : P.functionRule.Le Q.functionRule :=
  .bind (.refl _) fun _ => .bind (.refl _) fun _ => .bind (.refl _) fun _ => .bind h.params fun _ =>
    .bind (.refl _) fun _ => .bind h.blockRule fun _ => .refl _

theorem retRule (h : P.Le Q) : P.retRule.Le Q.retRule :=
  .bind (.refl _) fun _ => .bind (.refl _) fun _ =>
    .ite (.refl _) (.bind (h.expr _) fun _ => .refl _)

theorem printRule (h : P.Le Q) : P.printRule.Le Q.printRule :=
  .bind (.refl _) fun _ => .bind (.refl _) fun _ => .bind (.refl _) fun _ =>
    .ite (.refl _) (.bind h.arguments fun _ => .refl _)

theorem exprStmtRule (h : P.Le Q) : P.exprStmtRule.Le Q.exprStmtRule :=
  .bind (.refl _) fun _ => .bind (h.expr _) fun _ => .refl _

theorem stmtRule (h : P.Le Q) (rule : StmtRule) : (P.stmtRule rule).Le (Q.stmtRule rule) := by
  cases rule with
  | any => exact h.stmt
  | declaration => exact h.declarationRule
  | assignment => exact h.assignmentRule
  | branch => exact h.branchRule
  | loop => exact h.loopRule
  | function => exact h.functionRule
  | ret => exact h.retRule
  | print => exact h.printRule

theorem anyStmtRule (h : P.Le Q) (g : Grammar) : (P.anyStmtRule g).Le (Q.anyStmtRule g) := by
  refine .bind (.refl _) fun k => ?_
  cases g.stmt k with
  | some rule => exact h.stmtRule rule
  | none => exact .bind (.refl _) fun _ => .ite h.assignmentRule h.exprStmtRule

theorem programRule (h : P.Le Q) : P.programRule.Le Q.programRule :=
  .bind (.refl _) fun _ => .ite (.refl _) (.bind h.stmt fun _ => .bind h.program fun _ => .refl _)

end Le

end Parts

namespace Grammar

theorem parts_le_succ (g : Grammar) (depth : Nat) : (g.parts depth).Le (g.parts (depth + 1)) := by
  induction depth with
  | zero =>
    constructor
    all_goals
      intros
      exact fun _ => .inl rfl
  | succ depth ih =>
    exact ⟨ih.exprRule g, ih.tailsRule g, ih.argumentsRule, ih.paramsRule, ih.anyStmtRule g,
      ih.branchRule, ih.bodyRule, ih.programRule⟩

/-- A run that was not cut short has the reply of every deeper run. -/
theorem reply_of_le {α : Type} {g : Grammar} {rule : Parts → Parser α} {s : Stream} {n m : Nat}
    (hrule : ∀ {P Q : Parts}, P.Le Q → (rule P).Le (rule Q)) (hnm : n ≤ m)
    (hcut : rule (g.parts n) s ≠ .cut) : rule (g.parts m) s = rule (g.parts n) s := by
  induction hnm with
  | refl => rfl
  | step _ ih =>
    rcases hrule (g.parts_le_succ _) s with h | h
    · exact absurd (ih.symm.trans h) hcut
    · rw [← h, ih]

/-- The runs of a rule of the language that are deep enough have the given reply. -/
def Settles {α : Type} (rule : Parts → Parser α) (s : Stream) (r : Reply α) : Prop :=
  ∃ n, ∀ m, n ≤ m → rule (chalk.parts m) s = r

namespace Settles

variable {α β : Type} {s s' : Stream}

theorem of_eq {p : Parser α} {r : Reply α} (h : p s = r) : Settles (fun _ => p) s r :=
  ⟨0, fun _ _ => h⟩

theorem bind {p : Parts → Parser α} {f : Parts → α → Parser β} {a : α} {r : Reply β}
    (h : Settles p s (.done a s')) (hf : Settles (fun P => f P a) s' r) :
    Settles (fun P => p P >>= f P) s r := by
  obtain ⟨n, hn⟩ := h
  obtain ⟨k, hk⟩ := hf
  refine ⟨max n k, fun m hm => ?_⟩
  have hp := hn m (Nat.le_trans (Nat.le_max_left ..) hm)
  calc (p (chalk.parts m) >>= f (chalk.parts m)) s
    _ = f (chalk.parts m) a s' := by rw [bind_apply, hp]
    _ = r := hk m (Nat.le_trans (Nat.le_max_right ..) hm)

theorem congr {rule rule' : Parts → Parser α} {r : Reply α} (h : Settles rule' s r)
    (heq : ∀ P, rule P s = rule' P s) : Settles rule s r := by
  obtain ⟨n, hn⟩ := h
  exact ⟨n, fun m hm => (heq _).trans (hn m hm)⟩

/-- A part of the grammar is a rule over the parts one level down. -/
theorem of_rule {part rule : Parts → Parser α} {r : Reply α} (h : Settles rule s r)
    (hpart : ∀ n, part (chalk.parts (n + 1)) = rule (chalk.parts n)) : Settles part s r := by
  obtain ⟨n, hn⟩ := h
  refine ⟨n + 1, fun m hm => ?_⟩
  obtain ⟨k, rfl⟩ : ∃ k, m = k + 1 := ⟨m - 1, by omega⟩
  rw [hpart k]
  exact hn k (by omega)

theorem ofExprRule {p : Power} {r : Reply ParsedExpr} (h : Settles (·.exprRule chalk p) s r) :
    Settles (·.expr p) s r :=
  h.of_rule fun _ => rfl

theorem ofTailsRule {p : Power} {e : ParsedExpr} {r : Reply ParsedExpr}
    (h : Settles (·.tailsRule chalk p e) s r) : Settles (·.tail p e) s r :=
  h.of_rule fun _ => rfl

theorem ofArgumentsRule {r : Reply (List ParsedExpr)} (h : Settles (·.argumentsRule) s r) :
    Settles (·.arguments) s r :=
  h.of_rule fun _ => rfl

theorem ofParamsRule {r : Reply (List (String × Ty))} (h : Settles (·.paramsRule) s r) :
    Settles (·.params) s r :=
  h.of_rule fun _ => rfl

theorem ofAnyStmtRule {r : Reply ParsedStmt} (h : Settles (·.anyStmtRule chalk) s r) :
    Settles (·.stmt) s r :=
  h.of_rule fun _ => rfl

theorem ofBranchRule {r : Reply ParsedStmt} (h : Settles (·.branchRule) s r) :
    Settles (·.branch) s r :=
  h.of_rule fun _ => rfl

theorem ofBodyRule {r : Reply (List ParsedStmt)} (h : Settles (·.bodyRule) s r) :
    Settles (·.body) s r :=
  h.of_rule fun _ => rfl

theorem ofProgramRule {r : Reply (List ParsedStmt)} (h : Settles (·.programRule) s r) :
    Settles (·.program) s r :=
  h.of_rule fun _ => rfl

/-- A run that is not cut short is deep enough. -/
theorem eq_of_run {rule : Parts → Parser α} {r : Reply α} (h : Settles rule s r)
    (hrule : ∀ {P Q : Parts}, P.Le Q → (rule P).Le (rule Q)) {n : Nat}
    (hcut : rule (chalk.parts n) s ≠ .cut) : rule (chalk.parts n) s = r := by
  obtain ⟨k, hk⟩ := h
  rw [← hk (max n k) (Nat.le_max_right ..)]
  exact (reply_of_le hrule (Nat.le_max_left ..) hcut).symm

theorem read {rule : Parts → Parser α} {r : Reply α} (h : Settles rule s r)
    (hrule : ∀ {P Q : Parts}, P.Le Q → (rule P).Le (rule Q)) (hcut : chalk.read rule s ≠ .cut) :
    chalk.read rule s = r :=
  h.eq_of_run hrule hcut

end Settles

end Grammar

end Chalk
