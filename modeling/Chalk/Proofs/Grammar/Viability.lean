import Chalk.Proofs.Grammar.Prompt

/-!
# The rules fault at the first token that cannot stand

Each rule, given prompt parts, is prompt itself: where it faults, the tokens before the fault begin
a phrase of the grammar. The parts of the grammar are prompt to any depth (`Grammar.parts_prompt`),
by induction on it. A run that is cut short says nothing, so there is no need to count how deep it
has to go.

What a rule would have read behind a fault is not what it reads, so of statements only that they are
derived is kept, and not which tree is built. The trees of expressions are kept, since it is by the
tree that the rule for calls decides whether a parenthesis can stand behind an expression.
-/

namespace Chalk

open Chalk.Parser Chalk.Grammar

/-! ## Something can be read -/

theorem Power.not_lt_default (p : Power) : ¬ p < .default :=
  Nat.not_lt_zero _

theorem Stream.exists_end : ∃ s : Stream, s.kind = .eof :=
  ⟨⟨.endAt default, []⟩, rfl⟩

namespace Derives

variable (reads : String → Number → Prop)

theorem exists_unary : ∃ e ts, Derives reads (.unary e) ts := by
  have htrue : Derives reads _ [{ kind := .keyword .trueKw, value := "true", span := default }] :=
    .bool (b := true) rfl
  exact ⟨_, _, .ofAtom htrue⟩

theorem exists_stmt : ∃ st ts, Derives reads (.stmt st) ts := by
  obtain ⟨e, ts, he⟩ := exists_unary reads
  obtain ⟨t, ts, rfl⟩ := List.exists_cons_of_length_pos (he.length_pos trivial)
  exact ⟨_, _, .exprStmt (he.operand_of_unary .default)
    (z := { kind := .sign .semicolon, value := ";", span := default }) rfl⟩

theorem exists_branch : ∃ st ts, Derives reads (.branch st) ts := by
  obtain ⟨e, ts, he⟩ := exists_unary reads
  have hblock : Derives reads (.block []) _ :=
    .block (o := { kind := .sign .openCurly, value := "", span := default })
      (c := { kind := .sign .closeCurly, value := "", span := default }) rfl .noStmt rfl
  exact ⟨_, _, .branch (k := { kind := .keyword .ifKw, value := "if", span := default }) rfl
    (he.operand_of_unary .default) hblock .noElse⟩

end Derives

namespace Parts

/-- The items of a list up to its closing parenthesis. Where that stands at once there are none, and
nowhere else. -/
def Closed {α : Type} (items : List α → List Token → Prop) (s : Stream) (as : List α)
    (ts : List Token) : Prop :=
  ∃ us c, ts = us ++ [c] ∧ c.kind = .sign .closeParen ∧ items as us ∧
    (s.kind = .sign .closeParen ↔ us = [])

/-- Parts that are prompt wherever a rule starts them. -/
structure Prompt (parts : Parts) : Prop where
  expr (p : Power) (s : Stream) : (parts.expr p).Prompt s fun e ts s' =>
    Derives Number.Read (.operand p e) ts ∧ ¬ p < chalk.power s'.kind
  tail {p : Power} {left : ParsedExpr} {ls : List Token} {s : Stream}
    (hstop : Derives Number.Read (.operand p left) ls)
    (hgo : ∀ op : Operator, s.kind = .sign op.sign →
      Derives Number.Read (.chain op.power left) ls) :
    (parts.tail p left).Prompt s fun e ts s' =>
      Derives Number.Read (.operand p e) (ls ++ ts) ∧ ¬ p < chalk.power s'.kind
  arguments (s : Stream) : parts.arguments.Prompt s fun es ts _ =>
    Closed (fun es us => Derives Number.Read (.arguments es) us) s es ts
  params (s : Stream) : parts.params.Prompt s fun ps ts _ =>
    Closed (fun ps us => Derives Number.Read (.params ps) us) s ps ts
  stmt (s : Stream) : parts.stmt.Prompt s fun _ ts _ => ∃ st, Derives Number.Read (.stmt st) ts
  branch {s : Stream} (hkind : s.kind = .keyword .ifKw) :
    parts.branch.Prompt s fun _ ts _ => ∃ st, Derives Number.Read (.branch st) ts
  body (s : Stream) : parts.body.Prompt s fun _ ts _ =>
    ∃ body us c, ts = us ++ [c] ∧ c.kind = .sign .closeCurly ∧ Derives Number.Read (.stmts body) us
  program (s : Stream) : parts.program.Prompt s fun _ ts s' =>
    s'.kind = .eof ∧ ∃ body, Derives Number.Read (.stmts body) ts

variable {parts : Parts} {s : Stream}

/-! ## Expressions -/

theorem exists_expr (p : Power) : ∃ e ts, ∃ s' : Stream,
    Derives Number.Read (.operand p e) ts ∧ ¬ p < chalk.power s'.kind := by
  obtain ⟨e, ts, he⟩ := Derives.exists_unary Number.Read
  obtain ⟨s', hend⟩ := Stream.exists_end
  exact ⟨e, ts, s', he.operand_of_unary p, by rw [hend]; exact p.not_lt_default⟩

theorem exists_tail {p : Power} {left : ParsedExpr} {ls : List Token}
    (hleft : Derives Number.Read (.operand p left) ls) : ∃ e ts, ∃ s' : Stream,
    Derives Number.Read (.operand p e) (ls ++ ts) ∧ ¬ p < chalk.power s'.kind := by
  obtain ⟨s', hend⟩ := Stream.exists_end
  exact ⟨left, [], s', by simpa using hleft, by rw [hend]; exact p.not_lt_default⟩

theorem primaryRule_prompt (hhead : chalk.head s.kind = some .primary) :
    primaryRule.Prompt s fun e ts _ => Derives Number.Read (.unary e) ts := by
  have hpass : ∀ {e : ParsedExpr}, Derives Number.Read (.atom e) [s.current] →
      (∀ s₁ : Stream, s₁.current = s.current → primaryRule s₁ = .done e s₁.advance) →
      primaryRule.Prompt s fun e ts _ => Derives Number.Read (.unary e) ts :=
    fun he hrule => .of_done (Grammar.ne_eof_of_head hhead) hrule (.ofAtom he)
  rcases Grammar.primary_of_head hhead with hk | hk | hk | ⟨b, hk⟩ <;>
    simp only [Stream.kind] at hk
  · cases hread : Number.read? s.current.value with
    | some v =>
      refine hpass (.number hk hread) fun s₁ hcurrent => ?_
      simp only [primaryRule, bind_apply, Parser.advance, hcurrent, hk, hread]
      rfl
    | none =>
      obtain ⟨e, ts, he⟩ := Derives.exists_unary Number.Read
      refine .of_failed (e := ⟨.unreadableNumber s.current.value, s.position⟩)
        (fun s₁ hcurrent => ⟨s₁.advance, ?_⟩) ⟨rfl, rfl⟩ ⟨e, ts, default, he⟩
      simp only [primaryRule, bind_apply, Parser.advance, hcurrent, hk, hread]
      rfl
  · refine hpass (.var hk) fun s₁ hcurrent => ?_
    simp only [primaryRule, bind_apply, Parser.advance, hcurrent, hk]
    rfl
  · refine hpass (.string hk) fun s₁ hcurrent => ?_
    simp only [primaryRule, bind_apply, Parser.advance, hcurrent, hk]
    rfl
  · refine hpass (.bool hk) fun s₁ hcurrent => ?_
    cases b <;> simp only [primaryRule, bind_apply, Parser.advance, hcurrent, hk] <;> rfl

theorem negationRule_prompt (hparts : parts.Prompt) (hkind : s.kind = .sign .dash) :
    parts.negationRule.Prompt s fun e ts _ => Derives Number.Read (.unary e) ts := by
  refine (Prompt.advance (by simp [hkind])).bind ?_
  rintro t _ s₁ ⟨rfl, rfl⟩
  refine (hparts.expr .unary s₁).bind ?_
  rintro e ts s₂ ⟨he, -⟩
  exact .pure (by simpa using Derives.negate hkind he)

theorem groupRule_prompt (hparts : parts.Prompt) (hkind : s.kind = .sign .openParen) :
    parts.groupRule.Prompt s fun e ts _ => Derives Number.Read (.unary e) ts := by
  refine (Prompt.advance (by simp [hkind])).bind ?_
  rintro t _ s₁ ⟨rfl, rfl⟩
  refine (hparts.expr .default s₁).bind ?_
  rintro e ts s₂ ⟨he, -⟩
  refine (Prompt.expectHere (by simp) _).bind ?_
  rintro c _ s₃ ⟨hc, rfl⟩
  exact .pure (by simpa using Derives.ofAtom (.group hkind he hc))

theorem headRule_prompt (hparts : parts.Prompt) {rule : HeadRule}
    (hhead : chalk.head s.kind = some rule) :
    (parts.headRule rule).Prompt s fun e ts _ => Derives Number.Read (.unary e) ts := by
  cases rule with
  | primary => exact primaryRule_prompt hhead
  | negation => exact negationRule_prompt hparts (Grammar.dash_of_head hhead)
  | group => exact groupRule_prompt hparts (Grammar.openParen_of_head hhead)

theorem exprRule_prompt (hparts : parts.Prompt) (p : Power) :
    (parts.exprRule chalk p).Prompt s fun e ts s' =>
      Derives Number.Read (.operand p e) ts ∧ ¬ p < chalk.power s'.kind := by
  refine .kind_bind ?_
  cases hhead : chalk.head s.kind with
  | none => exact .unexpected (exists_expr p)
  | some rule =>
    refine (headRule_prompt hparts hhead).bind ?_
    intro left ls s₁ hleft
    exact hparts.tail (hleft.operand_of_unary p)
      fun op _ => .ofOperand (hleft.operand_of_unary op.power)

theorem binaryRule_prompt (hparts : parts.Prompt) {op : Operator} (hkind : s.kind = .sign op.sign)
    {left : ParsedExpr} {ls : List Token} (hleft : Derives Number.Read (.chain op.power left) ls) :
    (parts.binaryRule left op.power).Prompt s fun e ts s' =>
      Derives Number.Read (.chain op.power e) (ls ++ ts) ∧ ¬ op.power < chalk.power s'.kind := by
  refine (Prompt.advance (by simp [hkind])).bind ?_
  rintro t _ s₁ ⟨rfl, rfl⟩
  have hop : Operator.ofKind? s.current.kind = some op := by
    rw [show s.current.kind = .sign op.sign from hkind, Operator.ofKind?_sign]
  simp only [hop]
  refine (hparts.expr op.power s₁).bind ?_
  rintro right rs s₂ ⟨hright, hstop⟩
  exact .pure ⟨by simpa using Derives.operation hleft hkind hright, by simpa using hstop⟩

theorem callRule_prompt (hparts : parts.Prompt) (hkind : s.kind = .sign .openParen) {p : Power}
    {f : String} {line : Line} {ls : List Token}
    (hleft : Derives Number.Read (.operand p (.var f line)) ls) :
    (parts.callRule (.var f line)).Prompt s fun e ts _ =>
      Derives Number.Read (.unary e) (ls ++ ts) := by
  refine (Prompt.advance (by simp [hkind])).bind ?_
  rintro t _ s₁ ⟨rfl, rfl⟩
  refine (hparts.arguments s₁).bind ?_
  rintro es _ s₂ ⟨ts, c, rfl, hc, hes, -⟩
  have hcallee := hleft.callee_of_var (Phrase.tree?_operand ..)
  exact .pure (by simpa using Derives.call hcallee hkind hes hc)

theorem tailsRule_prompt (hparts : parts.Prompt) {p : Power} {left : ParsedExpr} {ls : List Token}
    (hstop : Derives Number.Read (.operand p left) ls)
    (hgo : ∀ op : Operator, s.kind = .sign op.sign →
      Derives Number.Read (.chain op.power left) ls) :
    (parts.tailsRule chalk p left).Prompt s fun e ts s' =>
      Derives Number.Read (.operand p e) (ls ++ ts) ∧ ¬ p < chalk.power s'.kind := by
  have hend : Derives Number.Read (.operand p left) (ls ++ []) := by simpa using hstop
  refine .kind_bind ?_
  cases htail : chalk.tail s.kind with
  | none => exact .pure ⟨hend, not_lt_power_of_tail (by simp [htail])⟩
  | some entry =>
    obtain ⟨q, rule⟩ := entry
    by_cases hlt : p < q
    · simp only [if_pos hlt]
      cases rule with
      | binary =>
        obtain ⟨op, hkind, rfl⟩ := Grammar.eq_sign_of_tail htail
        refine (binaryRule_prompt hparts hkind (hgo op hkind)).bind ?_
        rintro left' ts s₁ ⟨hleft', hstop'⟩
        have hnext := hparts.tail (hleft'.operand_of_chain hlt) (s := s₁) fun op' hop' => by
          rw [hop', Grammar.power_sign] at hstop'
          exact hleft'.chain_of_le op' (Nat.le_of_not_lt hstop')
        simpa only [List.append_assoc] using hnext
      | call =>
        obtain ⟨hkind, rfl⟩ := Grammar.eq_openParen_of_tail htail
        cases left with
        | var f line =>
          refine (callRule_prompt hparts hkind hstop).bind ?_
          intro left' ts s₁ hleft'
          have hnext := hparts.tail (hleft'.operand_of_unary p) (s := s₁)
            fun op _ => .ofOperand (hleft'.operand_of_unary op.power)
          simpa only [List.append_assoc] using hnext
        | number | string | bool | negate | binary | call =>
          -- the expression could end before the parenthesis
          exact (Prompt.unexpectedHere _ (exists_tail hstop)).congr_current fun _ _ => rfl
    · simp only [if_neg hlt]
      refine .pure ⟨hend, not_lt_power_of_tail ?_⟩
      intro q' rule' h
      cases htail.symm.trans h
      exact hlt

/-! ## Lists in parentheses -/

theorem exists_closed {α : Type} {items : List α → List Token → Prop} (hnil : items [] [])
    (hone : ∃ as us, items as us ∧ us ≠ []) (s : Stream) :
    ∃ as ts, ∃ _ : Stream, Closed items s as ts := by
  have hclose : ∀ {as us}, items as us → (s.kind = .sign .closeParen ↔ us = []) →
      Closed items s as (us ++ [{ kind := .sign .closeParen, value := ")", span := default }]) :=
    fun has hiff => ⟨_, _, rfl, rfl, has, hiff⟩
  by_cases hkind : s.kind = .sign .closeParen
  · exact ⟨_, _, s, hclose hnil (by simp [hkind])⟩
  · obtain ⟨as, us, has, hne⟩ := hone
    exact ⟨_, _, s, hclose has (by simp [hkind, hne])⟩

theorem exists_arguments (s : Stream) : ∃ es ts, ∃ _ : Stream,
    Closed (fun es us => Derives Number.Read (.arguments es) us) s es ts := by
  obtain ⟨e, us, he⟩ := Derives.exists_unary Number.Read
  have hne : us ≠ [] := List.ne_nil_of_length_pos (he.length_pos trivial)
  exact exists_closed .noArgument ⟨_, us, .lastArgument (he.operand_of_unary .default), hne⟩ s

theorem exists_params (s : Stream) : ∃ ps ts, ∃ _ : Stream,
    Closed (fun ps us => Derives Number.Read (.params ps) us) s ps ts := by
  have hparam : Derives Number.Read (.params [("x", .int)]) _ := .lastParam
    (x := { kind := .identifier, value := "x", span := default })
    (c := { kind := .sign .colon, value := ":", span := default })
    (y := { kind := .identifier, value := Ty.int.name, span := default }) rfl rfl ⟨rfl, rfl⟩
  exact exists_closed .noParam ⟨_, _, hparam, List.cons_ne_nil _ _⟩ s

/-- What follows an item of a list: the closing parenthesis, or a comma and the rest of the list. -/
theorem separated_prompt {α : Type} {list : Parser (List α)} {wanted : String}
    {items : List α → List Token → Prop}
    (hlist : ∀ s' : Stream, list.Prompt s' fun as ts _ => Closed items s' as ts) (a : α) :
    (do
      if (← kind) ≠ .sign .closeParen then
        let _ ← expectHere (.sign .comma) wanted
      let rest ← list
      pure (a :: rest) : Parser (List α)).Prompt s fun as ts _ =>
        ∃ as' us c, as = a :: as' ∧ ts = us ++ [c] ∧ c.kind = .sign .closeParen ∧
          (us = [] ∧ items as' [] ∨
            ∃ t vs, us = t :: vs ∧ t.kind = .sign .comma ∧ items as' vs) := by
  refine .kind_bind ?_
  split
  · refine (Prompt.expectHere (by simp) _).bind ?_
    rintro t _ s₁ ⟨ht, rfl⟩
    refine (hlist s₁).bind ?_
    rintro as' _ s₂ ⟨us, c, rfl, hc, has, -⟩
    exact .pure ⟨as', t :: us, c, rfl, by simp, hc, .inr ⟨t, us, rfl, ht, has⟩⟩
  · next hkind =>
    refine (hlist s).bind ?_
    rintro as' _ s₁ ⟨us, c, rfl, hc, has, hiff⟩
    cases hiff.1 (by simpa using hkind)
    exact .pure ⟨as', [], c, rfl, by simp, hc, .inl ⟨rfl, has⟩⟩

/-- The closing parenthesis of a list without items. -/
theorem close_prompt {α : Type} {items : List α → List Token → Prop} (hnil : items [] [])
    (hkind : s.kind = .sign .closeParen) :
    (do let _ ← advance; pure [] : Parser (List α)).Prompt s fun as ts _ =>
      Closed items s as ts := by
  refine (Prompt.advance (by simp [hkind])).bind ?_
  rintro t _ s₁ ⟨rfl, rfl⟩
  exact .pure ⟨[], s.current, rfl, hkind, hnil, by simp [hkind]⟩

theorem argumentsRule_prompt (hparts : parts.Prompt) :
    parts.argumentsRule.Prompt s fun es ts _ =>
      Closed (fun es us => Derives Number.Read (.arguments es) us) s es ts := by
  refine .kind_bind ?_
  split
  · next hkind => exact close_prompt .noArgument hkind
  · next hkind =>
    refine (hparts.expr .default s).bind ?_
    rintro e ts s₁ ⟨he, -⟩
    have hpos := he.length_pos (by simp)
    refine (separated_prompt hparts.arguments e).imp ?_
    rintro es _ _ ⟨es', us, c, rfl, rfl, hc, ⟨rfl, hes⟩ | ⟨t, vs, rfl, ht, hes⟩⟩
    · cases hes.eq_nil_of_arguments
      refine ⟨ts, c, by simp, hc, .lastArgument he, iff_of_false hkind ?_⟩
      exact List.ne_nil_of_length_pos hpos
    · exact ⟨ts ++ t :: vs, c, by simp, hc, .moreArguments he ht hes, iff_of_false hkind (by simp)⟩

theorem paramsRule_prompt (hparts : parts.Prompt) :
    parts.paramsRule.Prompt s fun ps ts _ =>
      Closed (fun ps us => Derives Number.Read (.params ps) us) s ps ts := by
  refine .kind_bind ?_
  split
  · next hkind => exact close_prompt .noParam hkind
  · next hkind =>
    refine (Prompt.expectHere (by simp) _).bind ?_
    rintro x _ s₁ ⟨hx, rfl⟩
    refine (Prompt.expectHere (by simp) _).bind ?_
    rintro k _ s₂ ⟨hk, rfl⟩
    refine Prompt.ty.bind ?_
    rintro ty _ s₃ ⟨y, hy, rfl⟩
    refine (separated_prompt hparts.params (x.value, ty)).imp ?_
    rintro ps _ _ ⟨ps', us, c, rfl, rfl, hc, ⟨rfl, hps⟩ | ⟨t, vs, rfl, ht, hps⟩⟩
    · cases hps
      exact ⟨[x, k, y], c, by simp, hc, .lastParam hx hk hy, iff_of_false hkind (by simp)⟩
    · exact ⟨x :: k :: y :: t :: vs, c, by simp, hc, .moreParams hx hk hy ht hps,
        iff_of_false hkind (by simp)⟩

/-! ## Statements -/

theorem exists_body : ∃ (_ : List ParsedStmt) (ts : List Token) (_ : Stream),
    ∃ body us c, ts = us ++ [c] ∧ c.kind = .sign .closeCurly ∧
      Derives Number.Read (.stmts body) us :=
  ⟨[], _, default, [], [], { kind := .sign .closeCurly, value := "", span := default }, rfl, rfl,
    .noStmt⟩

theorem bodyRule_prompt (hparts : parts.Prompt) :
    parts.bodyRule.Prompt s fun _ ts _ =>
      ∃ body us c, ts = us ++ [c] ∧ c.kind = .sign .closeCurly ∧
        Derives Number.Read (.stmts body) us := by
  have hchoose : ∀ s₁ : Stream, s₁.current = s.current → parts.bodyRule s₁ =
      (if s.kind = .sign .closeCurly then (do let _ ← advance; pure [] : Parser _)
      else if s.kind = .eof then unexpectedHere "expected '\x7d' to close the block"
      else (do
        let first ← parts.stmt
        let rest ← parts.body
        pure (first :: rest) : Parser _)) s₁ := by
    intro s₁ hcurrent
    rw [bodyRule_apply, Stream.kind, hcurrent, Stream.kind]
    split
    · rfl
    · split <;> rfl
  refine Prompt.congr_current ?_ hchoose
  split
  · next hkind =>
    refine (Prompt.advance (by simp [hkind])).bind ?_
    rintro t _ s₁ ⟨rfl, rfl⟩
    exact .pure ⟨[], [], s.current, rfl, hkind, .noStmt⟩
  split
  · exact .unexpectedHere _ exists_body
  · refine (hparts.stmt s).bind ?_
    rintro _ ts s₁ ⟨st, hst⟩
    refine (hparts.body s₁).bind ?_
    rintro _ _ s₂ ⟨body, us, c, rfl, hc, hbody⟩
    exact .pure ⟨st :: body, ts ++ us, c, by simp, hc, .moreStmts hst hbody⟩

theorem blockRule_prompt (hparts : parts.Prompt) :
    parts.blockRule.Prompt s fun _ ts _ => ∃ body, Derives Number.Read (.block body) ts := by
  refine (Prompt.expectHere (by simp) _).bind ?_
  rintro o _ s₁ ⟨ho, rfl⟩
  refine (hparts.body s₁).imp ?_
  rintro _ _ _ ⟨body, us, c, rfl, hc, hbody⟩
  exact ⟨body, .block ho hbody hc⟩

theorem declarationRule_prompt (hparts : parts.Prompt) {m : Bool}
    (hkind : s.kind = .keyword (if m then .mutKw else .letKw)) :
    parts.declarationRule.Prompt s fun _ ts _ => ∃ st, Derives Number.Read (.stmt st) ts := by
  refine (Prompt.advance (by simp [hkind])).bind ?_
  rintro t _ s₁ ⟨rfl, rfl⟩
  refine (Prompt.expectHere (by simp) _).bind ?_
  rintro x _ s₂ ⟨hx, rfl⟩
  refine (Prompt.expectHere (by simp) _).bind ?_
  rintro c _ s₃ ⟨hc, rfl⟩
  refine Prompt.ty.bind ?_
  rintro ty _ s₄ ⟨y, hy, rfl⟩
  refine (Prompt.expectHere (by simp) _).bind ?_
  rintro a _ s₅ ⟨ha, rfl⟩
  refine (hparts.expr .default s₅).bind ?_
  rintro e ts s₆ ⟨he, -⟩
  refine (Prompt.expect (by simp)).bind ?_
  rintro z _ s₇ ⟨hz, rfl⟩
  exact .pure ⟨_, by simpa using Derives.declare hkind hx hc hy ha he hz⟩

theorem assignmentRule_prompt (hparts : parts.Prompt) :
    parts.assignmentRule.Prompt s fun _ ts _ => ∃ st, Derives Number.Read (.stmt st) ts := by
  refine (Prompt.expect (by simp)).bind ?_
  rintro x _ s₁ ⟨hx, rfl⟩
  refine (Prompt.expect (by simp)).bind ?_
  rintro a _ s₂ ⟨ha, rfl⟩
  refine (hparts.expr .default s₂).bind ?_
  rintro e ts s₃ ⟨he, -⟩
  refine (Prompt.expect (by simp)).bind ?_
  rintro z _ s₄ ⟨hz, rfl⟩
  exact .pure ⟨_, by simpa using Derives.assign hx ha he hz⟩

theorem elseRule_prompt (hparts : parts.Prompt) :
    parts.elseRule.Prompt s fun _ ts _ => ∃ body, Derives Number.Read (.otherwise body) ts := by
  refine .kind_bind ?_
  split
  · next hkind =>
    refine (Prompt.advance (by simp [hkind])).bind ?_
    rintro t _ s₁ ⟨rfl, rfl⟩
    refine .kind_bind ?_
    split
    · next hif =>
      refine (hparts.branch hif).bind ?_
      rintro _ ts s₂ ⟨st, hst⟩
      exact .pure ⟨_, by simpa using Derives.elseBranch hkind hst⟩
    · refine (blockRule_prompt hparts).imp ?_
      rintro _ ts _ ⟨body, hbody⟩
      exact ⟨body, .elseBlock hkind hbody⟩
  · exact .pure ⟨[], .noElse⟩

theorem branchRule_prompt (hparts : parts.Prompt) (hkind : s.kind = .keyword .ifKw) :
    parts.branchRule.Prompt s fun _ ts _ => ∃ st, Derives Number.Read (.branch st) ts := by
  refine (Prompt.advance (by simp [hkind])).bind ?_
  rintro t _ s₁ ⟨rfl, rfl⟩
  refine (hparts.expr .default s₁).bind ?_
  rintro e ts s₂ ⟨he, -⟩
  refine (blockRule_prompt hparts).bind ?_
  rintro _ us s₃ ⟨body, hbody⟩
  refine (elseRule_prompt hparts).bind ?_
  rintro _ vs s₄ ⟨other, hother⟩
  exact .pure ⟨_, by simpa using Derives.branch hkind he hbody hother⟩

theorem loopRule_prompt (hparts : parts.Prompt) (hkind : s.kind = .keyword .whileKw) :
    parts.loopRule.Prompt s fun _ ts _ => ∃ st, Derives Number.Read (.stmt st) ts := by
  refine (Prompt.advance (by simp [hkind])).bind ?_
  rintro t _ s₁ ⟨rfl, rfl⟩
  refine (hparts.expr .default s₁).bind ?_
  rintro e ts s₂ ⟨he, -⟩
  refine (blockRule_prompt hparts).bind ?_
  rintro _ us s₃ ⟨body, hbody⟩
  exact .pure ⟨_, by simpa using Derives.loop hkind he hbody⟩

theorem returnsRule_prompt :
    returnsRule.Prompt s fun ty ts _ => Derives Number.Read (.returns ty) ts := by
  refine .kind_bind ?_
  split
  · next hkind =>
    refine (Prompt.advance (by simp [hkind])).bind ?_
    rintro t _ s₁ ⟨rfl, rfl⟩
    refine Prompt.ty.imp ?_
    rintro ty _ _ ⟨y, hy, rfl⟩
    exact .someReturns hkind hy
  · exact .pure .noReturns

theorem functionRule_prompt (hparts : parts.Prompt) (hkind : s.kind = .keyword .fnKw) :
    parts.functionRule.Prompt s fun _ ts _ => ∃ st, Derives Number.Read (.stmt st) ts := by
  refine (Prompt.advance (by simp [hkind])).bind ?_
  rintro t _ s₁ ⟨rfl, rfl⟩
  refine (Prompt.expectHere (by simp) _).bind ?_
  rintro x _ s₂ ⟨hx, rfl⟩
  refine (Prompt.expect (by simp)).bind ?_
  rintro o _ s₃ ⟨ho, rfl⟩
  refine (hparts.params s₃).bind ?_
  rintro ps _ s₄ ⟨ts, c, rfl, hc, hps, -⟩
  refine returnsRule_prompt.bind ?_
  intro ty us s₅ hty
  refine (blockRule_prompt hparts).bind ?_
  rintro _ vs s₆ ⟨body, hbody⟩
  exact .pure ⟨_, by simpa using Derives.function hkind hx ho hps hc hty hbody⟩

theorem retRule_prompt (hparts : parts.Prompt) (hkind : s.kind = .keyword .returnKw) :
    parts.retRule.Prompt s fun _ ts _ => ∃ st, Derives Number.Read (.stmt st) ts := by
  refine (Prompt.advance (by simp [hkind])).bind ?_
  rintro t _ s₁ ⟨rfl, rfl⟩
  refine .kind_bind ?_
  split
  · next hend =>
    refine (Prompt.advance (by simp [hend])).bind ?_
    rintro z _ s₂ ⟨rfl, rfl⟩
    exact .pure ⟨_, .retNone hkind hend⟩
  · refine (hparts.expr .default s₁).bind ?_
    rintro e ts s₂ ⟨he, -⟩
    refine (Prompt.expect (by simp)).bind ?_
    rintro z _ s₃ ⟨hz, rfl⟩
    exact .pure ⟨_, by simpa using Derives.retSome hkind he hz⟩

theorem printRule_prompt (hparts : parts.Prompt) (hkind : s.kind = .keyword .printKw) :
    parts.printRule.Prompt s fun _ ts _ => ∃ st, Derives Number.Read (.stmt st) ts := by
  refine (Prompt.advance (by simp [hkind])).bind ?_
  rintro t _ s₁ ⟨rfl, rfl⟩
  refine (Prompt.expectHere (by simp) _).bind ?_
  rintro o _ s₂ ⟨ho, rfl⟩
  refine .kind_bind ?_
  split
  · -- behind the opening parenthesis there could be a value
    obtain ⟨e, us, he⟩ := Derives.exists_unary Number.Read
    have hprint := Derives.print hkind ho (.lastArgument (he.operand_of_unary .default)) (by simp)
      (c := { kind := .sign .closeParen, value := ")", span := default })
      (z := { kind := .sign .semicolon, value := ";", span := default }) rfl rfl
    exact .unexpectedHere _ ⟨default, _, default, _, hprint⟩
  · next hsome =>
    refine (hparts.arguments s₂).bind ?_
    rintro es _ s₃ ⟨us, c, rfl, hc, hes, hiff⟩
    refine (Prompt.expect (by simp)).bind ?_
    rintro z _ s₄ ⟨hz, rfl⟩
    have hne : es ≠ [] := by
      rintro rfl
      cases hes
      exact hsome (hiff.2 rfl)
    exact .pure ⟨_, by simpa using Derives.print hkind ho hes hne hc hz⟩

theorem exprStmtRule_prompt (hparts : parts.Prompt) :
    parts.exprStmtRule.Prompt s fun _ ts _ => ∃ st, Derives Number.Read (.stmt st) ts := by
  refine .line_bind ?_
  refine (hparts.expr .default s).bind ?_
  rintro e ts s₁ ⟨he, -⟩
  refine (Prompt.expect (by simp)).bind ?_
  rintro z _ s₂ ⟨hz, rfl⟩
  obtain ⟨t, ts, rfl⟩ := List.exists_cons_of_length_pos (he.length_pos (by simp))
  exact .pure ⟨_, by simpa using Derives.exprStmt he hz⟩

theorem stmtRule_prompt (hparts : parts.Prompt) {rule : StmtRule}
    (hstmt : chalk.stmt s.kind = some rule) :
    (parts.stmtRule rule).Prompt s fun _ ts _ => ∃ st, Derives Number.Read (.stmt st) ts := by
  simp only [Grammar.chalk] at hstmt
  split at hstmt <;> cases hstmt
  · next hkind => exact declarationRule_prompt hparts (m := false) hkind
  · next hkind => exact declarationRule_prompt hparts (m := true) hkind
  · next hkind =>
    refine (branchRule_prompt hparts hkind).imp ?_
    rintro _ ts _ ⟨st, hst⟩
    exact ⟨st, .ofBranch hst⟩
  · next hkind => exact loopRule_prompt hparts hkind
  · next hkind => exact functionRule_prompt hparts hkind
  · next hkind => exact retRule_prompt hparts hkind
  · next hkind => exact printRule_prompt hparts hkind

theorem programRule_prompt (hparts : parts.Prompt) :
    parts.programRule.Prompt s fun _ ts s' =>
      s'.kind = .eof ∧ ∃ body, Derives Number.Read (.stmts body) ts := by
  refine .kind_bind ?_
  split
  · next hkind => exact .pure ⟨hkind, [], .noStmt⟩
  · refine (hparts.stmt s).bind ?_
    rintro _ ts s₁ ⟨st, hst⟩
    refine (hparts.program s₁).bind ?_
    rintro _ us s₂ ⟨hend, body, hbody⟩
    exact .pure ⟨hend, _, by simpa using Derives.moreStmts hst hbody⟩

end Parts

namespace Grammar

theorem Settles.ne_failed {α : Type} {rule : Parts → Parser α} {s s' : Stream} {a : α}
    (h : Settles rule s (.done a s'))
    (hrule : ∀ {P Q : Parts}, P.Le Q → (rule P).Le (rule Q)) (n : Nat) (e : SyntaxError)
    (r : Stream) : rule (chalk.parts n) s ≠ .failed e r := by
  intro hfailed
  have hdone := h.eq_of_run hrule (n := n) (by rw [hfailed]; nofun)
  cases hdone.symm.trans hfailed

/-- A name can begin an expression that is a statement, and an assignment. -/
theorem settles_name {x : Token} (hx : x.kind = .identifier) :
    (∃ s₀ a s', s₀.current = x ∧ Settles (·.exprStmtRule) s₀ (.done a s')) ∧
      ∃ s₀ a s', s₀.current = x ∧ Settles (·.assignmentRule) s₀ (.done a s') := by
  let equals : Token := { kind := .sign .assignment, value := "=", span := default }
  let semicolon : Token := { kind := .sign .semicolon, value := ";", span := default }
  have hvar : Derives Number.Read (.expr (.var x.value (some x.line))) [x] :=
    (Derives.ofAtom (.var hx)).operand_of_unary .default
  have hvalue : Settles (·.expr .default) ⟨x, [semicolon]⟩ (.done _ ⟨semicolon, []⟩) :=
    (hvar.accepts id).expr rfl rfl
  have hend : Settles (fun _ => expect (.sign .semicolon)) ⟨semicolon, []⟩ _ := .expect rfl
  have hequals : Settles (fun _ => expect (.sign .assignment)) ⟨equals, [x, semicolon]⟩ _ :=
    .expect rfl
  have hstmt : Settles (·.exprStmtRule) ⟨x, [semicolon]⟩
      (.done (.expr (.var x.value (some x.line)) (some x.line)) ⟨semicolon, []⟩) :=
    .bind (.of_eq rfl) (hvalue.bind (hend.bind (.pure _ _)))
  have hassign : Settles (·.assignmentRule) ⟨x, [equals, x, semicolon]⟩
      (.done (.assign x.value (.var x.value (some x.line)) (some x.line)) ⟨semicolon, []⟩) :=
    (Settles.expect hx).bind (hequals.bind (hvalue.bind (hend.bind (.pure _ _))))
  exact ⟨⟨_, _, _, rfl, hstmt⟩, _, _, _, rfl, hassign⟩

end Grammar

namespace Parts

/-- Whether a name begins an assignment shows at the token behind it. In either case the name is
passed, and a fault shows behind it. -/
theorem anyStmtRule_prompt {n : Nat} (hparts : (chalk.parts n).Prompt) {s : Stream} :
    ((chalk.parts n).anyStmtRule chalk).Prompt s fun _ ts _ =>
      ∃ st, Derives Number.Read (.stmt st) ts := by
  have hne : ∀ (_ : ParsedStmt) (ts : List Token) (_ : Stream),
      (∃ st, Derives Number.Read (.stmt st) ts) → ts ≠ [] := by
    rintro _ ts _ ⟨st, hst⟩
    exact List.ne_nil_of_length_pos (hst.length_pos trivial)
  refine .kind_bind ?_
  cases hstmt : chalk.stmt s.kind with
  | some rule => exact stmtRule_prompt hparts hstmt
  | none =>
    by_cases hname : s.kind = .identifier
    · obtain ⟨⟨s₀, _, _, hs₀, hsettles⟩, s₀', _, _, hs₀', hsettles'⟩ := settles_name hname
      by_cases hnext : s.nextKind = .sign .assignment
      · refine (assignmentRule_prompt hparts).congr_next hne
          ⟨s₀', hs₀', hsettles'.ne_failed (·.assignmentRule) n⟩ fun s₁ _ hnext₁ => ?_
        exact congrFun (if_pos ⟨hname, hnext₁.trans hnext⟩) s₁
      · refine (exprStmtRule_prompt hparts).congr_next hne
          ⟨s₀, hs₀, hsettles.ne_failed (·.exprStmtRule) n⟩ fun s₁ _ hnext₁ => ?_
        exact congrFun (if_neg fun h => hnext (hnext₁.symm.trans h.2)) s₁
    · exact (exprStmtRule_prompt hparts).congr_current fun s₁ _ =>
        congrFun (if_neg fun h => hname h.1) s₁

end Parts

/-- The parts of the grammar are prompt to any depth. -/
theorem Grammar.parts_prompt (n : Nat) : (chalk.parts n).Prompt := by
  induction n with
  | zero =>
    obtain ⟨st, ts, hst⟩ := Derives.exists_stmt Number.Read
    obtain ⟨br, bs, hbr⟩ := Derives.exists_branch Number.Read
    obtain ⟨s', hend⟩ := Stream.exists_end
    refine ⟨fun p s => .of_cut rfl (Parts.exists_expr p), fun hstop _ => ?_, fun s => ?_,
      fun s => ?_, fun s => ?_, fun hkind => ?_, fun s => ?_, fun s => ?_⟩
    · exact .of_cut rfl (Parts.exists_tail hstop)
    · exact .of_cut rfl (Parts.exists_arguments s)
    · exact .of_cut rfl (Parts.exists_params s)
    · exact .of_cut rfl ⟨st, ts, default, st, hst⟩
    · exact .of_cut rfl ⟨br, bs, default, br, hbr⟩
    · exact .of_cut rfl Parts.exists_body
    · exact .of_cut rfl ⟨[], [], s', hend, [], .noStmt⟩
  | succ n ih =>
    exact ⟨fun p _ => Parts.exprRule_prompt ih p, Parts.tailsRule_prompt ih,
      fun _ => Parts.argumentsRule_prompt ih, fun _ => Parts.paramsRule_prompt ih,
      fun _ => Parts.anyStmtRule_prompt ih, Parts.branchRule_prompt ih,
      fun _ => Parts.bodyRule_prompt ih, fun _ => Parts.programRule_prompt ih⟩

end Chalk
