import Chalk.Proofs.Grammar.Reading

/-!
# The rules read what the grammar derives

Each rule, given sound parts, reads tokens that make up its phrase, and passes no end of the text on
the way. The parts of the grammar are sound to any depth (`Grammar.parts_sound`), by induction on
it: the depth a part needs is bounded by the tokens that are left, and falls by at least one from a
rule to the parts it starts, since a rule that starts itself again has passed a token before.

The loop that goes on with an expression keeps two facts about what was read already: it could end
here, and whichever operator comes next, it is a chain of that operator's power.
-/

namespace Chalk

open Chalk.Parser

/-! ## The tables -/

namespace Grammar

variable {k : Token.Kind} {p : Power}

@[simp] theorem tail_sign (op : Operator) :
    chalk.tail (.sign op.sign) = some (op.power, .binary) := by
  cases op <;> rfl

@[simp] theorem power_sign (op : Operator) : chalk.power (.sign op.sign) = op.power := by
  cases op <;> rfl

theorem eq_sign_of_tail (h : chalk.tail k = some (p, .binary)) :
    ∃ op : Operator, k = .sign op.sign ∧ p = op.power := by
  simp only [chalk] at h
  split at h <;> cases h
  · exact ⟨.less, rfl, rfl⟩
  · exact ⟨.lessEquals, rfl, rfl⟩
  · exact ⟨.greater, rfl, rfl⟩
  · exact ⟨.greaterEquals, rfl, rfl⟩
  · exact ⟨.equals, rfl, rfl⟩
  · exact ⟨.notEquals, rfl, rfl⟩
  · exact ⟨.add, rfl, rfl⟩
  · exact ⟨.subtract, rfl, rfl⟩
  · exact ⟨.multiply, rfl, rfl⟩
  · exact ⟨.divide, rfl, rfl⟩

theorem eq_openParen_of_tail (h : chalk.tail k = some (p, .call)) :
    k = .sign .openParen ∧ p = .call := by
  simp only [chalk] at h
  split at h <;> cases h
  exact ⟨rfl, rfl⟩

theorem ne_eof_of_head {rule : HeadRule} (h : chalk.head k = some rule) : k ≠ .eof := by
  rintro rfl
  cases h

theorem primary_of_head (h : chalk.head k = some .primary) :
    k = .number ∨ k = .identifier ∨ k = .string ∨
      ∃ b : Bool, k = .keyword (if b then .trueKw else .falseKw) := by
  simp only [chalk] at h
  split at h <;> cases h
  · exact .inl rfl
  · exact .inr (.inl rfl)
  · exact .inr (.inr (.inl rfl))
  · exact .inr (.inr (.inr ⟨true, rfl⟩))
  · exact .inr (.inr (.inr ⟨false, rfl⟩))

theorem dash_of_head (h : chalk.head k = some .negation) : k = .sign .dash := by
  simp only [chalk] at h
  split at h <;> cases h
  rfl

theorem openParen_of_head (h : chalk.head k = some .group) : k = .sign .openParen := by
  simp only [chalk] at h
  split at h <;> cases h
  rfl

end Grammar

@[simp] theorem Operator.ofKind?_sign (op : Operator) : ofKind? (.sign op.sign) = some op := by
  cases op <;> rfl

namespace Parts

/-- Parts that read what the grammar derives, and are not cut short where the depth is enough. -/
structure Sound (reads : String → Number → Prop) (depth : Nat) (parts : Parts) : Prop where
  expr {s : Stream} (p : Power) (hs : s.Proper reads) (hd : 2 * s.later.length + 1 ≤ depth) :
    (parts.expr p s).Yields s fun e ts s' =>
      Derives reads (.operand p e) ts ∧ ¬ p < Grammar.chalk.power s'.kind
  tail {s : Stream} {p : Power} {left : ParsedExpr} {ls : List Token} (hs : s.Proper reads)
    (hd : 2 * s.later.length + 1 ≤ depth) (hstop : Derives reads (.operand p left) ls)
    (hgo : ∀ op : Operator, s.kind = .sign op.sign → Derives reads (.chain op.power left) ls) :
    (parts.tail p left s).Yields s fun e ts s' =>
      Derives reads (.operand p e) (ls ++ ts) ∧ ¬ p < Grammar.chalk.power s'.kind
  arguments {s : Stream} (hs : s.Proper reads) (hd : 2 * s.later.length + 2 ≤ depth) :
    (parts.arguments s).Yields s fun es ts _ =>
      ∃ us c, ts = us ++ [c] ∧ c.kind = .sign .closeParen ∧ Derives reads (.arguments es) us ∧
        (s.kind = .sign .closeParen → us = [])
  params {s : Stream} (hs : s.Proper reads) (hd : 2 * s.later.length + 1 ≤ depth) :
    (parts.params s).Yields s fun ps ts _ =>
      ∃ us c, ts = us ++ [c] ∧ c.kind = .sign .closeParen ∧ Derives reads (.params ps) us ∧
        (s.kind = .sign .closeParen → us = [])
  stmt {s : Stream} (hs : s.Proper reads) (hd : 2 * s.later.length + 2 ≤ depth) :
    (parts.stmt s).Yields s fun st ts _ => Derives reads (.stmt st) ts
  branch {s : Stream} (hs : s.Proper reads) (hd : 2 * s.later.length + 2 ≤ depth)
    (hkind : s.kind = .keyword .ifKw) :
    (parts.branch s).Yields s fun st ts _ => Derives reads (.branch st) ts
  body {s : Stream} (hs : s.Proper reads) (hd : 2 * s.later.length + 3 ≤ depth) :
    (parts.body s).Yields s fun body ts _ =>
      ∃ us c, ts = us ++ [c] ∧ c.kind = .sign .closeCurly ∧ Derives reads (.stmts body) us
  program {s : Stream} (hs : s.Proper reads) (hd : 2 * s.later.length + 3 ≤ depth) :
    (parts.program s).Yields s fun body ts s' =>
      s'.kind = .eof ∧ Derives reads (.stmts body) ts

variable {reads : String → Number → Prop} {depth : Nat} {parts : Parts} {s : Stream}

/-! ## Expressions -/

theorem primaryRule_yields (hs : s.Proper reads)
    (hhead : Grammar.chalk.head s.kind = some .primary) :
    (primaryRule s).Yields s fun e ts _ => Derives reads (.atom e) ts := by
  refine (advance_yields hs (Grammar.ne_eof_of_head hhead)).bind hs ?_
  intro t _ s' _ _ h
  obtain ⟨rfl, rfl⟩ := h
  rcases Grammar.primary_of_head hhead with hk | hk | hk | ⟨b, hk⟩ <;>
    simp only [Stream.kind] at hk <;> simp only [hk]
  · cases hread : Number.read? s.current.value with
    | some v => exact .pure (.number hk (hs.reads_current hk hread))
    | none => exact failAt_yields ..
  · exact .pure (.var hk)
  · exact .pure (.string hk)
  · cases b
    · exact .pure (.bool (b := false) hk)
    · exact .pure (.bool (b := true) hk)

theorem negationRule_yields (hparts : parts.Sound reads depth) (hs : s.Proper reads)
    (hkind : s.kind = .sign .dash) (hd : 2 * s.later.length ≤ depth) :
    (parts.negationRule s).Yields s fun e ts _ => Derives reads (.unary e) ts := by
  refine (advance_yields hs (by simp [hkind])).bind hs ?_
  intro t _ s₁ hs₁ h₁ h
  obtain ⟨rfl, rfl⟩ := h
  have hlen := h₁.length
  simp only [List.length_singleton] at hlen
  refine (hparts.expr .unary hs₁ (by omega)).bind hs₁ ?_
  intro e ts s₂ _ _ h
  obtain ⟨he, -⟩ := h
  exact .pure (by simpa using Derives.negate hkind he)

theorem groupRule_yields (hparts : parts.Sound reads depth) (hs : s.Proper reads)
    (hkind : s.kind = .sign .openParen) (hd : 2 * s.later.length ≤ depth) :
    (parts.groupRule s).Yields s fun e ts _ => Derives reads (.atom e) ts := by
  refine (advance_yields hs (by simp [hkind])).bind hs ?_
  intro t _ s₁ hs₁ h₁ h
  obtain ⟨rfl, rfl⟩ := h
  have hlen := h₁.length
  simp only [List.length_singleton] at hlen
  refine (hparts.expr .default hs₁ (by omega)).bind hs₁ ?_
  intro e ts s₂ hs₂ _ h
  obtain ⟨he, -⟩ := h
  refine (expectHere_yields hs₂ (by simp)).bind hs₂ ?_
  intro c _ s₃ _ _ h
  obtain ⟨hc, rfl⟩ := h
  exact .pure (by simpa using Derives.group hkind he hc)

theorem headRule_yields (hparts : parts.Sound reads depth) (hs : s.Proper reads) {rule : HeadRule}
    (hhead : Grammar.chalk.head s.kind = some rule) (hd : 2 * s.later.length ≤ depth) :
    (parts.headRule rule s).Yields s fun e ts _ => Derives reads (.unary e) ts := by
  cases rule with
  | primary => exact (primaryRule_yields hs hhead).imp fun _ _ _ _ h => .ofAtom h
  | negation => exact negationRule_yields hparts hs (Grammar.dash_of_head hhead) hd
  | group =>
    exact (groupRule_yields hparts hs (Grammar.openParen_of_head hhead) hd).imp
      fun _ _ _ _ h => .ofAtom h

theorem exprRule_yields (hparts : parts.Sound reads depth) (hs : s.Proper reads) (p : Power)
    (hd : 2 * s.later.length ≤ depth) :
    (parts.exprRule Grammar.chalk p s).Yields s fun e ts s' =>
      Derives reads (.operand p e) ts ∧ ¬ p < Grammar.chalk.power s'.kind := by
  rw [exprRule, kind_bind]
  cases hhead : Grammar.chalk.head s.kind with
  | none => exact unexpected_yields
  | some rule =>
    refine (headRule_yields hparts hs hhead hd).bind hs ?_
    intro left ls s₁ hs₁ h₁ hleft
    have hlen := h₁.length
    have hpos := hleft.length_pos trivial
    exact hparts.tail hs₁ (by omega) (hleft.operand_of_unary p)
      fun op _ => .ofOperand (hleft.operand_of_unary op.power)

theorem binaryRule_yields (hparts : parts.Sound reads depth) (hs : s.Proper reads)
    {op : Operator} (hkind : s.kind = .sign op.sign) {left : ParsedExpr} {ls : List Token}
    (hleft : Derives reads (.chain op.power left) ls) (hd : 2 * s.later.length ≤ depth) :
    (parts.binaryRule left op.power s).Yields s fun e ts s' =>
      Derives reads (.chain op.power e) (ls ++ ts) ∧ 0 < ts.length ∧
        ¬ op.power < Grammar.chalk.power s'.kind := by
  refine (advance_yields hs (by simp [hkind])).bind hs ?_
  intro t _ s₁ hs₁ h₁ h
  obtain ⟨rfl, rfl⟩ := h
  have hop : Operator.ofKind? s.current.kind = some op := by
    rw [show s.current.kind = .sign op.sign from hkind, Operator.ofKind?_sign]
  have hlen := h₁.length
  simp only [List.length_singleton] at hlen
  simp only [hop]
  refine (hparts.expr op.power hs₁ (by omega)).bind hs₁ ?_
  intro right rs s₂ _ _ h
  obtain ⟨hright, hstop⟩ := h
  exact .pure ⟨by simpa using Derives.operation hleft hkind hright, by simp, hstop⟩

theorem callRule_yields (hparts : parts.Sound reads depth) (hs : s.Proper reads)
    (hkind : s.kind = .sign .openParen) {p : Power} {left : ParsedExpr} {ls : List Token}
    (hleft : Derives reads (.operand p left) ls) (hd : 2 * s.later.length ≤ depth) :
    (parts.callRule left s).Yields s fun e ts _ =>
      Derives reads (.unary e) (ls ++ ts) ∧ 0 < ts.length := by
  cases left with
  | var f line =>
    refine (advance_yields hs (by simp [hkind])).bind hs ?_
    intro t _ s₁ hs₁ h₁ h
    obtain ⟨rfl, rfl⟩ := h
    have hlen := h₁.length
    simp only [List.length_singleton] at hlen
    refine (hparts.arguments hs₁ (by omega)).bind hs₁ ?_
    intro es _ s₂ _ _ h
    obtain ⟨ts, c, rfl, hc, hes, -⟩ := h
    have hcallee := hleft.callee_of_var (Phrase.tree?_operand ..)
    exact .pure ⟨by simpa using Derives.call hcallee hkind hes hc, by simp⟩
  | number | string | bool | negate | binary | call => exact unexpectedHere_yields _

/-- A token that is no operator or does not bind more tightly than asked for ends an expression. -/
theorem not_lt_power_of_tail {k : Token.Kind} {p : Power}
    (h : ∀ q rule, Grammar.chalk.tail k = some (q, rule) → ¬ p < q) :
    ¬ p < Grammar.chalk.power k := by
  unfold Grammar.power
  split
  · next q rule hq => exact h q rule hq
  · intro hlt
    exact absurd (show p.rank < 0 from hlt) (Nat.not_lt_zero _)

theorem tailsRule_yields (hparts : parts.Sound reads depth) (hs : s.Proper reads) {p : Power}
    {left : ParsedExpr} {ls : List Token} (hd : 2 * s.later.length ≤ depth)
    (hstop : Derives reads (.operand p left) ls)
    (hgo : ∀ op : Operator, s.kind = .sign op.sign → Derives reads (.chain op.power left) ls) :
    (parts.tailsRule Grammar.chalk p left s).Yields s fun e ts s' =>
      Derives reads (.operand p e) (ls ++ ts) ∧ ¬ p < Grammar.chalk.power s'.kind := by
  rw [tailsRule, kind_bind]
  cases htail : Grammar.chalk.tail s.kind with
  | none => exact .pure ⟨by simpa using hstop, not_lt_power_of_tail (by simp [htail])⟩
  | some entry =>
    obtain ⟨q, rule⟩ := entry
    by_cases hlt : p < q
    · simp only [if_pos hlt]
      cases rule with
      | binary =>
        obtain ⟨op, hkind, rfl⟩ := Grammar.eq_sign_of_tail htail
        refine (binaryRule_yields hparts hs hkind (hgo op hkind) hd).bind hs ?_
        intro left' ts s₁ hs₁ h₁ h
        obtain ⟨hleft', hpos, hstop'⟩ := h
        have hlen := h₁.length
        have hnext := hparts.tail hs₁ (by omega) (hleft'.operand_of_chain hlt) fun op' hop' => by
          rw [hop', Grammar.power_sign] at hstop'
          exact hleft'.chain_of_le op' (Nat.le_of_not_lt hstop')
        simpa only [List.append_assoc] using hnext
      | call =>
        obtain ⟨hkind, rfl⟩ := Grammar.eq_openParen_of_tail htail
        refine (callRule_yields hparts hs hkind hstop hd).bind hs ?_
        intro left' ts s₁ hs₁ h₁ h
        obtain ⟨hleft', hpos⟩ := h
        have hlen := h₁.length
        have hnext := hparts.tail hs₁ (by omega) (hleft'.operand_of_unary p)
          fun op _ => .ofOperand (hleft'.operand_of_unary op.power)
        simpa only [List.append_assoc] using hnext
    · simp only [if_neg hlt]
      refine .pure ⟨by simpa using hstop, not_lt_power_of_tail ?_⟩
      intro q' rule' h
      cases htail.symm.trans h
      exact hlt

/-- What follows an item of a list: the closing parenthesis, or a comma and the rest of the list. -/
theorem separated_yields {α : Type} {list : Parser (List α)} {wanted : String}
    {items : List α → List Token → Prop} (hs : s.Proper reads)
    (hlist : ∀ {s' : Stream}, s'.Proper reads → s'.later.length ≤ s.later.length →
      (list s').Yields s' fun as ts _ =>
        ∃ us c, ts = us ++ [c] ∧ c.kind = .sign .closeParen ∧ items as us ∧
          (s'.kind = .sign .closeParen → us = [])) (a : α) :
    ((do
      if (← kind) ≠ .sign .closeParen then
        let _ ← expectHere (.sign .comma) wanted
      let rest ← list
      pure (a :: rest) : Parser (List α)) s).Yields s fun as ts _ =>
        ∃ as' us c, as = a :: as' ∧ ts = us ++ [c] ∧ c.kind = .sign .closeParen ∧
          (us = [] ∧ items as' [] ∨
            ∃ t vs, us = t :: vs ∧ t.kind = .sign .comma ∧ items as' vs) := by
  rw [kind_bind]
  split
  · refine (expectHere_yields hs (by simp)).bind hs ?_
    intro t _ s₁ hs₁ h₁ h
    obtain ⟨ht, rfl⟩ := h
    have hlen := h₁.length
    refine (hlist hs₁ (by omega)).bind hs₁ ?_
    intro as' _ s₂ _ _ h
    obtain ⟨us, c, rfl, hc, has, -⟩ := h
    exact .pure ⟨as', t :: us, c, rfl, by simp, hc, .inr ⟨t, us, rfl, ht, has⟩⟩
  · next hkind =>
    refine (hlist hs (Nat.le_refl _)).bind hs ?_
    intro as' _ s₁ _ _ h
    obtain ⟨us, c, rfl, hc, has, hnil⟩ := h
    cases hnil (by simpa using hkind)
    exact .pure ⟨as', [], c, rfl, by simp, hc, .inl ⟨rfl, has⟩⟩

theorem argumentsRule_yields (hparts : parts.Sound reads depth) (hs : s.Proper reads)
    (hd : 2 * s.later.length + 1 ≤ depth) :
    (parts.argumentsRule s).Yields s fun es ts _ =>
      ∃ us c, ts = us ++ [c] ∧ c.kind = .sign .closeParen ∧ Derives reads (.arguments es) us ∧
        (s.kind = .sign .closeParen → us = []) := by
  rw [argumentsRule, kind_bind]
  split
  · next hkind =>
    refine (advance_yields hs (by simp [hkind])).bind hs ?_
    intro t _ s₁ _ _ h
    obtain ⟨rfl, rfl⟩ := h
    exact .pure ⟨[], s.current, rfl, hkind, .noArgument, fun _ => rfl⟩
  · next hkind =>
    refine (hparts.expr .default hs hd).bind hs ?_
    intro e ts s₁ hs₁ h₁ h
    obtain ⟨he, -⟩ := h
    have hlen := h₁.length
    have hpos := he.length_pos (by simp)
    refine (separated_yields hs₁ (fun hs' hle => hparts.arguments hs' (by omega)) e).imp ?_
    intro es _ _ _ h
    obtain ⟨es', us, c, rfl, rfl, hc, ⟨rfl, hes⟩ | ⟨t, vs, rfl, ht, hes⟩⟩ := h
    · cases hes.eq_nil_of_arguments
      exact ⟨ts, c, by simp, hc, .lastArgument he, fun h => absurd h hkind⟩
    · exact ⟨ts ++ t :: vs, c, by simp, hc, .moreArguments he ht hes, fun h => absurd h hkind⟩

/-! ## Statements -/

theorem paramsRule_yields (hparts : parts.Sound reads depth) (hs : s.Proper reads)
    (hd : 2 * s.later.length ≤ depth) :
    (parts.paramsRule s).Yields s fun ps ts _ =>
      ∃ us c, ts = us ++ [c] ∧ c.kind = .sign .closeParen ∧ Derives reads (.params ps) us ∧
        (s.kind = .sign .closeParen → us = []) := by
  rw [paramsRule, kind_bind]
  split
  · next hkind =>
    refine (advance_yields hs (by simp [hkind])).bind hs ?_
    intro t _ s₁ _ _ h
    obtain ⟨rfl, rfl⟩ := h
    exact .pure ⟨[], s.current, rfl, hkind, .noParam, fun _ => rfl⟩
  · next hkind =>
    refine (expectHere_yields hs (by simp)).bind hs ?_
    intro x _ s₁ hs₁ h₁ h
    obtain ⟨hx, rfl⟩ := h
    refine (expectHere_yields hs₁ (by simp)).bind hs₁ ?_
    intro k _ s₂ hs₂ h₂ h
    obtain ⟨hk, rfl⟩ := h
    refine (ty_yields hs₂).bind hs₂ ?_
    intro ty _ s₃ hs₃ h₃ h
    obtain ⟨y, hy, rfl⟩ := h
    have hlen := ((h₁.trans h₂).trans h₃).length
    simp only [List.length_append, List.length_singleton] at hlen
    refine (separated_yields hs₃ (fun hs' hle => hparts.params hs' (by omega)) (x.value, ty)).imp ?_
    intro ps _ _ _ h
    obtain ⟨ps', us, c, rfl, rfl, hc, ⟨rfl, hps⟩ | ⟨t, vs, rfl, ht, hps⟩⟩ := h
    · cases hps
      exact ⟨[x, k, y], c, by simp, hc, .lastParam hx hk hy, fun h => absurd h hkind⟩
    · exact ⟨x :: k :: y :: t :: vs, c, by simp, hc, .moreParams hx hk hy ht hps,
        fun h => absurd h hkind⟩

theorem bodyRule_apply (parts : Parts) (s : Stream) :
    parts.bodyRule s =
      if s.kind = .sign .closeCurly then (do let _ ← advance; pure [] : Parser _) s
      else if s.kind = .eof then unexpectedHere "expected '\x7d' to close the block" s
      else
        (do let first ← parts.stmt; let rest ← parts.body; pure (first :: rest) : Parser _) s := by
  rw [bodyRule, kind_bind]
  generalize s.kind = k
  cases k with
  | sign sign => cases sign <;> rfl
  | _ => rfl

theorem bodyRule_yields (hparts : parts.Sound reads depth) (hs : s.Proper reads)
    (hd : 2 * s.later.length + 2 ≤ depth) :
    (parts.bodyRule s).Yields s fun body ts _ =>
      ∃ us c, ts = us ++ [c] ∧ c.kind = .sign .closeCurly ∧ Derives reads (.stmts body) us := by
  rw [bodyRule_apply]
  split
  · next hkind =>
    refine (advance_yields hs (by simp [hkind])).bind hs ?_
    intro t _ s₁ _ _ h
    obtain ⟨rfl, rfl⟩ := h
    exact .pure ⟨[], s.current, rfl, hkind, .noStmt⟩
  split
  · exact unexpectedHere_yields _
  · refine (hparts.stmt hs hd).bind hs ?_
    intro st ts s₁ hs₁ h₁ hst
    have hlen := h₁.length
    have hpos := hst.length_pos trivial
    refine (hparts.body hs₁ (by omega)).bind hs₁ ?_
    intro body _ s₂ _ _ h
    obtain ⟨us, c, rfl, hc, hbody⟩ := h
    exact .pure ⟨ts ++ us, c, by simp, hc, .moreStmts hst hbody⟩

theorem blockRule_yields (hparts : parts.Sound reads depth) (hs : s.Proper reads)
    (hd : 2 * s.later.length + 1 ≤ depth) :
    (parts.blockRule s).Yields s fun body ts _ => Derives reads (.block body) ts := by
  refine (expectHere_yields hs (by simp)).bind hs ?_
  intro o _ s₁ hs₁ h₁ h
  obtain ⟨ho, rfl⟩ := h
  have hlen := h₁.length
  simp only [List.length_singleton] at hlen
  refine (hparts.body hs₁ (by omega)).imp ?_
  intro body _ _ _ h
  obtain ⟨us, c, rfl, hc, hbody⟩ := h
  exact .block ho hbody hc

theorem declarationRule_yields (hparts : parts.Sound reads depth) (hs : s.Proper reads) {m : Bool}
    (hkind : s.kind = .keyword (if m then .mutKw else .letKw)) (hd : 2 * s.later.length ≤ depth) :
    (parts.declarationRule s).Yields s fun st ts _ => Derives reads (.stmt st) ts := by
  refine (advance_yields hs (by simp [hkind])).bind hs ?_
  intro t _ s₁ hs₁ h₁ h
  obtain ⟨rfl, rfl⟩ := h
  refine (expectHere_yields hs₁ (by simp)).bind hs₁ ?_
  intro x _ s₂ hs₂ h₂ h
  obtain ⟨hx, rfl⟩ := h
  refine (expectHere_yields hs₂ (by simp)).bind hs₂ ?_
  intro c _ s₃ hs₃ h₃ h
  obtain ⟨hc, rfl⟩ := h
  refine (ty_yields hs₃).bind hs₃ ?_
  intro ty _ s₄ hs₄ h₄ h
  obtain ⟨y, hy, rfl⟩ := h
  refine (expectHere_yields hs₄ (by simp)).bind hs₄ ?_
  intro a _ s₅ hs₅ h₅ h
  obtain ⟨ha, rfl⟩ := h
  have hlen := (h₁.trans (h₂.trans (h₃.trans (h₄.trans h₅)))).length
  simp only [List.length_append, List.length_singleton] at hlen
  refine (hparts.expr .default hs₅ (by omega)).bind hs₅ ?_
  intro e ts s₆ hs₆ _ h
  obtain ⟨he, -⟩ := h
  refine (expect_yields hs₆ (by simp)).bind hs₆ ?_
  intro z _ s₇ _ _ h
  obtain ⟨hz, rfl⟩ := h
  have hmutable : decide (s.current.kind = .keyword .mutKw) = m := by
    rw [show s.current.kind = _ from hkind]
    cases m <;> decide
  refine .pure ?_
  rw [hmutable]
  simpa using Derives.declare hkind hx hc hy ha he hz

theorem assignmentRule_yields (hparts : parts.Sound reads depth) (hs : s.Proper reads)
    (hd : 2 * s.later.length ≤ depth) :
    (parts.assignmentRule s).Yields s fun st ts _ => Derives reads (.stmt st) ts := by
  refine (expect_yields hs (by simp)).bind hs ?_
  intro x _ s₁ hs₁ h₁ h
  obtain ⟨hx, rfl⟩ := h
  refine (expect_yields hs₁ (by simp)).bind hs₁ ?_
  intro a _ s₂ hs₂ h₂ h
  obtain ⟨ha, rfl⟩ := h
  have hlen := (h₁.trans h₂).length
  simp only [List.length_append, List.length_singleton] at hlen
  refine (hparts.expr .default hs₂ (by omega)).bind hs₂ ?_
  intro e ts s₃ hs₃ _ h
  obtain ⟨he, -⟩ := h
  refine (expect_yields hs₃ (by simp)).bind hs₃ ?_
  intro z _ s₄ _ _ h
  obtain ⟨hz, rfl⟩ := h
  exact .pure (by simpa using Derives.assign hx ha he hz)

theorem elseRule_yields (hparts : parts.Sound reads depth) (hs : s.Proper reads)
    (hd : 2 * s.later.length ≤ depth) :
    (parts.elseRule s).Yields s fun body ts _ => Derives reads (.otherwise body) ts := by
  rw [elseRule, kind_bind]
  split
  · next hkind =>
    refine (advance_yields hs (by simp [hkind])).bind hs ?_
    intro t _ s₁ hs₁ h₁ h
    obtain ⟨rfl, rfl⟩ := h
    have hlen := h₁.length
    simp only [List.length_singleton] at hlen
    rw [kind_bind]
    split
    · next hif =>
      refine (hparts.branch hs₁ (by omega) hif).bind hs₁ ?_
      intro st ts s₂ _ _ hst
      exact .pure (by simpa using Derives.elseBranch hkind hst)
    · exact (blockRule_yields hparts hs₁ (by omega)).imp
        fun body ts _ _ hbody => .elseBlock hkind hbody
  · exact .pure .noElse

theorem branchRule_yields (hparts : parts.Sound reads depth) (hs : s.Proper reads)
    (hkind : s.kind = .keyword .ifKw) (hd : 2 * s.later.length ≤ depth) :
    (parts.branchRule s).Yields s fun st ts _ => Derives reads (.branch st) ts := by
  refine (advance_yields hs (by simp [hkind])).bind hs ?_
  intro t _ s₁ hs₁ h₁ h
  obtain ⟨rfl, rfl⟩ := h
  have hlen := h₁.length
  simp only [List.length_singleton] at hlen
  refine (hparts.expr .default hs₁ (by omega)).bind hs₁ ?_
  intro e ts s₂ hs₂ h₂ h
  obtain ⟨he, -⟩ := h
  have hlen₂ := h₂.length
  refine (blockRule_yields hparts hs₂ (by omega)).bind hs₂ ?_
  intro body us s₃ hs₃ h₃ hbody
  have hlen₃ := h₃.length
  refine (elseRule_yields hparts hs₃ (by omega)).bind hs₃ ?_
  intro other vs s₄ _ _ hother
  exact .pure (by simpa using Derives.branch hkind he hbody hother)

theorem loopRule_yields (hparts : parts.Sound reads depth) (hs : s.Proper reads)
    (hkind : s.kind = .keyword .whileKw) (hd : 2 * s.later.length ≤ depth) :
    (parts.loopRule s).Yields s fun st ts _ => Derives reads (.stmt st) ts := by
  refine (advance_yields hs (by simp [hkind])).bind hs ?_
  intro t _ s₁ hs₁ h₁ h
  obtain ⟨rfl, rfl⟩ := h
  have hlen := h₁.length
  simp only [List.length_singleton] at hlen
  refine (hparts.expr .default hs₁ (by omega)).bind hs₁ ?_
  intro e ts s₂ hs₂ h₂ h
  obtain ⟨he, -⟩ := h
  have hlen₂ := h₂.length
  refine (blockRule_yields hparts hs₂ (by omega)).bind hs₂ ?_
  intro body us s₃ _ _ hbody
  exact .pure (by simpa using Derives.loop hkind he hbody)

theorem returnsRule_yields (hs : s.Proper reads) :
    (returnsRule s).Yields s fun ty ts _ => Derives reads (.returns ty) ts := by
  rw [returnsRule, kind_bind]
  split
  · next hkind =>
    refine (advance_yields hs (by simp [hkind])).bind hs ?_
    intro t _ s₁ hs₁ _ h
    obtain ⟨rfl, rfl⟩ := h
    refine (ty_yields hs₁).imp ?_
    intro ty _ _ _ h
    obtain ⟨y, hy, rfl⟩ := h
    exact .someReturns hkind hy
  · exact .pure .noReturns

theorem functionRule_yields (hparts : parts.Sound reads depth) (hs : s.Proper reads)
    (hkind : s.kind = .keyword .fnKw) (hd : 2 * s.later.length ≤ depth) :
    (parts.functionRule s).Yields s fun st ts _ => Derives reads (.stmt st) ts := by
  refine (advance_yields hs (by simp [hkind])).bind hs ?_
  intro t _ s₁ hs₁ h₁ h
  obtain ⟨rfl, rfl⟩ := h
  refine (expectHere_yields hs₁ (by simp)).bind hs₁ ?_
  intro x _ s₂ hs₂ h₂ h
  obtain ⟨hx, rfl⟩ := h
  refine (expect_yields hs₂ (by simp)).bind hs₂ ?_
  intro o _ s₃ hs₃ h₃ h
  obtain ⟨ho, rfl⟩ := h
  have hlen := (h₁.trans (h₂.trans h₃)).length
  simp only [List.length_append, List.length_singleton] at hlen
  refine (hparts.params hs₃ (by omega)).bind hs₃ ?_
  intro ps _ s₄ hs₄ h₄ h
  obtain ⟨ts, c, rfl, hc, hps, -⟩ := h
  refine (returnsRule_yields hs₄).bind hs₄ ?_
  intro ty us s₅ hs₅ h₅ hty
  have hlen₅ := (h₄.trans h₅).length
  refine (blockRule_yields hparts hs₅ (by omega)).bind hs₅ ?_
  intro body vs s₆ _ _ hbody
  exact .pure (by simpa using Derives.function hkind hx ho hps hc hty hbody)

theorem retRule_yields (hparts : parts.Sound reads depth) (hs : s.Proper reads)
    (hkind : s.kind = .keyword .returnKw) (hd : 2 * s.later.length ≤ depth) :
    (parts.retRule s).Yields s fun st ts _ => Derives reads (.stmt st) ts := by
  refine (advance_yields hs (by simp [hkind])).bind hs ?_
  intro t _ s₁ hs₁ h₁ h
  obtain ⟨rfl, rfl⟩ := h
  have hlen := h₁.length
  simp only [List.length_singleton] at hlen
  rw [kind_bind]
  split
  · next hend =>
    refine (advance_yields hs₁ (by simp [hend])).bind hs₁ ?_
    intro z _ s₂ _ _ h
    obtain ⟨rfl, rfl⟩ := h
    exact .pure (.retNone hkind hend)
  · refine (hparts.expr .default hs₁ (by omega)).bind hs₁ ?_
    intro e ts s₂ hs₂ _ h
    obtain ⟨he, -⟩ := h
    refine (expect_yields hs₂ (by simp)).bind hs₂ ?_
    intro z _ s₃ _ _ h
    obtain ⟨hz, rfl⟩ := h
    exact .pure (by simpa using Derives.retSome hkind he hz)

theorem printRule_yields (hparts : parts.Sound reads depth) (hs : s.Proper reads)
    (hkind : s.kind = .keyword .printKw) (hd : 2 * s.later.length ≤ depth) :
    (parts.printRule s).Yields s fun st ts _ => Derives reads (.stmt st) ts := by
  refine (advance_yields hs (by simp [hkind])).bind hs ?_
  intro t _ s₁ hs₁ h₁ h
  obtain ⟨rfl, rfl⟩ := h
  refine (expectHere_yields hs₁ (by simp)).bind hs₁ ?_
  intro o _ s₂ hs₂ h₂ h
  obtain ⟨ho, rfl⟩ := h
  have hlen := (h₁.trans h₂).length
  simp only [List.length_append, List.length_singleton] at hlen
  rw [kind_bind]
  split
  · exact unexpectedHere_yields _
  · next hsome =>
    refine (hparts.arguments hs₂ (by omega)).bind hs₂ ?_
    intro es _ s₃ hs₃ h₃ h
    obtain ⟨us, c, rfl, hc, hes, -⟩ := h
    refine (expect_yields hs₃ (by simp)).bind hs₃ ?_
    intro z _ s₄ _ _ h
    obtain ⟨hz, rfl⟩ := h
    -- without a value the closing parenthesis would be the current token
    have hne : es ≠ [] := by
      rintro rfl
      cases hes
      obtain ⟨_, hcons⟩ := h₃.eq_cons (by simp)
      cases hcons
      exact hsome hc
    exact .pure (by simpa using Derives.print hkind ho hes hne hc hz)

theorem exprStmtRule_yields (hparts : parts.Sound reads depth) (hs : s.Proper reads)
    (hd : 2 * s.later.length + 1 ≤ depth) :
    (parts.exprStmtRule s).Yields s fun st ts _ => Derives reads (.stmt st) ts := by
  refine (hparts.expr .default hs hd).bind hs ?_
  intro e ts s₁ hs₁ h₁ h
  obtain ⟨he, -⟩ := h
  refine (expect_yields hs₁ (by simp)).bind hs₁ ?_
  intro z _ s₂ _ _ h
  obtain ⟨hz, rfl⟩ := h
  obtain ⟨us, rfl⟩ := h₁.eq_cons (he.length_pos (by simp))
  exact .pure (by simpa using Derives.exprStmt he hz)

theorem stmtRule_yields (hparts : parts.Sound reads depth) (hs : s.Proper reads) {rule : StmtRule}
    (hstmt : Grammar.chalk.stmt s.kind = some rule) (hd : 2 * s.later.length ≤ depth) :
    (parts.stmtRule rule s).Yields s fun st ts _ => Derives reads (.stmt st) ts := by
  simp only [Grammar.chalk] at hstmt
  split at hstmt <;> cases hstmt
  · next hkind => exact declarationRule_yields hparts hs (m := false) hkind hd
  · next hkind => exact declarationRule_yields hparts hs (m := true) hkind hd
  · next hkind =>
    exact (branchRule_yields hparts hs hkind hd).imp fun _ _ _ _ h => .ofBranch h
  · next hkind => exact loopRule_yields hparts hs hkind hd
  · next hkind => exact functionRule_yields hparts hs hkind hd
  · next hkind => exact retRule_yields hparts hs hkind hd
  · next hkind => exact printRule_yields hparts hs hkind hd

theorem anyStmtRule_yields (hparts : parts.Sound reads depth) (hs : s.Proper reads)
    (hd : 2 * s.later.length + 1 ≤ depth) :
    (parts.anyStmtRule Grammar.chalk s).Yields s fun st ts _ => Derives reads (.stmt st) ts := by
  rw [anyStmtRule, kind_bind]
  cases hstmt : Grammar.chalk.stmt s.kind with
  | some rule => exact stmtRule_yields hparts hs hstmt (by omega)
  | none =>
    show ((if s.kind = .identifier ∧ s.nextKind = .sign .assignment then parts.assignmentRule
      else parts.exprStmtRule) s).Yields s _
    split
    · exact assignmentRule_yields hparts hs (by omega)
    · exact exprStmtRule_yields hparts hs hd

theorem programRule_yields (hparts : parts.Sound reads depth) (hs : s.Proper reads)
    (hd : 2 * s.later.length + 2 ≤ depth) :
    (parts.programRule s).Yields s fun body ts s' =>
      s'.kind = .eof ∧ Derives reads (.stmts body) ts := by
  rw [programRule, kind_bind]
  split
  · next hkind => exact .pure ⟨hkind, .noStmt⟩
  · refine (hparts.stmt hs hd).bind hs ?_
    intro st ts s₁ hs₁ h₁ hst
    have hlen := h₁.length
    have hpos := hst.length_pos trivial
    refine (hparts.program hs₁ (by omega)).bind hs₁ ?_
    intro body us s₂ _ _ h
    obtain ⟨hkind, hbody⟩ := h
    exact .pure ⟨hkind, by simpa using Derives.moreStmts hst hbody⟩

end Parts

namespace Grammar

/-- The parts of the grammar are sound to any depth. -/
theorem parts_sound (reads : String → Number → Prop) (depth : Nat) :
    (chalk.parts depth).Sound reads depth := by
  induction depth with
  | zero =>
    constructor
    all_goals
      intros
      omega
  | succ depth ih =>
    constructor
    · intro s p hs hd
      exact Parts.exprRule_yields ih hs p (by omega)
    · intro s p left ls hs hd hstop hgo
      exact Parts.tailsRule_yields ih hs (by omega) hstop hgo
    · intro s hs hd
      exact Parts.argumentsRule_yields ih hs (by omega)
    · intro s hs hd
      exact Parts.paramsRule_yields ih hs (by omega)
    · intro s hs hd
      exact Parts.anyStmtRule_yields ih hs (by omega)
    · intro s hs hd hkind
      exact Parts.branchRule_yields ih hs hkind (by omega)
    · intro s hs hd
      exact Parts.bodyRule_yields ih hs (by omega)
    · intro s hs hd
      exact Parts.programRule_yields ih hs (by omega)

end Grammar

end Chalk
