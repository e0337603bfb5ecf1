import Chalk.Proofs.Grammar.Depth

/-!
# What the grammar derives, the rules read

For each phrase `Accepts` says what the rules do with tokens that make it up, whatever follows them
as long as it cannot go on with the phrase, and `Derives.accepts` shows it by induction on the
derivation. A chain of operators is built from the left, but read from its first operand on: what
holds of a derived expression is that reading it comes down to going on behind it (`Resumes`).
-/

namespace Chalk

open Chalk.Parser Chalk.Grammar

namespace Stream

/-- The tokens `ts` lie between the places `s` and `s'`. -/
def Leads (s : Stream) (ts : List Token) (s' : Stream) : Prop :=
  s.tokens = ts ++ s'.tokens

namespace Leads

variable {s s' : Stream} {t : Token} {ts us : List Token}

theorem eq_of_nil (h : s.Leads [] s') : s' = s := by
  obtain ⟨current, later⟩ := s
  obtain ⟨current', later'⟩ := s'
  simpa [Leads, tokens, eq_comm] using h

theorem cons (h : s.Leads (t :: ts) s') : t = s.current ∧ s.advance.Leads ts s' := by
  obtain ⟨current, later⟩ := s
  simp only [Leads, tokens, List.cons_append, List.cons.injEq] at h
  obtain ⟨rfl, rfl⟩ := h
  refine ⟨rfl, ?_⟩
  cases ts <;> rfl

theorem nextKind {u : Token} (h : s.Leads (t :: u :: ts) s') : s.nextKind = u.kind := by
  obtain ⟨current, later⟩ := s
  simp only [Leads, tokens, List.cons_append, List.cons.injEq] at h
  obtain ⟨rfl, rfl⟩ := h
  rfl

theorem append (h : s.Leads (ts ++ us) s') : ∃ s₁ : Stream, s.Leads ts s₁ ∧ s₁.Leads us s' := by
  cases us with
  | nil => exact ⟨s', by simpa using h, rfl⟩
  | cons u us =>
    refine ⟨⟨u, us ++ s'.tokens⟩, ?_, rfl⟩
    rw [Leads, h, List.append_assoc]
    rfl

theorem concat (h : s.Leads (ts ++ [t]) s') :
    ∃ s₁ : Stream, s.Leads ts s₁ ∧ t = s₁.current ∧ s' = s₁.advance := by
  obtain ⟨s₁, h₁, h₂⟩ := h.append
  obtain ⟨ht, h₃⟩ := h₂.cons
  exact ⟨s₁, h₁, ht, h₃.eq_of_nil⟩

end Leads

end Stream

/-! ## First tokens -/

/-- The kinds of the tokens that begin a phrase. -/
def Phrase.Begins : Phrase → Token.Kind → Prop
  | chain .., k | unary .., k | atom .., k | callee .., k | arguments .., k => (chalk.head k).isSome
  | params .., k => k = .identifier
  | returns .., k => k = .sign .arrow
  | stmt .., k | stmts .., k => (chalk.head k).isSome ∨ (chalk.stmt k).isSome
  | branch .., k => k = .keyword .ifKw
  | otherwise .., k => k = .keyword .elseKw
  | block .., k => k = .sign .openCurly

/-- No token begins both an expression and another statement. -/
theorem Grammar.stmt_eq_none_of_head {k : Token.Kind} (h : (chalk.head k).isSome) :
    chalk.stmt k = none := by
  cases k with
  | keyword w =>
    revert h
    cases w <;> decide
  | _ => rfl

/-- What begins a statement neither ends a block nor goes on with a conditional statement. -/
theorem Phrase.ne_of_begins_stmt {st : ParsedStmt} {k : Token.Kind} (h : (stmt st).Begins k) :
    k ≠ .sign .closeCurly ∧ k ≠ .eof ∧ k ≠ .keyword .elseKw := by
  refine ⟨?_, ?_, ?_⟩
  all_goals
    intro hk
    simp [hk, Begins, chalk] at h

namespace Derives

variable {reads : String → Number → Prop} {φ : Phrase} {ts us : List Token} {s s' : Stream}

theorem head?_append (h : Derives reads φ ts) (hφ : φ.IsSolid) : (ts ++ us).head? = ts.head? := by
  obtain ⟨t, ts, rfl⟩ := List.exists_cons_of_length_pos (h.length_pos hφ)
  rfl

theorem begins (h : Derives reads φ ts) : ∀ t ∈ ts.head?, φ.Begins t.kind := by
  induction h with
  | noArgument | noParam | noReturns | noElse | noStmt => simp
  | number kind | string kind | var kind | name kind | negate kind =>
    simp [kind, Phrase.Begins, chalk]
  | @bool _ b kind => cases b <;> simp [kind, Phrase.Begins, chalk]
  | group opens | parens opens => simp [opens, Phrase.Begins, chalk]
  | ofAtom _ ih | lastArgument _ ih => exact ih
  | @ofOperand p _ _ _ ih => cases p <;> exact ih
  | call h _ _ _ ih | operation h _ _ ih | moreArguments h _ _ ih =>
    rw [h.head?_append trivial]
    exact ih
  | lastParam name | moreParams name => simp [name, Phrase.Begins]
  | someReturns arrow => simp [arrow, Phrase.Begins]
  | @declare _ _ _ _ _ _ m _ _ _ keyword => cases m <;> simp [keyword, Phrase.Begins, chalk]
  | assign name => simp [name, Phrase.Begins, chalk]
  | ofBranch _ ih =>
    intro t ht
    have hkind : t.kind = .keyword .ifKw := ih t ht
    simp [hkind, Phrase.Begins, chalk]
  | loop keyword | function keyword | retNone keyword | retSome keyword | print keyword =>
    simp [keyword, Phrase.Begins, chalk]
  | exprStmt _ _ ih => exact fun t ht => .inl (ih t ht)
  | branch keyword | elseBranch keyword | elseBlock keyword => simp [keyword, Phrase.Begins]
  | block opens => simp [opens, Phrase.Begins]
  | moreStmts h _ ih =>
    rw [h.head?_append trivial]
    exact ih

theorem begins_of_leads (h : Derives reads φ ts) (hφ : φ.IsSolid) (hlead : s.Leads ts s') :
    φ.Begins s.kind := by
  obtain ⟨t, us, rfl⟩ := List.exists_cons_of_length_pos (h.length_pos hφ)
  obtain ⟨rfl, -⟩ := hlead.cons
  exact h.begins _ rfl

end Derives

/-! ## Single tokens -/

namespace Grammar.Settles

variable {s : Stream} {k : Token.Kind}

theorem advance (s : Stream) : Settles (fun _ => Parser.advance) s (.done s.current s.advance) :=
  .of_eq rfl

theorem expect (hkind : s.current.kind = k) :
    Settles (fun _ => Parser.expect k) s (.done s.current s.advance) :=
  .of_eq (if_pos hkind)

theorem expectHere (hkind : s.current.kind = k) (wanted : String) :
    Settles (fun _ => Parser.expectHere k wanted) s (.done s.current s.advance) :=
  .of_eq (if_pos hkind)

theorem ty {ty : Ty} (hty : s.current.IsType ty) :
    Settles (fun _ => Parser.ty) s (.done ty s.advance) := by
  refine .bind (.expectHere hty.1 _) (.of_eq ?_)
  rw [hty.2, Ty.ofName?_eq_some_iff.2 rfl]
  rfl

theorem pure {α : Type} (a : α) (s : Stream) :
    Settles (fun _ => (Pure.pure a : Parser α)) s (.done a s) :=
  .of_eq rfl

variable {α : Type} {c : Token.Kind → Prop} [∀ k, Decidable (c k)] {p q : Parts → Parser α}
  {r : Reply α}

/-- Where a rule looks at the current token, it goes on by one of its branches. -/
theorem kind_pos (hc : c s.kind) (h : Settles p s r) :
    Settles (fun P => do if c (← kind) then p P else q P) s r :=
  h.congr fun _ => congrFun (if_pos hc) s

theorem kind_neg (hc : ¬ c s.kind) (h : Settles q s r) :
    Settles (fun P => do if c (← kind) then p P else q P) s r :=
  h.congr fun _ => congrFun (if_neg hc) s

end Grammar.Settles

/-! ## Expressions -/

variable {reads : String → Number → Prop} {s s' s₁ : Stream} {p q : Power} {e : ParsedExpr}
  {ts : List Token}

theorem settles_expr (rule : HeadRule) {left : ParsedExpr} {r : Reply ParsedExpr}
    (hhead : chalk.head s.current.kind = some rule)
    (h : Settles (·.headRule rule) s (.done left s₁)) (htail : Settles (·.tail p left) s₁ r) :
    Settles (·.expr p) s r := by
  refine .ofExprRule ((h.bind htail).congr fun P => ?_)
  rw [Parts.exprRule, kind_bind, Stream.kind, hhead]

theorem settles_tail_stop (h : ¬ p < chalk.power s.kind) :
    Settles (·.tail p e) s (.done e s) := by
  refine .ofTailsRule ((Settles.pure e s).congr fun P => ?_)
  rw [Parts.tailsRule, kind_bind]
  unfold Grammar.power at h
  cases htail : chalk.tail s.kind with
  | none => rfl
  | some entry =>
    rw [htail] at h
    exact congrFun (if_neg h) s

theorem settles_tail_go {e' : ParsedExpr} {rule : TailRule} {r : Reply ParsedExpr}
    (htail : chalk.tail s.current.kind = some (q, rule)) (hlt : p < q)
    (h : Settles (·.tailRule e q rule) s (.done e' s₁)) (hnext : Settles (·.tail p e') s₁ r) :
    Settles (·.tail p e) s r := by
  refine .ofTailsRule ((h.bind hnext).congr fun P => ?_)
  rw [Parts.tailsRule, kind_bind, Stream.kind, htail]
  exact congrFun (if_pos hlt) s

/-- Reading an expression at a power comes down to going on behind it, where no operator follows
that binds more tightly than `q`. -/
def Resumes (q : Power) (e : ParsedExpr) (ts : List Token) (p : Power) : Prop :=
  ∀ {s s' : Stream} {r : Reply ParsedExpr}, s.Leads ts s' → ¬ q < chalk.power s'.kind →
    Settles (·.tail p e) s' r → Settles (·.expr p) s r

/-- What the rules do with the tokens of a phrase. -/
def Accepts : Phrase → List Token → Prop
  | .chain q e, ts => q.rank ≤ Power.multiplicative.rank → ∀ p, p < q → Resumes q e ts p
  | .unary e, ts => ∀ p : Power, p.rank ≤ Power.unary.rank → Resumes .unary e ts p
  | .atom e, ts => ∀ p, Resumes .call e ts p
  | .callee f line, ts => ∀ p, Resumes .call (.var f line) ts p
  | .arguments es, ts => ∀ s s' : Stream, s.Leads ts s' → s'.kind = .sign .closeParen →
      Settles (·.arguments) s (.done es s'.advance)
  | .params ps, ts => ∀ s s' : Stream, s.Leads ts s' → s'.kind = .sign .closeParen →
      Settles (·.params) s (.done ps s'.advance)
  | .returns ty, ts => ∀ s s' : Stream, s.Leads ts s' → s'.kind ≠ .sign .arrow →
      Settles (fun _ => Parts.returnsRule) s (.done ty s')
  | .stmt st, ts => ∀ s s' : Stream, s.Leads ts s' → s'.kind ≠ .keyword .elseKw →
      Settles (·.stmt) s (.done st s')
  | .branch st, ts => ∀ s s' : Stream, s.Leads ts s' → s'.kind ≠ .keyword .elseKw →
      Settles (·.branchRule) s (.done st s')
  | .otherwise body, ts => ∀ s s' : Stream, s.Leads ts s' → s'.kind ≠ .keyword .elseKw →
      Settles (·.elseRule) s (.done body s')
  | .block body, ts => ∀ s s' : Stream, s.Leads ts s' → Settles (·.blockRule) s (.done body s')
  | .stmts body, ts => ∀ s s' : Stream, s.Leads ts s' →
      (s'.kind = .sign .closeCurly → Settles (·.body) s (.done body s'.advance)) ∧
      (s'.kind = .eof → Settles (·.program) s (.done body s'))

namespace Accepts

/-- An operand of operators of power `p` is what is read at that power. -/
theorem operand (h : Accepts (.operand p e) ts) (hp : p.rank ≤ Power.unary.rank)
    (hlead : s.Leads ts s') (hstop : ¬ p < chalk.power s'.kind) :
    Settles (·.expr p) s (.done e s') := by
  have hend : Settles (·.tail p e) s' (.done e s') := settles_tail_stop hstop
  have htight : ∀ q : Power, p.rank ≤ q.rank → ¬ q < chalk.power s'.kind :=
    fun q hq hlt => hstop (Nat.lt_of_le_of_lt hq hlt)
  cases p with
  | default => exact h (by decide) .default (by decide) hlead (htight _ (by decide)) hend
  | relational => exact h (by decide) .relational (by decide) hlead (htight _ (by decide)) hend
  | additive => exact h (by decide) .additive (by decide) hlead (htight _ (by decide)) hend
  | multiplicative => exact h .multiplicative hp hlead (htight _ (by decide)) hend
  | unary => exact h .unary hp hlead hstop hend
  | call => exact absurd hp (by decide)

theorem expr (h : Accepts (.expr e) ts) (hlead : s.Leads ts s')
    (hstop : chalk.power s'.kind = .default) : Settles (·.expr .default) s (.done e s') :=
  operand h (by decide) hlead (by rw [hstop]; decide)

/-- A token that alone makes up an atom. -/
theorem primary {t : Token} (hhead : chalk.head t.kind = some .primary)
    (hrule : ∀ {s : Stream}, s.current = t → Parts.primaryRule s = .done e s.advance) :
    Accepts (.atom e) [t] := by
  intro p s s' r hlead _ htail
  obtain ⟨rfl, hnil⟩ := hlead.cons
  cases hnil.eq_of_nil
  exact settles_expr .primary hhead (.of_eq (hrule rfl)) htail

theorem number (hreads : ∀ {text v}, reads text v → Number.read? text = some v) {t : Token}
    {v : Number} (kind : t.kind = .number) (value : reads t.value v) :
    Accepts (.atom (.number v (some t.line))) [t] := by
  refine primary (by rw [kind]; rfl) fun {s} hcurrent => ?_
  subst hcurrent
  simp only [Parts.primaryRule, bind_apply, Parser.advance, kind, hreads value]
  rfl

theorem string {t : Token} (kind : t.kind = .string) :
    Accepts (.atom (.string (unescape t.value.toList) (some t.line))) [t] := by
  refine primary (by rw [kind]; rfl) fun {s} hcurrent => ?_
  subst hcurrent
  simp only [Parts.primaryRule, bind_apply, Parser.advance, kind]
  rfl

theorem bool {t : Token} {b : Bool} (kind : t.kind = .keyword (if b then .trueKw else .falseKw)) :
    Accepts (.atom (.bool b (some t.line))) [t] := by
  refine primary (by rw [kind]; cases b <;> rfl) fun {s} hcurrent => ?_
  subst hcurrent
  cases b <;> simp only [Parts.primaryRule, bind_apply, Parser.advance, kind] <;> rfl

theorem var {t : Token} (kind : t.kind = .identifier) :
    Accepts (.atom (.var t.value (some t.line))) [t] := by
  refine primary (by rw [kind]; rfl) fun {s} hcurrent => ?_
  subst hcurrent
  simp only [Parts.primaryRule, bind_apply, Parser.advance, kind]
  rfl

theorem group {o c : Token} (opens : o.kind = .sign .openParen) (inside : Accepts (.expr e) ts)
    (closes : c.kind = .sign .closeParen) : Accepts (.atom e) (o :: (ts ++ [c])) := by
  intro p s s' r hlead _ htail
  obtain ⟨rfl, hrest⟩ := hlead.cons
  obtain ⟨s₁, hlead₁, rfl, rfl⟩ := hrest.concat
  have hinside := inside.expr hlead₁ (by rw [Stream.kind, closes]; rfl)
  refine settles_expr .group (by rw [opens]; rfl) ?_ htail
  exact (Settles.advance s).bind (hinside.bind ((Settles.expectHere closes _).bind (.pure e _)))

theorem name {t : Token} (kind : t.kind = .identifier) :
    Accepts (.callee t.value (some t.line)) [t] :=
  var kind

/-- Parentheses around a callee are those around an expression that is a name. -/
theorem parens {o c : Token} {f : String} {line : Line} (opens : o.kind = .sign .openParen)
    (inside : Accepts (.callee f line) ts) (closes : c.kind = .sign .closeParen) :
    Accepts (.callee f line) (o :: (ts ++ [c])) := by
  have hinside : Accepts (.expr (.var f line)) ts := by
    intro _ p _ s s' r hlead _ htail
    exact inside p hlead (by cases chalk.power s'.kind <;> decide) htail
  exact group opens hinside closes

theorem negate {t : Token} (kind : t.kind = .sign .dash) (operand : Accepts (.unary e) ts) :
    Accepts (.unary (.negate e (some t.line))) (t :: ts) := by
  intro p hp s s' r hlead hstop htail
  obtain ⟨rfl, hrest⟩ := hlead.cons
  have hoperand : Settles (·.expr .unary) s.advance (.done e s') :=
    operand .unary (Nat.le_refl _) hrest hstop (settles_tail_stop hstop)
  refine settles_expr .negation (by rw [kind]; rfl) ?_ htail
  exact (Settles.advance s).bind (hoperand.bind (.pure _ _))

theorem ofAtom (h : Accepts (.atom e) ts) : Accepts (.unary e) ts := by
  intro p _ s s' r hlead _ htail
  exact h p hlead (by cases chalk.power s'.kind <;> decide) htail

theorem call {o c : Token} {f : String} {line : Line} {es : List ParsedExpr} {fs : List Token}
    (callee : Accepts (.callee f line) fs) (opens : o.kind = .sign .openParen)
    (arguments : Accepts (.arguments es) ts) (closes : c.kind = .sign .closeParen) :
    Accepts (.unary (.call f es line)) (fs ++ o :: (ts ++ [c])) := by
  intro p hp s s' r hlead hstop htail
  obtain ⟨s₁, hcallee, hopen⟩ := hlead.append
  obtain ⟨rfl, hrest⟩ := hopen.cons
  obtain ⟨s₂, hlead₂, rfl, rfl⟩ := hrest.concat
  have hrule : Settles (·.tailRule (.var f line) .call .call) s₁
      (.done (.call f es line) s₂.advance) :=
    (Settles.advance s₁).bind ((arguments _ _ hlead₂ closes).bind (.pure _ _))
  have hgo : Settles (·.tail p (.var f line)) s₁ r :=
    settles_tail_go (by rw [opens]; rfl) (Nat.lt_of_le_of_lt hp (by decide)) hrule htail
  exact callee p hcallee (by cases chalk.power s₁.kind <;> decide) hgo

theorem ofOperand (h : Accepts (.operand p e) ts) : Accepts (.chain p e) ts := by
  intro hp p' hlt s s' r hlead hstop htail
  have htight : ∀ q : Power, p.rank ≤ q.rank → ¬ q < chalk.power s'.kind :=
    fun q hq hlt => hstop (Nat.lt_of_le_of_lt hq hlt)
  have hlt' : ∀ q : Power, p.rank ≤ q.rank → p' < q := fun q hq => Nat.lt_of_lt_of_le hlt hq
  cases p with
  | default => exact h (by decide) p' (hlt' _ (by decide)) hlead (htight _ (by decide)) htail
  | relational => exact h (by decide) p' (hlt' _ (by decide)) hlead (htight _ (by decide)) htail
  | additive => exact h (by decide) p' (hlt' _ (by decide)) hlead (htight _ (by decide)) htail
  | multiplicative =>
    exact h p' (Nat.le_of_lt (hlt' .unary (by decide))) hlead (htight _ (by decide)) htail
  | unary | call => exact absurd hp (by decide)

theorem operation {t : Token} {op : Operator} {l r : ParsedExpr} {ls rs : List Token}
    (left : Accepts (.chain op.power l) ls) (kind : t.kind = .sign op.sign)
    (right : Accepts (.operand op.power r) rs) :
    Accepts (.chain op.power (.binary op l r l.note)) (ls ++ t :: rs) := by
  intro hp p hlt s s' reply hlead hstop htail
  obtain ⟨s₁, hleft, hsign⟩ := hlead.append
  obtain ⟨rfl, hrest⟩ := hsign.cons
  have hright : Settles (·.expr op.power) s₁.advance (.done r s') :=
    right.operand (Nat.le_trans hp (by decide)) hrest hstop
  have hrule : Settles (·.tailRule l op.power .binary) s₁ (.done (.binary op l r l.note) s') := by
    refine (Settles.advance s₁).bind ?_
    simp only [kind, Operator.ofKind?_sign]
    exact hright.bind (.pure _ _)
  have hgo : Settles (·.tail p l) s₁ reply :=
    settles_tail_go (by rw [kind, tail_sign]) hlt hrule htail
  refine left hp p hlt hleft ?_ hgo
  rw [Stream.kind, kind, power_sign]
  exact Nat.lt_irrefl _

theorem noArgument : Accepts (.arguments []) [] := by
  intro s s' hlead hkind
  cases hlead.eq_of_nil
  exact .ofArgumentsRule (.kind_pos hkind ((Settles.advance s).bind (.pure [] _)))

/-- The rest of a list behind one of its items. -/
theorem settles_separated {α : Type} {list : Parts → Parser (List α)} {as : List α} {a : α}
    {wanted : String} (hkind : s.kind = .sign .closeParen ∧ s₁ = s ∨
      s.kind = .sign .comma ∧ s₁ = s.advance) (hlist : Settles list s₁ (.done as s')) :
    Settles (fun P => (do
      if (← kind) ≠ .sign .closeParen then
        let _ ← expectHere (.sign .comma) wanted
      let rest ← list P
      pure (a :: rest) : Parser (List α))) s (.done (a :: as) s') := by
  rcases hkind with ⟨hkind, rfl⟩ | ⟨hkind, rfl⟩
  · exact .kind_neg (by simp [hkind]) (hlist.bind (.pure _ _))
  · exact .kind_pos (by simp [hkind])
      ((Settles.expectHere hkind _).bind (hlist.bind (.pure _ _)))

/-- An argument and the rest of the list. -/
theorem settles_argument {s₂ : Stream} {es : List ParsedExpr} (hd : Derives reads (.expr e) ts)
    (h : Accepts (.expr e) ts) (hlead : s.Leads ts s₁)
    (hkind : s₁.kind = .sign .closeParen ∧ s₂ = s₁ ∨ s₁.kind = .sign .comma ∧ s₂ = s₁.advance)
    (hrest : Settles (·.arguments) s₂ (.done es s')) :
    Settles (·.arguments) s (.done (e :: es) s') := by
  have hfirst : (chalk.head s.kind).isSome := hd.begins_of_leads trivial hlead
  have hstop : chalk.power s₁.kind = .default := by
    rcases hkind with ⟨hkind, -⟩ | ⟨hkind, -⟩ <;> rw [hkind] <;> rfl
  have hopen : s.kind ≠ .sign .closeParen := by
    intro hclose
    simp [hclose, chalk] at hfirst
  exact .ofArgumentsRule
    (.kind_neg hopen ((h.expr hlead hstop).bind (settles_separated hkind hrest)))

theorem lastArgument (hd : Derives reads (.expr e) ts) (h : Accepts (.expr e) ts) :
    Accepts (.arguments [e]) ts :=
  fun _ _ hlead hkind => settles_argument hd h hlead (.inl ⟨hkind, rfl⟩) (noArgument _ _ rfl hkind)

theorem moreArguments {t : Token} {es : List ParsedExpr} {us : List Token}
    (hd : Derives reads (.expr e) ts) (h : Accepts (.expr e) ts) (kind : t.kind = .sign .comma)
    (rest : Accepts (.arguments es) us) : Accepts (.arguments (e :: es)) (ts ++ t :: us) := by
  intro s s' hlead hclose
  obtain ⟨s₁, hfirst, hcomma⟩ := hlead.append
  obtain ⟨rfl, hrest⟩ := hcomma.cons
  exact settles_argument hd h hfirst (.inr ⟨kind, rfl⟩) (rest _ _ hrest hclose)

/-! ## Parameters -/

theorem noParam : Accepts (.params []) [] := by
  intro s s' hlead hkind
  cases hlead.eq_of_nil
  exact .ofParamsRule (.kind_pos hkind ((Settles.advance s).bind (.pure [] _)))

/-- A parameter and the rest of the list. -/
theorem settles_param {x c y : Token} {ty : Ty} {s₂ : Stream} {ps : List (String × Ty)}
    (name : x.kind = .identifier) (colon : c.kind = .sign .colon) (type : y.IsType ty)
    (hlead : s.Leads [x, c, y] s₁)
    (hkind : s₁.kind = .sign .closeParen ∧ s₂ = s₁ ∨ s₁.kind = .sign .comma ∧ s₂ = s₁.advance)
    (hrest : Settles (·.params) s₂ (.done ps s')) :
    Settles (·.params) s (.done ((x.value, ty) :: ps) s') := by
  obtain ⟨rfl, hcolon⟩ := hlead.cons
  obtain ⟨rfl, htype⟩ := hcolon.cons
  obtain ⟨rfl, hnil⟩ := htype.cons
  cases hnil.eq_of_nil
  have hopen : s.kind ≠ .sign .closeParen := by simp [Stream.kind, name]
  exact .ofParamsRule (.kind_neg hopen ((Settles.expectHere name _).bind
    ((Settles.expectHere colon _).bind ((Settles.ty type).bind (settles_separated hkind hrest)))))

theorem lastParam {x c y : Token} {ty : Ty} (name : x.kind = .identifier)
    (colon : c.kind = .sign .colon) (type : y.IsType ty) :
    Accepts (.params [(x.value, ty)]) [x, c, y] :=
  fun _ _ hlead hkind =>
    settles_param name colon type hlead (.inl ⟨hkind, rfl⟩) (noParam _ _ rfl hkind)

theorem moreParams {x c y t : Token} {ty : Ty} {ps : List (String × Ty)}
    (name : x.kind = .identifier) (colon : c.kind = .sign .colon) (type : y.IsType ty)
    (kind : t.kind = .sign .comma) (rest : Accepts (.params ps) ts) :
    Accepts (.params ((x.value, ty) :: ps)) (x :: c :: y :: t :: ts) := by
  intro s s' hlead hclose
  have hsplit : s.Leads ([x, c, y] ++ t :: ts) s' := hlead
  obtain ⟨s₁, hparam, hcomma⟩ := hsplit.append
  obtain ⟨rfl, hrest⟩ := hcomma.cons
  exact settles_param name colon type hparam (.inr ⟨kind, rfl⟩) (rest _ _ hrest hclose)

theorem noReturns : Accepts (.returns .void) [] := by
  intro s s' hlead hkind
  cases hlead.eq_of_nil
  exact .kind_neg hkind (.pure _ _)

theorem someReturns {a y : Token} {ty : Ty} (arrow : a.kind = .sign .arrow) (type : y.IsType ty) :
    Accepts (.returns ty) [a, y] := by
  intro s s' hlead _
  obtain ⟨rfl, htype⟩ := hlead.cons
  obtain ⟨rfl, hnil⟩ := htype.cons
  cases hnil.eq_of_nil
  exact .kind_pos arrow ((Settles.advance s).bind (.ty type))

/-! ## Statements -/

variable {body : List ParsedStmt} {us : List Token}

theorem settles_stmt (rule : StmtRule) {r : Reply ParsedStmt}
    (hstmt : chalk.stmt s.current.kind = some rule) (h : Settles (·.stmtRule rule) s r) :
    Settles (·.stmt) s r := by
  refine .ofAnyStmtRule (h.congr fun P => ?_)
  rw [Parts.anyStmtRule, kind_bind, Stream.kind, hstmt]

theorem declare {k x c y a z : Token} {m : Bool} {ty : Ty}
    (keyword : k.kind = .keyword (if m then .mutKw else .letKw)) (name : x.kind = .identifier)
    (colon : c.kind = .sign .colon) (type : y.IsType ty) (equals : a.kind = .sign .assignment)
    (value : Accepts (.expr e) ts) (ends : z.kind = .sign .semicolon) :
    Accepts (.stmt (.declare { name := x.value, ty, mutable := m } e (some k.line)))
      (k :: x :: c :: y :: a :: (ts ++ [z])) := by
  intro s s' hlead _
  obtain ⟨rfl, hname⟩ := hlead.cons
  obtain ⟨rfl, hcolon⟩ := hname.cons
  obtain ⟨rfl, htype⟩ := hcolon.cons
  obtain ⟨rfl, hequals⟩ := htype.cons
  obtain ⟨rfl, hrest⟩ := hequals.cons
  obtain ⟨s₁, hlead₁, rfl, rfl⟩ := hrest.concat
  have hvalue := value.expr hlead₁ (by rw [Stream.kind, ends]; rfl)
  have hmut : decide (s.current.kind = .keyword .mutKw) = m := by cases m <;> simp [keyword]
  refine settles_stmt .declaration (by rw [keyword]; cases m <;> rfl) ?_
  refine (Settles.advance s).bind ((Settles.expectHere name _).bind
    ((Settles.expectHere colon _).bind ((Settles.ty type).bind ((Settles.expectHere equals _).bind
      (hvalue.bind ((Settles.expect ends).bind ?_))))))
  rw [hmut]
  exact .pure _ _

/-- A name and an equals sign begin nothing but an assignment. -/
theorem assign {x a z : Token} (name : x.kind = .identifier) (equals : a.kind = .sign .assignment)
    (value : Accepts (.expr e) ts) (ends : z.kind = .sign .semicolon) :
    Accepts (.stmt (.assign x.value e (some x.line))) (x :: a :: (ts ++ [z])) := by
  intro s s' hlead _
  obtain ⟨rfl, hequals⟩ := hlead.cons
  have hnext : s.nextKind = .sign .assignment := hlead.nextKind.trans equals
  obtain ⟨rfl, hrest⟩ := hequals.cons
  obtain ⟨s₁, hlead₁, rfl, rfl⟩ := hrest.concat
  have hvalue := value.expr hlead₁ (by rw [Stream.kind, ends]; rfl)
  have hrule : Settles (·.assignmentRule) s
      (.done (.assign s.current.value e (some s.current.line)) s₁.advance) :=
    (Settles.expect name).bind ((Settles.expect equals).bind
      (hvalue.bind ((Settles.expect ends).bind (.pure _ _))))
  refine .ofAnyStmtRule (hrule.congr fun P => ?_)
  rw [Parts.anyStmtRule, kind_bind, Stream.kind, name]
  exact congrFun (if_pos ⟨rfl, hnext⟩) s

theorem exprStmt {t z : Token} (hd : Derives reads (.expr e) (t :: ts))
    (value : Accepts (.expr e) (t :: ts)) (ends : z.kind = .sign .semicolon) :
    Accepts (.stmt (.expr e (some t.line))) (t :: (ts ++ [z])) := by
  intro s s' hlead _
  have hne : s.nextKind ≠ .sign .assignment := by
    obtain ⟨u, us, hus⟩ : ∃ u us, ts ++ [z] = u :: us := List.exists_cons_of_ne_nil (by simp)
    rw [hus] at hlead
    rw [hlead.nextKind]
    have hmem : u ∈ ts ++ [z] := hus ▸ List.mem_cons_self
    rcases List.mem_append.mp hmem with hmem | hmem
    · exact hd.ne_assignment trivial u (List.mem_cons_of_mem _ hmem)
    · simp [List.mem_singleton.mp hmem, ends]
  have hsplit : s.Leads ((t :: ts) ++ [z]) s' := hlead
  obtain ⟨s₁, hlead₁, rfl, rfl⟩ := hsplit.concat
  have hhead : (chalk.head s.kind).isSome := hd.begins_of_leads trivial hlead₁
  obtain ⟨rfl, -⟩ := hlead.cons
  have hvalue := value.expr hlead₁ (by rw [Stream.kind, ends]; rfl)
  have hrule : Settles (·.exprStmtRule) s (.done (.expr e (some s.current.line)) s₁.advance) :=
    .bind (.of_eq rfl) (hvalue.bind ((Settles.expect ends).bind (.pure _ _)))
  refine .ofAnyStmtRule (hrule.congr fun P => ?_)
  rw [Parts.anyStmtRule, kind_bind, stmt_eq_none_of_head hhead]
  exact congrFun (if_neg fun h => hne h.2) s

theorem ofBranch {st : ParsedStmt} (hd : Derives reads (.branch st) ts)
    (h : Accepts (.branch st) ts) : Accepts (.stmt st) ts := by
  intro s s' hlead hstop
  have hkind : s.kind = .keyword .ifKw := hd.begins_of_leads trivial hlead
  exact settles_stmt .branch (congrArg chalk.stmt hkind) (h _ _ hlead hstop)

/-- A condition ends where a block begins. -/
theorem condition (h : Accepts (.expr e) ts) (hbody : Derives reads (.block body) us)
    (hlead : s.Leads ts s₁) (hlead' : s₁.Leads us s') :
    Settles (·.expr .default) s (.done e s₁) := by
  have hkind : s₁.kind = .sign .openCurly := hbody.begins_of_leads trivial hlead'
  exact h.expr hlead (by rw [hkind]; rfl)

theorem loop {k : Token} (keyword : k.kind = .keyword .whileKw) (cond : Accepts (.expr e) ts)
    (hd : Derives reads (.block body) us) (inside : Accepts (.block body) us) :
    Accepts (.stmt (.loop e body (some k.line))) (k :: (ts ++ us)) := by
  intro s s' hlead _
  obtain ⟨rfl, hrest⟩ := hlead.cons
  obtain ⟨s₁, hcond, hbody⟩ := hrest.append
  refine settles_stmt .loop (by rw [keyword]; rfl) ?_
  exact (Settles.advance s).bind ((cond.condition hd hcond hbody).bind
    ((inside _ _ hbody).bind (.pure _ _)))

theorem function {k x o c : Token} {ps : List (String × Ty)} {ty : Ty} {vs : List Token}
    (keyword : k.kind = .keyword .fnKw) (name : x.kind = .identifier)
    (opens : o.kind = .sign .openParen) (params : Accepts (.params ps) ts)
    (closes : c.kind = .sign .closeParen) (returns : Accepts (.returns ty) us)
    (hd : Derives reads (.block body) vs) (inside : Accepts (.block body) vs) :
    Accepts (.stmt (.function { name := x.value, params := ps, returns := ty } body (some k.line)))
      (k :: x :: o :: (ts ++ c :: (us ++ vs))) := by
  intro s s' hlead _
  obtain ⟨rfl, hname⟩ := hlead.cons
  obtain ⟨rfl, hopen⟩ := hname.cons
  obtain ⟨rfl, hrest⟩ := hopen.cons
  obtain ⟨s₁, hparams, hclose⟩ := hrest.append
  obtain ⟨rfl, hbehind⟩ := hclose.cons
  obtain ⟨s₂, hreturns, hbody⟩ := hbehind.append
  have hkind : s₂.kind = .sign .openCurly := hd.begins_of_leads trivial hbody
  have hty := returns _ _ hreturns (by simp [hkind])
  refine settles_stmt .function (by rw [keyword]; rfl) ?_
  exact (Settles.advance s).bind ((Settles.expectHere name _).bind ((Settles.expect opens).bind
    ((params _ _ hparams closes).bind (hty.bind ((inside _ _ hbody).bind (.pure _ _))))))

theorem retNone {k z : Token} (keyword : k.kind = .keyword .returnKw)
    (ends : z.kind = .sign .semicolon) : Accepts (.stmt (.ret none (some k.line))) [k, z] := by
  intro s s' hlead _
  obtain ⟨rfl, hend⟩ := hlead.cons
  obtain ⟨rfl, hnil⟩ := hend.cons
  cases hnil.eq_of_nil
  refine settles_stmt .ret (by rw [keyword]; rfl) ?_
  exact (Settles.advance s).bind (.kind_pos ends ((Settles.advance _).bind (.pure _ _)))

theorem retSome {k z : Token} (keyword : k.kind = .keyword .returnKw)
    (hd : Derives reads (.expr e) ts) (value : Accepts (.expr e) ts)
    (ends : z.kind = .sign .semicolon) :
    Accepts (.stmt (.ret (some e) (some k.line))) (k :: (ts ++ [z])) := by
  intro s s' hlead _
  obtain ⟨rfl, hrest⟩ := hlead.cons
  obtain ⟨s₁, hlead₁, rfl, rfl⟩ := hrest.concat
  have hhead : (chalk.head s.advance.kind).isSome := hd.begins_of_leads trivial hlead₁
  have hne : s.advance.kind ≠ .sign .semicolon := by
    intro hkind
    simp [hkind, chalk] at hhead
  have hvalue := value.expr hlead₁ (by rw [Stream.kind, ends]; rfl)
  refine settles_stmt .ret (by rw [keyword]; rfl) ?_
  exact (Settles.advance s).bind
    (.kind_neg hne (hvalue.bind ((Settles.expect ends).bind (.pure _ _))))

theorem print {k o c z : Token} {es : List ParsedExpr} (keyword : k.kind = .keyword .printKw)
    (opens : o.kind = .sign .openParen) (hd : Derives reads (.arguments es) ts)
    (values : Accepts (.arguments es) ts) (nonempty : es ≠ [])
    (closes : c.kind = .sign .closeParen) (ends : z.kind = .sign .semicolon) :
    Accepts (.stmt (.print es (some k.line))) (k :: o :: (ts ++ [c, z])) := by
  intro s s' hlead _
  obtain ⟨rfl, hopen⟩ := hlead.cons
  obtain ⟨rfl, hrest⟩ := hopen.cons
  obtain ⟨s₁, hvalues, hclose⟩ := hrest.append
  obtain ⟨rfl, hend⟩ := hclose.cons
  obtain ⟨rfl, hnil⟩ := hend.cons
  cases hnil.eq_of_nil
  have hne : s.advance.advance.kind ≠ .sign .closeParen := by
    cases ts with
    | nil => exact absurd hd.eq_nil_of_arguments nonempty
    | cons t ts =>
      obtain ⟨rfl, -⟩ := hvalues.cons
      have hhead : (chalk.head s.advance.advance.kind).isSome := hd.begins _ rfl
      intro hkind
      simp [hkind, chalk] at hhead
  refine settles_stmt .print (by rw [keyword]; rfl) ?_
  exact (Settles.advance s).bind ((Settles.expectHere opens _).bind (.kind_neg hne
    ((values _ _ hvalues closes).bind ((Settles.expect ends).bind (.pure _ _)))))

theorem branch {k : Token} {other : List ParsedStmt} {vs : List Token}
    (keyword : k.kind = .keyword .ifKw) (cond : Accepts (.expr e) ts)
    (hd : Derives reads (.block body) us) (inside : Accepts (.block body) us)
    (behind : Accepts (.otherwise other) vs) :
    Accepts (.branch (.branch e body other (some k.line))) (k :: (ts ++ (us ++ vs))) := by
  intro s s' hlead hstop
  obtain ⟨rfl, hrest⟩ := hlead.cons
  obtain ⟨s₁, hcond, hbody⟩ := hrest.append
  obtain ⟨s₂, hbody, hother⟩ := hbody.append
  exact (Settles.advance s).bind ((cond.condition hd hcond hbody).bind
    ((inside _ _ hbody).bind ((behind _ _ hother hstop).bind (.pure _ _))))

theorem noElse : Accepts (.otherwise []) [] := by
  intro s s' hlead hstop
  cases hlead.eq_of_nil
  exact .kind_neg hstop (.pure _ _)

theorem elseBranch {k : Token} {st : ParsedStmt} (keyword : k.kind = .keyword .elseKw)
    (hd : Derives reads (.branch st) ts) (h : Accepts (.branch st) ts) :
    Accepts (.otherwise [st]) (k :: ts) := by
  intro s s' hlead hstop
  obtain ⟨rfl, hrest⟩ := hlead.cons
  have hkind : s.advance.kind = .keyword .ifKw := hd.begins_of_leads trivial hrest
  have hbranch : Settles (·.branch) s.advance (.done st s') := .ofBranchRule (h _ _ hrest hstop)
  exact .kind_pos keyword ((Settles.advance s).bind
    (.kind_pos hkind (hbranch.bind (.pure _ _))))

theorem elseBlock {k : Token} (keyword : k.kind = .keyword .elseKw)
    (hd : Derives reads (.block body) ts) (h : Accepts (.block body) ts) :
    Accepts (.otherwise body) (k :: ts) := by
  intro s s' hlead _
  obtain ⟨rfl, hrest⟩ := hlead.cons
  have hkind : s.advance.kind = .sign .openCurly := hd.begins_of_leads trivial hrest
  exact .kind_pos keyword ((Settles.advance s).bind (.kind_neg (by simp [hkind]) (h _ _ hrest)))

theorem block {o c : Token} (opens : o.kind = .sign .openCurly) (inside : Accepts (.stmts body) ts)
    (closes : c.kind = .sign .closeCurly) : Accepts (.block body) (o :: (ts ++ [c])) := by
  intro s s' hlead
  obtain ⟨rfl, hrest⟩ := hlead.cons
  obtain ⟨s₁, hbody, rfl, rfl⟩ := hrest.concat
  exact (Settles.expectHere opens _).bind ((inside _ _ hbody).1 closes)

theorem noStmt : Accepts (.stmts []) [] := by
  intro s s' hlead
  cases hlead.eq_of_nil
  refine ⟨fun hkind => ?_, fun hkind => .ofProgramRule (.kind_pos hkind (.pure _ _))⟩
  have hclose : Settles (fun _ => (do let _ ← Parser.advance; Pure.pure [] : Parser Program)) s
      (.done [] s.advance) := (Settles.advance s).bind (.pure _ _)
  refine .ofBodyRule (hclose.congr fun P => ?_)
  rw [Parts.bodyRule_apply]
  exact if_pos hkind

theorem moreStmts {st : ParsedStmt} (hfirst : Derives reads (.stmt st) ts)
    (first : Accepts (.stmt st) ts) (hrest : Derives reads (.stmts body) us)
    (rest : Accepts (.stmts body) us) : Accepts (.stmts (st :: body)) (ts ++ us) := by
  intro s s' hlead
  obtain ⟨s₁, hlead₁, hlead₂⟩ := hlead.append
  obtain ⟨hclose, heof, -⟩ := Phrase.ne_of_begins_stmt (hfirst.begins_of_leads trivial hlead₁)
  have hstmt : s'.kind = .sign .closeCurly ∨ s'.kind = .eof → Settles (·.stmt) s (.done st s₁) := by
    intro hkind
    refine first _ _ hlead₁ ?_
    cases us with
    | nil =>
      cases hlead₂.eq_of_nil
      rcases hkind with hkind | hkind <;> simp [hkind]
    | cons t us =>
      obtain ⟨rfl, -⟩ := hlead₂.cons
      have hbegins : Phrase.Begins (.stmt st) s₁.kind := hrest.begins _ rfl
      exact (Phrase.ne_of_begins_stmt hbegins).2.2
  refine ⟨fun hkind => ?_, fun hkind => ?_⟩
  · have hall : Settles (fun P => (do
        let first ← P.stmt
        let rest ← P.body
        Pure.pure (first :: rest) : Parser Program)) s (.done (st :: body) s'.advance) :=
      (hstmt (.inl hkind)).bind (((rest _ _ hlead₂).1 hkind).bind (.pure _ _))
    refine .ofBodyRule (hall.congr fun P => ?_)
    rw [Parts.bodyRule_apply, if_neg hclose, if_neg heof]
  · exact .ofProgramRule (.kind_neg heof ((hstmt (.inr hkind)).bind
      (((rest _ _ hlead₂).2 hkind).bind (.pure _ _))))

end Accepts

theorem Derives.accepts (hreads : ∀ {text v}, reads text v → Number.read? text = some v)
    {φ : Phrase} (h : Derives reads φ ts) : Accepts φ ts := by
  induction h with
  | number kind value => exact .number hreads kind value
  | string kind => exact .string kind
  | bool kind => exact .bool kind
  | var kind => exact .var kind
  | group opens _ closes ih => exact .group opens ih closes
  | name kind => exact .name kind
  | parens opens _ closes ih => exact .parens opens ih closes
  | negate kind _ ih => exact .negate kind ih
  | ofAtom _ ih => exact .ofAtom ih
  | call _ opens _ closes ihf ih => exact .call ihf opens ih closes
  | ofOperand _ ih => exact .ofOperand ih
  | operation _ kind _ ihl ihr => exact .operation ihl kind ihr
  | noArgument => exact .noArgument
  | lastArgument h ih => exact .lastArgument h ih
  | moreArguments h kind _ ih ihs => exact .moreArguments h ih kind ihs
  | noParam => exact .noParam
  | lastParam name colon type => exact .lastParam name colon type
  | moreParams name colon type kind _ ih => exact .moreParams name colon type kind ih
  | noReturns => exact .noReturns
  | someReturns arrow type => exact .someReturns arrow type
  | declare keyword name colon type equals _ ends ih =>
    exact .declare keyword name colon type equals ih ends
  | assign name equals _ ends ih => exact .assign name equals ih ends
  | ofBranch h ih => exact .ofBranch h ih
  | loop keyword _ h ihc ih => exact .loop keyword ihc h ih
  | function keyword name opens _ closes _ h ihp ihr ih =>
    exact .function keyword name opens ihp closes ihr h ih
  | retNone keyword ends => exact .retNone keyword ends
  | retSome keyword h ends ih => exact .retSome keyword h ih ends
  | print keyword opens h nonempty closes ends ih =>
    exact .print keyword opens h ih nonempty closes ends
  | exprStmt h ends ih => exact .exprStmt h ih ends
  | branch keyword _ h _ ihc ih iho => exact .branch keyword ihc h ih iho
  | noElse => exact .noElse
  | elseBranch keyword h ih => exact .elseBranch keyword h ih
  | elseBlock keyword h ih => exact .elseBlock keyword h ih
  | block opens _ closes ih => exact .block opens ih closes
  | noStmt => exact .noStmt
  | moreStmts h hs ih ihs => exact .moreStmts h ih hs ihs

end Chalk
