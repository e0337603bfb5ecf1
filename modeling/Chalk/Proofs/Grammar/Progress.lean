import Chalk.Proofs.Grammar.EarliestFault

/-!
# Parsing makes progress

A statement or an expression that is read has at least one token, and no run passes the first end of
the text. So a loop that reads one of them in each round has no more rounds than there are tokens
left (`Loop.exists_runs`). The parts of the grammar that read lists, and the part that goes on with
an expression, are such loops (`ListPart.readsList`, `tailLoop_ends`): what they reply is what the loop
comes to.

What stands behind the first end of the text is never looked at (`parse_eq_of_upToEnd`).
-/

namespace Chalk

open Chalk.Parser Chalk.Grammar

/-! ## The tokens that are left -/

/-- The tokens up to the first end of the text, and that end if there is one. -/
def Token.upToEnd : List Token → List Token
  | [] => []
  | t :: ts => if t.kind = .eof then [t] else t :: upToEnd ts

namespace Token

variable {ts us : List Token}

theorem exists_upToEnd_cons (t : Token) (ts : List Token) : ∃ us, upToEnd (t :: ts) = t :: us := by
  rw [upToEnd]
  split
  · exact ⟨[], rfl⟩
  · exact ⟨_, rfl⟩

theorem upToEnd_append (h : ∀ t ∈ ts, t.kind ≠ .eof) (us : List Token) :
    upToEnd (ts ++ us) = ts ++ upToEnd us := by
  induction ts with
  | nil => rfl
  | cons t ts ih =>
    obtain ⟨ht, hts⟩ := List.forall_mem_cons.1 h
    rw [List.cons_append, upToEnd, if_neg ht, ih hts, List.cons_append]

theorem upToEnd_append_of_end (h : ∃ t ∈ ts, t.kind = .eof) (us : List Token) :
    upToEnd (ts ++ us) = upToEnd ts := by
  induction ts with
  | nil => simp at h
  | cons t ts ih =>
    rw [List.cons_append, upToEnd, upToEnd]
    split
    · rfl
    · next ht =>
      rw [ih (by simpa [ht] using h)]

theorem upToEnd_isPrefix (ts : List Token) : upToEnd ts <+: ts := by
  induction ts with
  | nil => exact List.prefix_rfl
  | cons t ts ih =>
    rw [upToEnd]
    split
    · exact ⟨ts, rfl⟩
    · exact (List.prefix_cons_inj t).2 ih

/-- A first end of the text is among the tokens up to it. -/
theorem exists_end_upToEnd_iff :
    (∃ t ∈ upToEnd ts, t.kind = .eof) ↔ ∃ t ∈ ts, t.kind = .eof := by
  refine ⟨fun ⟨t, ht, hkind⟩ => ⟨t, (upToEnd_isPrefix ts).mem ht, hkind⟩, fun h => ?_⟩
  induction ts with
  | nil => simp at h
  | cons t ts ih =>
    rw [upToEnd]
    split
    · next ht => exact ⟨t, List.mem_singleton_self t, ht⟩
    · next ht =>
      obtain ⟨u, hu, hkind⟩ := ih (by simpa [ht] using h)
      exact ⟨u, List.mem_cons_of_mem t hu, hkind⟩

end Token

open Token (upToEnd)

namespace Stream

variable {s s' s₁ : Stream} {ts us : List Token}

/-- The number of tokens from the current one to the first end of the text, with both of them. -/
def remaining (s : Stream) : Nat :=
  (upToEnd s.tokens).length

theorem remaining_pos (s : Stream) : 0 < s.remaining := by
  obtain ⟨us, hus⟩ := Token.exists_upToEnd_cons s.current s.later
  rw [remaining, tokens, hus]
  exact Nat.zero_lt_succ _

theorem Reads.upToEnd_eq (h : s.Reads ts s') : upToEnd s.tokens = ts ++ upToEnd s'.tokens := by
  rw [h.tokens, Token.upToEnd_append h.inside]

theorem Reads.remaining_eq (h : s.Reads ts s') : s.remaining = ts.length + s'.remaining := by
  rw [remaining, h.upToEnd_eq, List.length_append, remaining]

end Stream

/-! ## Reading from a place -/

namespace Grammar

variable {s : Stream}

/-- The parts as they are started at a stream, with a depth of which no run needs all. -/
theorem parts_depthFor_sound (s : Stream) :
    (chalk.parts (depthFor s)).Sound Number.Read (4 * s.later.length + 8) :=
  parts_sound ..

theorem stmt_yields (hs : s.Proper Number.Read) :
    (chalk.read (·.stmt) s).Yields s fun _ ts _ => 0 < ts.length :=
  ((parts_depthFor_sound s).stmt hs (by omega)).imp fun _ _ _ _ h => h.length_pos trivial

theorem expr_yields (p : Power) (hs : s.Proper Number.Read) :
    (chalk.read (·.expr p) s).Yields s fun _ ts _ => 0 < ts.length :=
  ((parts_depthFor_sound s).expr p hs (by omega)).imp fun _ _ _ _ h => h.1.length_pos (by simp)

end Grammar

/-! ## Loops -/

namespace Reply

variable {α β γ : Type}

theorem bind_eq_andThen (p : Parser α) (f : α → Parser β) (s : Stream) :
    (p >>= f) s = (p s).andThen f :=
  rfl

theorem andThen_assoc (r : Reply α) (f : α → Parser β) (g : β → Parser γ) :
    (r.andThen f).andThen g = r.andThen fun a => f a >>= g := by
  cases r with
  | done a s => exact (bind_eq_andThen (f a) g s).symm
  | failed e s => rfl
  | cut => rfl

theorem of_andThen_eq_done {r : Reply α} {f : α → β} {b : β} {s : Stream}
    (h : (r.andThen fun a => pure (f a)) = .done b s) : ∃ a, r = .done a s ∧ f a = b := by
  cases r with
  | done a s' =>
    cases h
    exact ⟨a, rfl, rfl⟩
  | failed | cut => cases h

theorem of_andThen_eq_failed {r : Reply α} {f : α → β} {e : SyntaxError} {s : Stream}
    (h : (r.andThen fun a => pure (f a)) = .failed e s) : r = .failed e s := by
  cases r with
  | failed e' s' =>
    cases h
    rfl
  | done | cut => cases h

theorem andThen_pure (r : Reply α) : (r.andThen fun a => pure a) = r := by
  cases r <;> rfl

end Reply

theorem Parser.bind_assoc {α β γ : Type} (p : Parser α) (f : α → Parser β) (g : β → Parser γ) :
    p >>= f >>= g = p >>= fun a => f a >>= g := by
  funext s
  rw [Reply.bind_eq_andThen, Reply.bind_eq_andThen, Reply.andThen_assoc, Reply.bind_eq_andThen]

/-- A loop over a value that is changed in each round. -/
structure Loop (σ : Type) where
  /-- Whether there is another round. -/
  goes : Stream → Prop
  /-- One round. -/
  body : σ → Parser σ

namespace Loop

variable {σ β : Type}

/-- The loop starts with the value at the stream, and has the reply after `n` rounds. A round that
fails is the last one. -/
inductive Runs (l : Loop σ) : σ → Stream → Nat → Reply σ → Prop
  | ends {a : σ} {s : Stream} (stop : ¬ l.goes s) : l.Runs a s 0 (.done a s)
  | fails {a : σ} {s s' : Stream} {e : SyntaxError} (go : l.goes s)
      (round : l.body a s = .failed e s') : l.Runs a s 1 (.failed e s')
  | goesOn {a b : σ} {s s' : Stream} {n : Nat} {r : Reply σ} (go : l.goes s)
      (round : l.body a s = .done b s') (rest : l.Runs b s' n r) : l.Runs a s (n + 1) r

/-- Each round that does not fail passes a token. -/
def Advances (l : Loop σ) : Prop :=
  ∀ a s, s.Proper Number.Read → l.goes s → (l.body a s).Yields s fun _ ts _ => 0 < ts.length

/-- A loop that passes a token in each round comes to an end before the tokens do. -/
theorem exists_runs {l : Loop σ} (h : l.Advances) (a : σ) {s : Stream} (hs : s.Proper Number.Read) :
    ∃ n r, l.Runs a s n r ∧ n ≤ s.remaining := by
  induction hm : s.remaining using Nat.strongRecOn generalizing a s with
  | _ m ih =>
    have hpos := s.remaining_pos
    by_cases hgo : l.goes s
    · have hround := h a s hs hgo
      cases hbody : l.body a s with
      | done b s' =>
        rw [hbody] at hround
        obtain ⟨ts, hreads, hts⟩ := hround
        have hlen := hreads.remaining_eq
        obtain ⟨n, r, hruns, hn⟩ := ih s'.remaining (by omega) b (hreads.proper hs) rfl
        exact ⟨n + 1, r, .goesOn hgo hbody hruns, by omega⟩
      | failed e s' => exact ⟨1, _, .fails hgo hbody, by omega⟩
      | cut =>
        rw [hbody] at hround
        exact hround.elim
    · exact ⟨0, _, .ends hgo, Nat.zero_le _⟩

/-- The loop ends within as many rounds as there are tokens left, and what was read as a whole is
what `close` makes of its end. -/
def Ends (l : Loop σ) (a : σ) (s : Stream) (close : σ → Parser β) (whole : Reply β) : Prop :=
  ∃ n r, l.Runs a s n r ∧ n ≤ s.remaining ∧ whole = r.andThen close

end Loop

namespace Grammar

variable {α β : Type} {s s' : Stream}

theorem Settles.andThen {p : Parts → Parser α} {r : Reply α} (h : Settles p s r)
    (f : α → Parser β) : Settles (fun P => p P >>= f) s (r.andThen f) := by
  obtain ⟨n, hn⟩ := h
  refine ⟨n, fun m hm => ?_⟩
  calc (p (chalk.parts m) >>= f) s
    _ = (p (chalk.parts m) s).andThen f := Reply.bind_eq_andThen ..
    _ = r.andThen f := by rw [hn m hm]

/-- A fault ends a sequence, whatever should have followed. -/
theorem Settles.bind_failed {p : Parts → Parser α} {f : Parts → α → Parser β} {e : SyntaxError}
    (h : Settles p s (.failed e s')) : Settles (fun P => p P >>= f P) s (.failed e s') := by
  obtain ⟨n, hn⟩ := h
  refine ⟨n, fun m hm => ?_⟩
  calc (p (chalk.parts m) >>= f (chalk.parts m)) s
    _ = (p (chalk.parts m) s).andThen (f (chalk.parts m)) := Reply.bind_eq_andThen ..
    _ = .failed e s' := by rw [hn m hm]; rfl

theorem Settles.of_read {rule : Parts → Parser α} {r : Reply α}
    (hrule : ∀ {P Q : Parts}, P.Le Q → (rule P).Le (rule Q)) (h : chalk.read rule s = r)
    (hcut : r ≠ .cut) : Settles rule s r := by
  refine ⟨depthFor s, fun m hm => ?_⟩
  rw [← h] at hcut ⊢
  exact reply_of_le hrule hm hcut

end Grammar

/-! ## Parts that read lists -/

/-- The loop that reads items up to a token of the given kind, each to the end of a list. -/
def listLoop {α : Type} (stop : Token.Kind) (item : Parts → Parser α) : Loop (List α) where
  goes s := s.kind ≠ stop
  body as := do
    let a ← chalk.read item
    pure (as ++ [a])

theorem listLoop_body {α : Type} (stop : Token.Kind) (item : Parts → Parser α) (as : List α)
    (s : Stream) : (listLoop stop item).body as s =
      (chalk.read item s).andThen fun a => pure (as ++ [a]) :=
  Reply.bind_eq_andThen ..

/-- The list, behind what closes it. -/
def closedBy {α γ : Type} (close : Parser γ) (as : List α) : Parser (List α) := do
  let _ ← close
  pure as

theorem closedBy_append {α γ : Type} (close : Parser γ) (as bs : List α) (s : Stream) :
    ((closedBy close bs s).andThen fun cs => pure (as ++ cs)) = closedBy close (as ++ bs) s := by
  rw [closedBy, closedBy, Reply.bind_eq_andThen, Reply.bind_eq_andThen, Reply.andThen_assoc]
  rfl

/-- A list is read from the stream, and no end of the text is passed. The reply is what a loop over
the items comes to, and then `close`. -/
def ReadsList {α γ : Type} (part : Parts → Parser (List α)) (stop : Token.Kind)
    (item : Parts → Parser α) (close : Parser γ) (s : Stream) : Prop :=
  (chalk.read part s).Yields s (fun _ _ _ => True) ∧
    (listLoop stop item).Ends [] s (closedBy close) (chalk.read part s)

/-- A part of the grammar that reads items up to a token of the given kind, and goes on from there
with `close`. -/
structure ListPart {α γ : Type} (part : Parts → Parser (List α)) (stop : Token.Kind)
    (item : Parts → Parser α) (close : Parser γ) : Prop where
  part_le {P Q : Parts} (h : P.Le Q) : (part P).Le (part Q)
  item_le {P Q : Parts} (h : P.Le Q) : (item P).Le (item Q)
  /-- With the depth that is allowed to it, no run is cut short. -/
  yields {s : Stream} (hs : s.Proper Number.Read) : (chalk.read part s).Yields s fun _ _ _ => True
  item_yields {s : Stream} (hs : s.Proper Number.Read) (hgo : s.kind ≠ stop) :
    (chalk.read item s).Yields s fun _ ts _ => 0 < ts.length
  rule (n : Nat) (s : Stream) : part (chalk.parts (n + 1)) s =
    if s.kind = stop then closedBy close [] s
    else (do
      let a ← item (chalk.parts n)
      let as ← part (chalk.parts n)
      pure (a :: as) : Parser (List α)) s

namespace ListPart

variable {α γ : Type} {part : Parts → Parser (List α)} {stop : Token.Kind}
  {item : Parts → Parser α} {close : Parser γ} {s s' : Stream}

theorem settles_stop (h : ListPart part stop item close) (hstop : s.kind = stop) :
    Settles part s (closedBy close [] s) := by
  refine ⟨1, fun m hm => ?_⟩
  obtain ⟨n, rfl⟩ : ∃ n, m = n + 1 := ⟨m - 1, by omega⟩
  rw [h.rule, if_pos hstop]

theorem settles_go (h : ListPart part stop item close) (hgo : s.kind ≠ stop) {r : Reply (List α)}
    (hmore : Settles (fun P => do let a ← item P; let as ← part P; pure (a :: as)) s r) :
    Settles part s r := by
  obtain ⟨k, hk⟩ := hmore
  refine ⟨k + 1, fun m hm => ?_⟩
  obtain ⟨n, rfl⟩ : ∃ n, m = n + 1 := ⟨m - 1, by omega⟩
  rw [h.rule, if_neg hgo]
  exact hk n (by omega)

theorem advances (h : ListPart part stop item close) : (listLoop stop item).Advances := by
  intro as s hs hgo
  refine (h.item_yields hs hgo).bind hs fun a ts s' _ _ hts => .pure ?_
  simpa using hts

/-- What the part replies and what the loop comes to are the same, behind the items that were read
before. -/
theorem exists_settles (h : ListPart part stop item close) {as : List α} {n : Nat}
    {r : Reply (List α)} (hruns : (listLoop stop item).Runs as s n r) :
    ∃ r₀, Settles part s r₀ ∧
      (r₀.andThen fun bs => pure (as ++ bs)) = r.andThen (closedBy close) := by
  induction hruns with
  | @ends as s hstop =>
    refine ⟨_, h.settles_stop (not_not.1 hstop), ?_⟩
    rw [closedBy_append, List.append_nil]
    rfl
  | @fails as s s' e hgo hround =>
    rw [listLoop_body] at hround
    have hitem := Reply.of_andThen_eq_failed hround
    exact ⟨_, h.settles_go hgo (.bind_failed (.of_read h.item_le hitem nofun)), rfl⟩
  | @goesOn as bs s s' n r hgo hround _ ih =>
    rw [listLoop_body] at hround
    obtain ⟨a, hitem, rfl⟩ := Reply.of_andThen_eq_done hround
    obtain ⟨r₀, hsettles, heq⟩ := ih
    have hmore : Settles (fun P => do let a ← item P; let bs ← part P; pure (a :: bs)) s
        (r₀.andThen fun bs => pure (a :: bs)) :=
      (Settles.of_read h.item_le hitem nofun).bind (hsettles.andThen _)
    refine ⟨_, h.settles_go hgo hmore, ?_⟩
    have hpush : (fun bs => pure (as ++ a :: bs) : List α → Parser (List α)) =
        fun bs => pure (as ++ [a] ++ bs) := by simp
    rw [← heq, Reply.andThen_assoc, ← hpush]
    rfl

theorem readsList (h : ListPart part stop item close) (hs : s.Proper Number.Read) :
    ReadsList part stop item close s := by
  obtain ⟨n, r, hruns, hn⟩ := Loop.exists_runs h.advances [] hs
  obtain ⟨r₀, hsettles, heq⟩ := h.exists_settles hruns
  refine ⟨h.yields hs, n, r, hruns, hn, ?_⟩
  rw [← heq]
  refine (hsettles.read h.part_le fun hcut => ?_).trans r₀.andThen_pure.symm
  have hyields := h.yields hs
  rw [hcut] at hyields
  exact hyields

end ListPart

/-! ## The lists of the grammar -/

/-- An item of a list in parentheses, and the comma behind it. The last item can do without. -/
def Parser.listItem {α : Type} (item : Parser α) (wanted : String) : Parser α := do
  let a ← item
  if (← kind) ≠ .sign .closeParen then
    let _ ← expectHere (.sign .comma) wanted
  pure a

/-- A statement of a block, which has to be closed before the text ends. -/
def Parts.bodyItem (parts : Parts) : Parser ParsedStmt := do
  if (← kind) = .eof then unexpectedHere "expected '\x7d' to close the block"
  else parts.stmt

theorem Parts.bodyItem_apply (parts : Parts) (s : Stream) :
    parts.bodyItem s =
      if s.kind = .eof then unexpectedHere "expected '\x7d' to close the block" s
      else parts.stmt s := by
  rw [bodyItem, kind_bind]
  split <;> rfl

def Parts.argumentItem (parts : Parts) : Parser ParsedExpr :=
  listItem (parts.expr .default) "expected ',' between arguments"

def Parser.param : Parser (String × Ty) := do
  let name ← expectHere .identifier "expected a parameter name"
  let _ ← expectHere (.sign .colon) "expected ':' and a parameter type"
  let ty ← Parser.ty
  pure (name.value, ty)

def Parts.paramItem (_ : Parts) : Parser (String × Ty) :=
  listItem param "expected ',' between parameters"

section

variable {α : Type} {s : Stream}

theorem Parser.listItem_bind (item : Parser α) (wanted : String) (list : Parser (List α)) :
    (do let a ← listItem item wanted; let as ← list; pure (a :: as) : Parser (List α)) =
      (do
        let a ← item
        if (← kind) ≠ .sign .closeParen then
          let _ ← expectHere (.sign .comma) wanted
        let as ← list
        pure (a :: as) : Parser (List α)) := by
  rw [listItem, Parser.bind_assoc]
  congr 1
  funext a s
  rw [Parser.bind_assoc, kind_bind, kind_bind]
  split
  · rw [Parser.bind_assoc]
    rfl
  · rfl

theorem Parser.listItem_yields {item : Parser α} {wanted : String} (hs : s.Proper Number.Read)
    (h : (item s).Yields s fun _ ts _ => 0 < ts.length) :
    (listItem item wanted s).Yields s fun _ ts _ => 0 < ts.length := by
  refine h.bind hs fun a ts s₁ hs₁ _ hts => ?_
  rw [kind_bind]
  split
  · refine (expectHere_yields hs₁ (by simp)).bind hs₁ fun _ us _ _ _ _ => .pure ?_
    rw [List.append_nil, List.length_append]
    exact Nat.add_pos_left hts us.length
  · exact .pure (by simpa using hts)

theorem Parser.param_yields (hs : s.Proper Number.Read) :
    (param s).Yields s fun _ ts _ => 0 < ts.length := by
  refine (expectHere_yields hs (by simp)).bind hs ?_
  intro name _ s₁ hs₁ _ h
  obtain ⟨-, rfl⟩ := h
  refine (expectHere_yields hs₁ (by simp)).bind hs₁ fun _ _ s₂ hs₂ _ _ => ?_
  refine (ty_yields hs₂).bind hs₂ fun _ _ _ _ _ _ => .pure ?_
  simp

theorem Parser.closedBy_expect {k : Token.Kind} (h : s.kind = k) :
    closedBy (expect k) ([] : List α) s = (do let _ ← advance; pure [] : Parser (List α)) s := by
  rw [closedBy, Reply.bind_eq_andThen, expect, if_pos h]
  rfl

end

theorem programPart : ListPart (·.program) .eof (·.stmt) (pure () : Parser Unit) where
  part_le h := h.program
  item_le h := h.stmt
  yields hs := (Stream.program_yields hs).imp fun _ _ _ _ _ => trivial
  item_yields hs _ := stmt_yields hs
  rule n s := by
    show Parts.programRule (chalk.parts n) s = _
    rw [Parts.programRule, kind_bind]
    split <;> rfl

theorem bodyPart :
    ListPart (·.body) (.sign .closeCurly) Parts.bodyItem (expect (.sign .closeCurly)) where
  part_le h := h.body
  item_le h := .bind (.refl _) fun _ => .ite (.refl _) h.stmt
  yields hs := ((parts_depthFor_sound _).body hs (by omega)).imp fun _ _ _ _ _ => trivial
  item_yields {s} hs _ := by
    rw [Grammar.read, Parts.bodyItem_apply]
    split
    · exact unexpectedHere_yields _
    · exact stmt_yields hs
  rule n s := by
    show Parts.bodyRule (chalk.parts n) s = _
    rw [Parts.bodyRule_apply]
    split
    · next hstop => exact (closedBy_expect hstop).symm
    · rw [Reply.bind_eq_andThen (Parts.bodyItem _), Parts.bodyItem_apply]
      split
      · rfl
      · exact Reply.bind_eq_andThen ..

theorem argumentsPart :
    ListPart (·.arguments) (.sign .closeParen) Parts.argumentItem
      (expect (.sign .closeParen)) where
  part_le h := h.arguments
  item_le h := .bind (h.expr _) fun _ => .refl _
  yields hs := ((parts_depthFor_sound _).arguments hs (by omega)).imp fun _ _ _ _ _ => trivial
  item_yields hs _ := listItem_yields hs (expr_yields .default hs)
  rule n s := by
    show Parts.argumentsRule (chalk.parts n) s = _
    rw [Parts.argumentItem, listItem_bind, Parts.argumentsRule, kind_bind]
    split
    · next hstop => exact (closedBy_expect hstop).symm
    · rfl

theorem paramsPart :
    ListPart (·.params) (.sign .closeParen) Parts.paramItem (expect (.sign .closeParen)) where
  part_le h := h.params
  item_le _ := .refl _
  yields hs := ((parts_depthFor_sound _).params hs (by omega)).imp fun _ _ _ _ _ => trivial
  item_yields hs _ := listItem_yields hs (param_yields hs)
  rule n s := by
    show Parts.paramsRule (chalk.parts n) s = _
    rw [Parts.paramItem, listItem_bind, Parts.paramsRule, kind_bind]
    split
    · next hstop => exact (closedBy_expect hstop).symm
    · simp only [param, Parser.bind_assoc]
      rfl

/-! ## Going on with an expression -/

/-- The loop that goes on with an expression while what follows binds more tightly than `p`. -/
def tailLoop (p : Power) : Loop ParsedExpr where
  goes s := p < chalk.power s.kind
  body left := do
    match chalk.tail (← kind) with
    | none => unexpected
    | some (q, rule) => chalk.read (·.tailRule left q rule)

section

variable {s s' : Stream} {p q : Power} {rule : TailRule} {left : ParsedExpr}

theorem exists_tail_of_lt_power {k : Token.Kind} (h : p < chalk.power k) :
    ∃ q rule, chalk.tail k = some (q, rule) ∧ p < q := by
  unfold Grammar.power at h
  split at h
  · next q rule hq => exact ⟨q, rule, hq, h⟩
  · exact absurd (show p.rank < 0 from h) (Nat.not_lt_zero _)

theorem tailLoop_body (h : chalk.tail s.kind = some (q, rule)) :
    (tailLoop p).body left s = chalk.read (·.tailRule left q rule) s := by
  show (match chalk.tail s.kind with
    | none => unexpected
    | some (q, rule) => chalk.read (·.tailRule left q rule) : Parser ParsedExpr) s = _
  rw [h]

theorem Parts.tailsRule_stop (parts : Parts) (h : ¬ p < chalk.power s.kind) :
    parts.tailsRule chalk p left s = .done left s := by
  rw [tailsRule, kind_bind]
  unfold Grammar.power at h
  cases htail : chalk.tail s.kind with
  | none => rfl
  | some entry =>
    rw [htail] at h
    simp only [if_neg h]
    rfl

theorem Parts.tailsRule_go (parts : Parts) (htail : chalk.tail s.kind = some (q, rule))
    (hlt : p < q) :
    parts.tailsRule chalk p left s = (parts.tailRule left q rule >>= parts.tail p) s := by
  rw [tailsRule, kind_bind]
  simp only [htail, if_pos hlt]

/-- Whatever the expression is that was read already, going on with it passes a token. -/
theorem tailRule_yields (hs : s.Proper Number.Read) (h : chalk.tail s.kind = some (q, rule)) :
    (chalk.read (·.tailRule left q rule) s).Yields s fun _ ts _ => 0 < ts.length := by
  cases rule with
  | binary =>
    obtain ⟨op, hkind, rfl⟩ := eq_sign_of_tail h
    refine (advance_yields hs (by simp [hkind])).bind hs ?_
    intro t _ s₁ hs₁ h₁ ht
    obtain ⟨rfl, rfl⟩ := ht
    have hlen := h₁.length
    have hop : Operator.ofKind? s.current.kind = some op := by
      rw [show s.current.kind = .sign op.sign from hkind, Operator.ofKind?_sign]
    simp only [hop]
    refine ((parts_depthFor_sound s).expr op.power hs₁ (by omega)).bind hs₁ ?_
    exact fun _ _ _ _ _ _ => .pure (by simp)
  | call =>
    obtain ⟨hkind, rfl⟩ := eq_openParen_of_tail h
    cases left with
    | var f line =>
      refine (advance_yields hs (by simp [hkind])).bind hs ?_
      intro t _ s₁ hs₁ h₁ ht
      obtain ⟨rfl, rfl⟩ := ht
      have hlen := h₁.length
      refine ((parts_depthFor_sound s).arguments hs₁ (by omega)).bind hs₁ ?_
      exact fun _ _ _ _ _ _ => .pure (by simp)
    | number | string | bool | negate | binary | call => exact unexpectedHere_yields _

theorem tailLoop_advances (p : Power) : (tailLoop p).Advances := by
  intro left s hs hgo
  obtain ⟨q, rule, htail, -⟩ := exists_tail_of_lt_power hgo
  rw [tailLoop_body htail]
  exact tailRule_yields hs htail

theorem tailLoop_settles {n : Nat} {r : Reply ParsedExpr} (h : (tailLoop p).Runs left s n r) :
    Settles (·.tail p left) s r := by
  induction h with
  | @ends left s hstop =>
    exact .ofTailsRule (.congr (.of_eq (pure_apply left s)) fun P => P.tailsRule_stop hstop)
  | @fails left s s' e hgo hround =>
    obtain ⟨q, rule, htail, hlt⟩ := exists_tail_of_lt_power hgo
    rw [tailLoop_body htail] at hround
    have hrule := Settles.of_read (fun hle => hle.tailRule left q rule) hround nofun
    exact .ofTailsRule (.congr (.bind_failed hrule) fun P => P.tailsRule_go htail hlt)
  | @goesOn left left' s s' n r hgo hround _ ih =>
    obtain ⟨q, rule, htail, hlt⟩ := exists_tail_of_lt_power hgo
    rw [tailLoop_body htail] at hround
    have hrule := Settles.of_read (fun hle => hle.tailRule left q rule) hround nofun
    exact .ofTailsRule (.congr (.bind hrule ih) fun P => P.tailsRule_go htail hlt)

/-- Behind its head, an expression is what the loop comes to. -/
theorem tailLoop_ends {head : HeadRule} (hs : s.Proper Number.Read)
    (hhead : chalk.head s.kind = some head) (hleft : chalk.read (·.headRule head) s = .done left s') :
    (tailLoop p).Ends left s' pure (chalk.read (·.expr p) s) := by
  have hs' : s'.Proper Number.Read := by
    have hyields := Parts.headRule_yields (parts_depthFor_sound s) hs hhead (by omega)
    rw [show (chalk.parts (depthFor s)).headRule head s = _ from hleft] at hyields
    obtain ⟨ts, hreads, -⟩ := hyields
    exact hreads.proper hs
  obtain ⟨n, r, hruns, hn⟩ := Loop.exists_runs (tailLoop_advances p) left hs'
  have hexpr : Settles (·.expr p) s r := by
    have hhead' := Settles.of_read (fun hle => hle.headRule head) hleft nofun
    refine .ofExprRule (.congr (.bind hhead' (tailLoop_settles hruns)) fun P => ?_)
    rw [Parts.exprRule, kind_bind]
    simp only [hhead]
  refine ⟨n, r, hruns, hn, ?_⟩
  refine (hexpr.read (fun hle => hle.expr p) fun hcut => ?_).trans r.andThen_pure.symm
  have hyields := expr_yields p hs
  rw [hcut] at hyields
  exact hyields

end

/-! ## What stands behind the end -/

namespace Stream

variable {s s' s₁ : Stream} {ts us : List Token}

/-- Streams with the same tokens up to the end lead through the same tokens. -/
theorem Reads.exists_of_upToEnd (h : s.Reads ts s')
    (hsame : upToEnd s₁.tokens = upToEnd s.tokens) :
    ∃ s₁' : Stream, s₁.Reads ts s₁' ∧ s₁'.current = s'.current := by
  obtain ⟨us, hus⟩ := Token.exists_upToEnd_cons s'.current s'.later
  obtain ⟨vs, hvs⟩ := Token.upToEnd_isPrefix s₁.tokens
  rw [hsame, h.upToEnd_eq, Stream.tokens, hus] at hvs
  refine ⟨⟨s'.current, us ++ vs⟩, ⟨?_, h.inside⟩, rfl⟩
  rw [← hvs, List.append_assoc]
  rfl

theorem upToEnd_ofTokens_of_end (h : ∃ t ∈ ts, t.kind = .eof) (file : String) :
    upToEnd (ofTokens ts file).tokens = upToEnd ts := by
  rcases tokens_ofTokens ts file with ⟨htokens, -⟩ | ⟨place, htokens⟩
  · rw [htokens]
  · rw [htokens, Token.upToEnd_append_of_end h]

/-- The end that is put behind tokens without one depends on nothing else. -/
theorem upToEnd_ofTokens (hne : ts ≠ []) (h : upToEnd us = upToEnd ts) (file file' : String) :
    upToEnd (ofTokens us file').tokens = upToEnd (ofTokens ts file).tokens := by
  have hiff : (∃ t ∈ us, t.kind = .eof) ↔ ∃ t ∈ ts, t.kind = .eof := by
    rw [← Token.exists_end_upToEnd_iff, h, Token.exists_end_upToEnd_iff]
  by_cases hend : ∃ t ∈ ts, t.kind = .eof
  · rw [upToEnd_ofTokens_of_end (hiff.2 hend), upToEnd_ofTokens_of_end hend, h]
  · have hall : ∀ {vs : List Token}, (¬ ∃ t ∈ vs, t.kind = .eof) → upToEnd vs = vs := by
      intro vs hvs
      have happend := Token.upToEnd_append (fun t ht hkind => hvs ⟨t, ht, hkind⟩) []
      simpa [upToEnd] using happend
    rw [hall (fun hus => hend (hiff.1 hus)), hall hend] at h
    obtain ⟨t, ts, rfl⟩ := List.exists_cons_of_ne_nil hne
    rw [h]
    rfl

end Stream

/-- The program that is read depends on the tokens up to the first end of the text only. -/
theorem parse_eq_of_upToEnd {ts us : List Token} (h : upToEnd us = upToEnd ts)
    (file file' : String) : parse us file' = parse ts file := by
  cases ts with
  | nil =>
    cases us with
    | nil => rfl
    | cons t us =>
      obtain ⟨vs, hvs⟩ := Token.exists_upToEnd_cons t us
      rw [hvs] at h
      cases h
  | cons t ts =>
    have hsame := Stream.upToEnd_ofTokens (List.cons_ne_nil t ts) h file file'
    cases hparse : parse (t :: ts) file with
    | ok p =>
      obtain ⟨vs, s', hreads, hend, hderives⟩ := exists_reads_of_parse hparse
      obtain ⟨s₁, hreads₁, hcurrent⟩ := hreads.exists_of_upToEnd hsame
      have hend₁ : s₁.kind = .eof := by rw [Stream.kind, hcurrent, ← hend, Stream.kind]
      simp only [parse, Stream.program_eq_done id hreads₁.tokens hend₁ hderives]
    | error e =>
      obtain ⟨r, hr⟩ := parse_eq_error_iff.1 hparse
      obtain ⟨vs, s', hreads, -, -, hfails⟩ :=
        Stream.program_failed (Stream.proper_ofTokens (t :: ts) file) hr
      obtain ⟨s₁, hreads₁, hcurrent⟩ := hreads.exists_of_upToEnd hsame
      exact parse_eq_error_iff.2
        (hfails _ s₁ (Stream.proper_ofTokens us file') hreads₁.tokens hcurrent)

/-! ## Every place in front of the end -/

/-- Reading from this place makes progress: a statement or an expression that is read passes at
least one token, no fault is found behind the first end of the text, and the loops of the parser
take no more rounds than there are tokens left. -/
structure Stream.Progresses (s : Stream) : Prop where
  stmt : (chalk.read (·.stmt) s).Yields s fun _ ts _ => 0 < ts.length
  expr (p : Power) : (chalk.read (·.expr p) s).Yields s fun _ ts _ => 0 < ts.length
  program : ReadsList (·.program) .eof (·.stmt) (pure () : Parser Unit) s
  body : ReadsList (·.body) (.sign .closeCurly) Parts.bodyItem (expect (.sign .closeCurly)) s
  arguments : ReadsList (·.arguments) (.sign .closeParen) Parts.argumentItem
    (expect (.sign .closeParen)) s
  params : ReadsList (·.params) (.sign .closeParen) Parts.paramItem (expect (.sign .closeParen)) s
  tail (p : Power) {head : HeadRule} {left : ParsedExpr} {s' : Stream}
    (hhead : chalk.head s.kind = some head) (hleft : chalk.read (·.headRule head) s = .done left s') :
    (tailLoop p).Ends left s' pure (chalk.read (·.expr p) s)

/-- Parsing makes progress wherever it is started in front of the first end of the text, and does
not depend on what stands behind that end. -/
theorem parsing_progresses {ts before : List Token} {file : String} {s : Stream}
    (hs : (Stream.ofTokens ts file).Reads before s) :
    s.Progresses ∧ ∀ us file', upToEnd us = upToEnd ts → parse us file' = parse ts file := by
  have hproper := hs.proper (Stream.proper_ofTokens ts file)
  refine ⟨?_, fun us file' h => parse_eq_of_upToEnd h file file'⟩
  exact {
    stmt := stmt_yields hproper
    expr := fun p => expr_yields p hproper
    program := programPart.readsList hproper
    body := bodyPart.readsList hproper
    arguments := argumentsPart.readsList hproper
    params := paramsPart.readsList hproper
    tail := fun p => tailLoop_ends hproper }

/-- Two tokens into a statement, with further tokens behind the first end of the text. -/
theorem parsing_progresses_callInParens :
    ∃ s, (Stream.ofTokens (callInParens ++ .endAt default :: callInParens) "main").Reads
        (callInParens.take 2) s ∧
      s.Progresses ∧
      parse (callInParens ++ [.endAt default]) "" =
        parse (callInParens ++ .endAt default :: callInParens) "main" := by
  have hreads : (Stream.ofTokens (callInParens ++ .endAt default :: callInParens) "main").Reads
      (callInParens.take 2)
      (Stream.ofTokens (callInParens.drop 2 ++ .endAt default :: callInParens) "main") :=
    ⟨rfl, by decide⟩
  obtain ⟨hprogresses, hparse⟩ := parsing_progresses hreads
  exact ⟨_, hreads, hprogresses, hparse _ _ rfl⟩

end Chalk
