import Chalk.Proofs.Compile.Independence
import Chalk.Proofs.Grammar.EarliestFault
import Chalk.Proofs.Token.Visible

/-!
# Where faults come from

A fault of form stands at a token, or where the source cannot be cut into tokens. A fault of meaning
knows only a line, which it has from the tree, and the tree has it from a token: were it no line of
a token, it could be changed and the tree would stay the same (`exists_token_of_typeCheck`). So each
fault of a source comes from a character that is not blank, or from its end (`compile_origin`).
-/

namespace Chalk

namespace Phrase

/-- A change of lines that leaves the tree of a phrase as it is. -/
def Fixed (f : Line → Line) : Phrase → Prop
  | chain _ e | unary e | atom e => e.map f = e
  | callee _ line => f line = line
  | arguments es => es.map (Expr.map f) = es
  | params _ | returns _ => True
  | stmt s | branch s => s.map f f = s
  | otherwise body | block body | stmts body => body.map (Stmt.map f f) = body

theorem fixed_operand {f : Line → Line} {p : Power} {e : ParsedExpr} :
    (operand p e).Fixed f ↔ e.map f = e := by
  cases p <;> rfl

end Phrase

theorem Expr.note_map {ν μ : Type} (f : ν → μ) (e : Expr ν) : (e.map f).note = f e.note := by
  cases e <;> rfl

/-- The lines in the tree of a phrase are those of its tokens: what leaves them as they are leaves
the whole tree as it is. -/
theorem Derives.fixed {reads : String → Number → Prop} {φ : Phrase} {ts : List Token}
    {f : Line → Line} (h : Derives reads φ ts) (hf : ∀ t ∈ ts, f (some t.line) = some t.line) :
    φ.Fixed f := by
  induction h with
  | ofOperand _ ih => exact Phrase.fixed_operand.1 (ih hf)
  | @operation _ _ l r _ _ _ _ _ ihl ihr =>
    simp only [List.forall_mem_append, List.forall_mem_cons] at hf
    have hl : l.map f = l := ihl hf.1
    have hr : r.map f = r := Phrase.fixed_operand.1 (ihr hf.2.2)
    have hnote : f l.note = l.note := (Expr.note_map f l).symm.trans (congrArg Expr.note hl)
    simp only [Phrase.Fixed, Expr.map, hl, hr, hnote]
  | _ =>
    simp_all [Phrase.Fixed, Phrase.expr, Phrase.operand, Expr.map, Stmt.map, Expr.mapList_eq,
      Stmt.mapList_eq, or_imp, forall_and]

/-- The line of a fault of meaning is the line of a token. -/
theorem exists_token_of_typeCheck {reads : String → Number → Prop} {p : Program} {ts : List Token}
    {e : SemanticError} (hp : Derives reads (.stmts p) ts) (h : typeCheck p = .error e) :
    ∃ t ∈ ts, e.line = some t.line := by
  by_contra hne
  -- a change of this one line leaves the program as it is, but would change the fault
  obtain ⟨line, hline⟩ : ∃ line : Line, line ≠ e.line := by
    cases e.line with
    | none => exact ⟨some 0, nofun⟩
    | some n => exact ⟨none, nofun⟩
  let f : Line → Line := fun l => if l = e.line then line else l
  have hfixed : p.map (Stmt.map f f) = p :=
    hp.fixed fun t ht => if_neg fun heq => hne ⟨t, ht, heq.symm⟩
  have hmap := typeCheck_map f p
  rw [hfixed, h] at hmap
  have hsame : e.line = f e.line := congrArg SemanticError.line (Except.error.inj hmap)
  exact hline ((if_pos rfl).symm.trans hsame.symm)

/-- The tokens that a program is read from. -/
theorem exists_derives_of_parse {ts : List Token} {file : String} {p : Program}
    (hends : (Stream.ofTokens ts file).tokens = ts) (h : parse ts file = .ok p) :
    ∃ us, Derives Number.Read (.stmts p) us ∧ ∀ t ∈ us, t ∈ ts ∧ t.kind ≠ .eof := by
  obtain ⟨us, s', hreads, -, hderives⟩ := exists_reads_of_parse h
  refine ⟨us, hderives, fun t ht => ⟨?_, hreads.inside t ht⟩⟩
  rw [← hends, hreads.tokens]
  exact List.mem_append_left _ ht

/-! ## Faults of a source -/

namespace CompileError

/-- Where the faults of a source can stand: at a character that is not blank, or, if they are faults
of form, at the end of a source that has such a character. -/
inductive Origin (file : String) (source : List Char) : CompileError → Prop
  | form {e : SyntaxError} (visible : e.position.Visible file source) :
      Origin file source (.syntactic e)
  | atEnd {e : SyntaxError} (position : e.position = .behind file source)
      (visible : ∃ p : Position, p.Visible file source) : Origin file source (.syntactic e)
  | meaning {e : SemanticError} {p : Position} (visible : p.Visible file source)
      (line : e.line = some p.line) : Origin file source (.semantic e)

end CompileError

theorem origin_of_parse {source file : String} {ts : List Token} {e : SyntaxError}
    (htokens : tokenize source file = .ok ts) (h : parse ts file = .error e) :
    CompileError.Origin file source.toList (.syntactic e) := by
  obtain ⟨pieces, rfl, hpieces⟩ := exists_pieces_of_tokenize htokens
  obtain ⟨before, t, behind, hts, hshows, -⟩ :=
    exists_fault_of_parse (Stream.tokens_ofTokens_of_end ..) h
  have hmem : t ∈ pieces ++ [.endAt (.behind file source.toList)] := by
    rw [hts]
    exact List.mem_append_right _ List.mem_cons_self
  rcases List.mem_append.1 hmem with hpiece | hlast
  · refine .form ?_
    rw [hshows.position]
    exact hpieces t hpiece
  · cases List.mem_singleton.1 hlast
    -- without a token there is an empty program
    have hne : pieces ≠ [] := by
      rintro rfl
      cases h
    obtain ⟨u, us, rfl⟩ := List.exists_cons_of_ne_nil hne
    exact .atEnd hshows.position ⟨u.span.start, hpieces u List.mem_cons_self⟩

theorem origin_of_typeCheck {source file : String} {ts : List Token} {p : Program}
    {e : SemanticError} (htokens : tokenize source file = .ok ts) (hparse : parse ts file = .ok p)
    (h : typeCheck p = .error e) : CompileError.Origin file source.toList (.semantic e) := by
  obtain ⟨pieces, rfl, hpieces⟩ := exists_pieces_of_tokenize htokens
  obtain ⟨us, hderives, hus⟩ := exists_derives_of_parse (Stream.tokens_ofTokens_of_end ..) hparse
  obtain ⟨t, ht, hline⟩ := exists_token_of_typeCheck hderives h
  obtain ⟨hmem, hkind⟩ := hus t ht
  rcases List.mem_append.1 hmem with hpiece | hlast
  · exact .meaning (hpieces t hpiece) hline
  · cases List.mem_singleton.1 hlast
    exact absurd rfl hkind

/-- Each fault of a source has an origin in it. -/
theorem compile_origin {source file : String} {e : CompileError}
    (h : compile source file = .error e) : e.Origin file source.toList := by
  cases htokens : tokenize source file with
  | error e' =>
    have hvisible := Cursor.visible_of_scan file [] source.toList
    rw [show (Cursor.behind file [] source.toList).scan = .error e' from htokens] at hvisible
    simp only [compile, readProgram, htokens] at h
    cases h
    exact .form hvisible
  | ok ts =>
    rw [compile_of_tokenize htokens, compileTokens] at h
    cases hparse : parse ts file with
    | error e' =>
      rw [hparse] at h
      cases h
      exact origin_of_parse htokens hparse
    | ok p =>
      have hprogram : (compileProgram p).mapError CompileError.semantic = .error e := by
        rwa [hparse] at h
      cases hcheck : typeCheck p with
      | ok typed =>
        rw [compileProgram, hcheck] at hprogram
        cases hprogram
      | error e' =>
        rw [compileProgram, hcheck] at hprogram
        cases hprogram
        exact origin_of_typeCheck htokens hparse hcheck

end Chalk
