import Chalk.Proofs.C.Layout
import Chalk.Proofs.Compile.Provenance
import Chalk.Proofs.Typing.Agreement
import Chalk.Proofs.Typing.Resolution

/-!
# Every C text is well nested

A source is compiled in stages (`exists_stages_of_compile`), and its names go through all of them as
they are: from identifiers to the tree that is read, and from there to the tree that is written out
(`isName_of_typeCheck`). So the C text is well nested, whatever the source (`compile_wellNested`).
-/

namespace Chalk

theorem exists_stages_of_compile {source file text : String}
    (h : compile source file = .ok text) : ∃ ts p t, tokenize source file = .ok ts ∧
      parse ts file = .ok p ∧ typeCheck p = .ok t ∧ text = C.generate t := by
  cases htokens : tokenize source file with
  | error e =>
    simp only [compile, readProgram, htokens] at h
    cases h
  | ok ts =>
    rw [compile_of_tokenize htokens, compileTokens] at h
    cases hparse : parse ts file with
    | error e =>
      rw [hparse] at h
      cases h
    | ok p =>
      have hprogram : (compileProgram p).mapError CompileError.semantic = .ok text := by
        rwa [hparse] at h
      cases hcheck : typeCheck p with
      | error e =>
        rw [compileProgram, hcheck] at hprogram
        cases hprogram
      | ok t =>
        rw [compileProgram, hcheck] at hprogram
        cases hprogram
        exact ⟨ts, p, t, rfl, hparse, hcheck, rfl⟩

theorem isName_of_parse {source file : String} {ts : List Token} {p : Program}
    (htokens : tokenize source file = .ok ts) (hparse : parse ts file = .ok p) :
    ∀ x ∈ Stmt.namesList p, IsName x := by
  obtain ⟨pieces, rfl, -⟩ := exists_pieces_of_tokenize htokens
  obtain ⟨us, hderives, hus⟩ := exists_derives_of_parse (Stream.tokens_ofTokens_of_end ..) hparse
  exact hderives.forall_names fun t ht hkind => isName_of_tokenize htokens t (hus t ht).1 hkind

theorem isName_of_typeCheck {source file : String} {ts : List Token} {p : Program}
    {t : List TypedStmt} (htokens : tokenize source file = .ok ts) (hparse : parse ts file = .ok p)
    (hcheck : typeCheck p = .ok t) : ∀ x ∈ Stmt.namesList t, IsName x := by
  have hwell : WellTyped none .empty p t := (Stmt.checkAll_iff p).1 hcheck
  rw [hwell.namesList_eq]
  exact isName_of_parse htokens hparse

/-- The C text of a source is printable, its literals end on their lines, its brackets are nested
and all closed at the end, and each of its lines is indented by the braces that are open. -/
theorem compile_wellNested {source file text : String} (h : compile source file = .ok text) :
    C.WellNested 0 0 text.toList := by
  obtain ⟨ts, p, t, htokens, hparse, hcheck, rfl⟩ := exists_stages_of_compile h
  exact C.wellNested_generate (isName_of_typeCheck htokens hparse hcheck)

/-- Blocks in blocks, and a string of brackets, quotes, backslashes and newlines. -/
def bracketsInString : String :=
  "fn f(s: string) -> int \x7b\n" ++
  "  if (1 < 2) \x7b print(\"\x7d)\\\"\n\x7b\\\\\", s); \x7d else \x7b return 1; \x7d\n" ++
  "  return -2;\n\x7d\nprint(f(\"é\"));"

theorem wellNested_bracketsInString : ∃ text, compile bracketsInString "main" = .ok text ∧
    C.WellNested 0 0 text.toList := by
  have hok : (compile bracketsInString "main").isOk = true := by decide +kernel
  cases h : compile bracketsInString "main" with
  | error e =>
    rw [h] at hok
    cases hok
  | ok text => exact ⟨text, rfl, compile_wellNested h⟩

end Chalk
