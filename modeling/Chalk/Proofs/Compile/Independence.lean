import Chalk.Compile
import Chalk.Proofs.Grammar.Relocation
import Chalk.Proofs.Token.Concatenation
import Chalk.Proofs.Typing.Relocation

/-!
# Only tokens count

What becomes of a source is decided by the kinds and texts of its tokens. When tokens are moved to
other places, the C text made of them stays, and a fault in them is moved along
(`compileTokens_relocate`). Two sources with the same tokens in different places have the same
tokens when all are moved to one place, so the two agree in all but the places of their faults
(`compile_eq_of_tokens`). The name of the file is part of a place, so a report is the same under any
name (`compile_rename`, `CompileError.report_rename`).
-/

namespace Chalk

/-- A token without its place. -/
def Token.bare (t : Token) : Token.Kind × String :=
  (t.kind, t.value)

namespace CompileError

/-- A fault without its place: what is wrong with the form of a program, which shows when it is
read, or with its meaning, which shows when it is checked. -/
def fault : CompileError → SyntaxError.Cause ⊕ SemanticError.Cause
  | syntactic e => .inl e.cause
  | semantic e => .inr e.cause

def move (m : Relocation) : CompileError → CompileError
  | syntactic e => .syntactic (m.fault e)
  | semantic e => .semantic (e.mapLine m.note)

theorem fault_move (m : Relocation) (e : CompileError) : (e.move m).fault = e.fault := by
  cases e <;> rfl

variable {e e' : CompileError}

/-- Of a fault, only the place is not part of its name, message and advice. -/
theorem texts_eq_of_fault_eq (h : e.fault = e'.fault) :
    e.name = e'.name ∧ e.message = e'.message ∧ e.tip? = e'.tip? := by
  cases e with
  | syntactic e =>
    cases e' with
    | syntactic e' =>
      have hcause : e.cause = e'.cause := Sum.inl.inj h
      simp only [name, message, tip?, hcause, and_self]
    | semantic e' => cases h
  | semantic e =>
    cases e' with
    | syntactic e' => cases h
    | semantic e' =>
      have hcause : e.cause = e'.cause := Sum.inr.inj h
      simp only [name, message, tip?, hcause, and_self]

end CompileError

/-- The C text of a list of tokens. -/
def compileTokens (tokens : List Token) (file : String) : Except CompileError String := do
  let program ← (parse tokens file).mapError .syntactic
  (compileProgram program).mapError .semantic

theorem compile_of_tokenize {source file : String} {ts : List Token}
    (h : tokenize source file = .ok ts) : compile source file = compileTokens ts file := by
  simp only [compile, readProgram, h]
  rfl

/-- Moved tokens have the same C text, or the same fault, moved. -/
theorem compileTokens_relocate (m : Relocation) (ts : List Token) (file file' : String) :
    compileTokens (ts.map m.token) file' = (compileTokens ts file).mapError (·.move m) := by
  rw [compileTokens, compileTokens, parse_relocate m ts file file']
  cases parse ts file with
  | error e => rfl
  | ok p =>
    show (compileProgram (p.map (Stmt.map m.note m.note))).mapError CompileError.semantic =
      ((compileProgram p).mapError CompileError.semantic).mapError _
    rw [compileProgram, compileProgram, typeCheck_map]
    cases typeCheck p with
    | error e => rfl
    | ok t => rfl

/-- All places are moved to one. -/
def Relocation.forget : Relocation where
  place _ := .nowhere
  line _ := 1
  line_place _ := rfl

theorem Relocation.map_forget_eq {ts ts' : List Token}
    (h : ts.map Token.bare = ts'.map Token.bare) :
    ts.map forget.token = ts'.map forget.token := by
  have htoken : forget.token = (fun b => ⟨b.1, b.2, ⟨.nowhere, .nowhere⟩⟩) ∘ Token.bare := rfl
  rw [htoken, ← List.map_map, h, List.map_map]

/-- Two sources whose tokens agree in kind and text, whatever their files and wherever the tokens
stand, have the same C text, or both have a fault, found at the same stage and for the same cause:
the name, the message and the advice are the same. -/
theorem compile_eq_of_tokens {source source' file file' : String} {ts ts' : List Token}
    (h : tokenize source file = .ok ts) (h' : tokenize source' file' = .ok ts')
    (hsame : ts.map Token.bare = ts'.map Token.bare) :
    (∃ text, compile source file = .ok text ∧ compile source' file' = .ok text) ∨
      ∃ e e', compile source file = .error e ∧ compile source' file' = .error e' ∧
        e.fault = e'.fault ∧ e.name = e'.name ∧ e.message = e'.message ∧ e.tip? = e'.tip? := by
  have hmoved : (compileTokens ts file).mapError (·.move .forget) =
      (compileTokens ts' file').mapError (·.move .forget) := by
    rw [← compileTokens_relocate .forget ts file file', ← compileTokens_relocate .forget ts' file',
      Relocation.map_forget_eq hsame]
  rw [compile_of_tokenize h, compile_of_tokenize h']
  cases hleft : compileTokens ts file with
  | ok text =>
    cases hright : compileTokens ts' file' with
    | ok text' =>
      rw [hleft, hright] at hmoved
      cases hmoved
      exact .inl ⟨text, rfl, rfl⟩
    | error e' =>
      rw [hleft, hright] at hmoved
      cases hmoved
  | error e =>
    cases hright : compileTokens ts' file' with
    | ok text' =>
      rw [hleft, hright] at hmoved
      cases hmoved
    | error e' =>
      rw [hleft, hright] at hmoved
      have hmove : e.move .forget = e'.move .forget := Except.error.inj hmoved
      have hfault : e.fault = e'.fault := by
        rw [← e.fault_move .forget, hmove, e'.fault_move]
      exact .inr ⟨e, e', rfl, rfl, hfault, CompileError.texts_eq_of_fault_eq hfault⟩

/-- An assignment to a constant on the second line. -/
def assignedConstant : String :=
  "let x: int = 1;\nx = 2;"

/-- The same, on the fourth line behind a comment. -/
def assignedConstantLater : String :=
  "let x:int=1; // fixed\n\n\n\tx  =2;"

theorem compile_assignedConstant :
    ∃ ts ts', tokenize assignedConstant "main" = .ok ts ∧
      tokenize assignedConstantLater "shell" = .ok ts' ∧
      ts.map Token.bare = ts'.map Token.bare ∧
      ((∃ text, compile assignedConstant "main" = .ok text ∧
        compile assignedConstantLater "shell" = .ok text) ∨
      ∃ e e', compile assignedConstant "main" = .error e ∧
        compile assignedConstantLater "shell" = .error e' ∧
        e.fault = e'.fault ∧ e.name = e'.name ∧ e.message = e'.message ∧ e.tip? = e'.tip?) := by
  have hok : (tokenize assignedConstant "main").isOk = true := by decide +kernel
  have hok' : (tokenize assignedConstantLater "shell").isOk = true := by decide +kernel
  have hbare : (tokenize assignedConstant "main").toOption.map (·.map Token.bare) =
      (tokenize assignedConstantLater "shell").toOption.map (·.map Token.bare) := by
    decide +kernel
  cases h : tokenize assignedConstant "main" with
  | error e => rw [h] at hok; cases hok
  | ok ts =>
    cases h' : tokenize assignedConstantLater "shell" with
    | error e => rw [h'] at hok'; cases hok'
    | ok ts' =>
      rw [h, h'] at hbare
      have hsame : ts.map Token.bare = ts'.map Token.bare := Option.some.inj hbare
      exact ⟨ts, ts', rfl, rfl, hsame, compile_eq_of_tokens h h' hsame⟩

/-! ## The name of the file -/

/-- Moves places to a file of another name. -/
def Relocation.rename (file : String) : Relocation where
  place p := { p with file }
  line n := n
  line_place _ := rfl

theorem tokenize_rename (source file file' : String) :
    tokenize source file' = ((tokenize source file).mapError (Relocation.rename file').fault).map
      (List.map (Relocation.rename file').token) := by
  have hplace : ∀ before, (Relocation.rename file').place (.behind file before) =
      .behind file' ([] ++ before) := fun _ => rfl
  exact Cursor.scan_relocate (.rename file') hplace [] source.toList

/-- Under another name a source has the same C text, or the same fault at the place in that file. -/
theorem compile_rename (source file file' : String) :
    compile source file' = (compile source file).mapError (·.move (.rename file')) := by
  have htokens := tokenize_rename source file file'
  cases h : tokenize source file with
  | error e =>
    rw [h] at htokens
    simp only [compile, readProgram, h, htokens]
    rfl
  | ok ts =>
    rw [h] at htokens
    rw [compile_of_tokenize h, compile_of_tokenize htokens, compileTokens_relocate]

/-- A report does not show the name of the file. -/
theorem CompileError.report_rename (e : CompileError) (file source : String) :
    (e.move (.rename file)).report source = e.report source := by
  cases e with
  | syntactic e => rfl
  | semantic e =>
    obtain ⟨cause, line⟩ := e
    cases line with
    | none => rfl
    | some line => rfl

end Chalk
