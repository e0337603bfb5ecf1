import Chalk.Compile
import Chalk.Proofs.C.Occurrences
import Chalk.Proofs.Typing.Agreement

/-!
# Scopes in C

Names are written in C as they are, but they do not have the same scopes there.

The functions of a program are written out first, and everything else becomes the body of `main`. So
a function that uses a variable of the program itself does not find it. What functions find is said
exactly by `hoisting_keeps_names_iff`: the functions that they call and that are not their own are
always written out before them, and the variables that they use and do not define are in `main`.

A variable is visible in C already in its own initial value. A declaration that mentions its own
name there meant what the name stood for before; `mentions_itself_iff` says when that happens.
-/

namespace Chalk

/-! ## Functions in front -/

namespace C

/-- The functions before a function are written out before it, those behind it behind it, and all
other statements in `main`. -/
theorem programLines_function (pre post : List TypedStmt) (f : Signature) (body : List TypedStmt) :
    programLines (pre ++ .function f body () :: post) =
      preamble ++ Stmt.cBody 0 (pre.filter Stmt.isFunction) ++ Stmt.cLines 0 (.function f body ()) ++
        Stmt.cBody 0 (post.filter Stmt.isFunction) ++
        if (pre ++ post).filter (!·.isFunction) = [] then []
        else mainLines ((pre ++ post).filter (!·.isFunction)) := by
  have hfunction : Stmt.isFunction (.function f body () : TypedStmt) = true := rfl
  simp only [programLines_eq, Stmt.cBody_eq, List.filter_append, List.filter_cons, hfunction,
    if_true, Bool.not_true, Bool.false_eq_true, if_false, List.flatMap_append, List.flatMap_cons,
    List.append_assoc]

end C

/-- One of the statements is a function with the name. -/
def DefinesFunction (ss : List TypedStmt) (x : String) : Prop :=
  ∃ g body, Stmt.function g body () ∈ ss ∧ g.name = x

/-- The mention reads or changes a variable that is declared by one of the statements. -/
def Mention.RefersToVariable (ss : List TypedStmt) (m : Mention) : Prop :=
  (m.role = .read ∨ m.role = .write) ∧
    ∃ v value, Stmt.declare v value () ∈ ss ∧ v.name = m.name ∧
      Env.empty.after ss m.name = some (.var v.ty v.mutable)

/-- A function of a program that obeys the rules finds what it does not define itself among the
statements before it. -/
theorem WellTyped.resolves_function {p : Program} {pre post : List TypedStmt} {f : Signature}
    {body : List TypedStmt}
    (h : WellTyped none .empty p (pre ++ .function f body () :: post)) :
    ∀ m ∈ Stmt.unbound [] (.function f body ()), m.Resolves (Env.empty.after pre) := by
  obtain ⟨ss, hbehind⟩ := h.behind
  have hself : Env.AgreeOutside [] (Env.empty.after pre) (Env.empty.after pre) := fun _ _ => rfl
  intro m hm
  obtain ⟨o, ho, hunbound⟩ := List.mem_filterMap.1 hm
  have hmem : o ∈ Stmt.occurrencesList [] (.function f body () :: post) :=
    List.mem_append_left _ ho
  exact hbehind.resolves_occurrences hself o hmem m hunbound

namespace Mention.Resolves

variable {ss : List TypedStmt} {m : Mention}

theorem exists_binding {Γ : Env} (h : m.Resolves Γ) (hrole : m.role ≠ .word) :
    ∃ b, Γ m.name = some b := by
  unfold Resolves at h
  split at h
  · obtain ⟨ty, mutable, hname⟩ := h
    exact ⟨_, hname⟩
  · obtain ⟨ty, hname⟩ := h
    exact ⟨_, hname⟩
  · obtain ⟨params, ty, hname⟩ := h
    exact ⟨_, hname⟩
  · next hword => exact absurd hword hrole

theorem definesFunction (h : m.Resolves (Env.empty.after ss)) (hrole : m.role = .call) :
    DefinesFunction ss m.name := by
  simp only [Resolves, hrole] at h
  obtain ⟨params, ty, hname⟩ := h
  rcases Env.after_eq_some hname with hempty | ⟨s, hs, hbinding⟩
  · cases hempty
  · cases s with
    | function g body note =>
      simp only [Stmt.binding?, Option.some.injEq, Prod.mk.injEq] at hbinding
      exact ⟨g, body, hs, hbinding.1⟩
    | _ => simp [Stmt.binding?] at hbinding

theorem refersToVariable (h : m.Resolves (Env.empty.after ss))
    (hrole : m.role = .read ∨ m.role = .write) : m.RefersToVariable ss := by
  refine ⟨hrole, ?_⟩
  obtain ⟨ty, mutable, hname⟩ :
      ∃ ty mutable, Env.empty.after ss m.name = some (.var ty mutable) := by
    rcases hrole with hrole | hrole
    · simpa only [Resolves, hrole] using h
    · simp only [Resolves, hrole] at h
      obtain ⟨ty, hname⟩ := h
      exact ⟨ty, true, hname⟩
  rcases Env.after_eq_some hname with hempty | ⟨s, hs, hbinding⟩
  · cases hempty
  · cases s with
    | declare v value note =>
      simp only [Stmt.binding?, Option.some.injEq, Prod.mk.injEq] at hbinding
      exact ⟨v, value, hs, hbinding.1, hbinding.2 ▸ hname⟩
    | _ => simp [Stmt.binding?] at hbinding

end Mention.Resolves

/-- A function is written out behind the functions before it, and in front of `main`. The names that
it mentions and does not define itself, before it mentions them, are all names of those functions
and none of them stands for a variable of `main`, if and only if it mentions them only to call them.
In any case, what it calls is one of those functions; what it reads or changes is a variable that
`main` declares; and there is nothing else but words of numbers without digits. In a program whose
names are names, what is mentioned can be read from the lines of the function. -/
theorem hoisting_keeps_names_iff {p : Program} {pre post : List TypedStmt} {f : Signature}
    {body : List TypedStmt} (h : typeCheck p = .ok (pre ++ .function f body () :: post)) :
    C.programLines (pre ++ .function f body () :: post) =
        C.preamble ++ Stmt.cBody 0 (pre.filter Stmt.isFunction) ++
          Stmt.cLines 0 (.function f body ()) ++ Stmt.cBody 0 (post.filter Stmt.isFunction) ++
          (if (pre ++ post).filter (!·.isFunction) = [] then []
          else C.mainLines ((pre ++ post).filter (!·.isFunction))) ∧
      ((∀ x ∈ Stmt.namesList p, IsName x) →
        (Stmt.cLines 0 (.function f body ())).flatMap (C.words ·.toList) =
          (Stmt.occurrences [] (.function f body ())).map Occurrence.word) ∧
      ((∀ m ∈ Stmt.unbound [] (.function f body ()),
          DefinesFunction pre m.name ∧ ¬ m.RefersToVariable pre) ↔
        ∀ m ∈ Stmt.unbound [] (.function f body ()),
          m.role = .call ∨ m.role = .word ∧ DefinesFunction pre m.name) ∧
      ∀ m ∈ Stmt.unbound [] (.function f body ()),
        m.role = .call ∧ DefinesFunction pre m.name ∨ m.RefersToVariable pre ∨
          m.role = .word ∧ ∃ v : Number, v.word? = some m.name := by
  have hwell : WellTyped none .empty p _ := (Stmt.checkAll_iff p).1 h
  have hresolves := hwell.resolves_function
  refine ⟨C.programLines_function pre post f body, fun hnames => ?_,
    ⟨fun hkept m hm => ?_, fun hcalls m hm => ?_⟩, fun m hm => ?_⟩
  · rw [← hwell.namesList_eq] at hnames
    exact Stmt.words_cLines _ 0 [] (Stmt.forall_mem_namesList.1 hnames _ (by simp))
  · obtain ⟨hfunction, hvariable⟩ := hkept m hm
    have hfound := (hresolves m hm).refersToVariable
    cases hrole : m.role with
    | call => exact .inl rfl
    | word => exact .inr ⟨rfl, hfunction⟩
    | read => exact absurd (hfound (.inl hrole)) hvariable
    | write => exact absurd (hfound (.inr hrole)) hvariable
  · rcases hcalls m hm with hrole | ⟨hrole, hfunction⟩
    · exact ⟨(hresolves m hm).definesFunction hrole, by simp [Mention.RefersToVariable, hrole]⟩
    · exact ⟨hfunction, by simp [Mention.RefersToVariable, hrole]⟩
  · have hfound := (hresolves m hm).refersToVariable
    cases hrole : m.role with
    | call => exact .inl ⟨rfl, (hresolves m hm).definesFunction hrole⟩
    | read => exact .inr (.inl (hfound (.inl hrole)))
    | write => exact .inr (.inl (hfound (.inr hrole)))
    | word =>
      have hword := hresolves m hm
      simp only [Mention.Resolves, hrole] at hword
      exact .inr (.inr ⟨rfl, hword⟩)

/-- A function that calls itself and the function before it, and hides a variable of the program. -/
def selfContained : Program :=
  [.function ⟨"g", [("n", .int)], .int⟩ [.ret (some (.var "n" none)) none] none,
    .declare ⟨"y", .int, true⟩ (.number (.int 2) none) none,
    .function ⟨"f", [("n", .int)], .int⟩
      [.declare ⟨"y", .int, false⟩ (.call "g" [.var "n" none] none) none,
        .ret (some (.call "f" [.var "y" none] none)) none] none]

theorem selfContained_keeps_names : ∃ pre f body,
    typeCheck selfContained = .ok (pre ++ [.function f body ()]) ∧
      ∀ m ∈ Stmt.unbound [] (.function f body ()),
        DefinesFunction pre m.name ∧ ¬ m.RefersToVariable pre := by
  let g : TypedStmt := .function ⟨"g", [("n", .int)], .int⟩ [.ret (some (.var "n" .int)) ()] ()
  let y : TypedStmt := .declare ⟨"y", .int, true⟩ (.number (.int 2) .int) ()
  let body : List TypedStmt :=
    [.declare ⟨"y", .int, false⟩ (.call "g" [.var "n" .int] .int) (),
      .ret (some (.call "f" [.var "y" .int] .int)) ()]
  have hcheck : typeCheck selfContained =
      .ok ([g, y] ++ [.function ⟨"f", [("n", .int)], .int⟩ body ()]) := rfl
  obtain ⟨-, -, hiff, -⟩ := hoisting_keeps_names_iff hcheck
  have hcalls : ∀ m ∈ Stmt.unbound [] (.function ⟨"f", [("n", .int)], .int⟩ body ()),
      m.role = .call := by decide
  exact ⟨_, _, _, hcheck, hiff.2 fun m hm => .inl (hcalls m hm)⟩

/-- A function that reads a variable of the program. -/
def sharedVariable : Program :=
  [.declare ⟨"x", .int, false⟩ (.number (.int 1) none) none,
    .function ⟨"f", [], .int⟩ [.ret (some (.var "x" none)) none] none]

/-- The function is written out before `main`, in which its variable is declared. -/
theorem sharedVariable_unbound : ∃ pre f body,
    typeCheck sharedVariable = .ok (pre ++ [.function f body ()]) ∧
      C.generate (pre ++ [.function f body ()]) =
        "#include <stdio.h>\n#include <string.h>\n\nint f() \x7b\n    return x;\n\x7d\n\n" ++
          "int main() \x7b\n    const int x = 1;\n    return 0;\n\x7d" ∧
      ∃ m ∈ Stmt.unbound [] (.function f body ()),
        ¬ DefinesFunction pre m.name ∧ m.RefersToVariable pre := by
  refine ⟨[.declare ⟨"x", .int, false⟩ (.number (.int 1) .int) ()], ⟨"f", [], .int⟩,
    [.ret (some (.var "x" .int)) ()], rfl, by decide +kernel, ⟨.read, "x"⟩, by decide, ?_, ?_⟩
  · rintro ⟨g, body, hmem, -⟩
    cases List.mem_singleton.1 hmem
  · exact ⟨.inl rfl, _, _, List.mem_singleton.2 rfl, rfl, rfl⟩

/-! ## Variables in their own initial values -/

namespace Declaration

/-- A declaration in C. -/
def cText (d : Declaration) : String :=
  (if d.target.mutable then "" else "const ") ++ d.target.ty.cName ++ " " ++ d.target.name ++
    " = " ++ d.value.cText ++ ";"

/-- The name that is declared stands in the C text of the value, too. -/
def MentionsItself (d : Declaration) : Prop :=
  ∃ m ∈ d.value.mentions, m.name = d.target.name

end Declaration

namespace Stmt

mutual

/-- Each declaration has its line. -/
theorem exists_line_declarations : ∀ (s : TypedStmt) (Γ : Env) (depth : Nat),
    ∀ d ∈ s.declarations Γ, ∃ k, C.indented k d.cText ∈ s.cLines depth
  | .declare .., _, depth => List.forall_mem_singleton.2 ⟨depth, List.mem_singleton.2 rfl⟩
  | .branch e a b _, Γ, depth => by
    refine List.forall_mem_append.2 ⟨fun d hd => ?_, fun d hd => ?_⟩
    · obtain ⟨k, hk⟩ := exists_line_declarationsList a Γ (depth + 1) d hd
      exact ⟨k, by simp [cLines, hk]⟩
    · obtain ⟨k, hk⟩ := exists_line_declarationsList b Γ (depth + 1) d hd
      cases b with
      | nil => cases hd
      | cons s b => exact ⟨k, by simp [cLines, hk]⟩
  | .loop e a _, Γ, depth => by
    intro d hd
    obtain ⟨k, hk⟩ := exists_line_declarationsList a Γ (depth + 1) d hd
    exact ⟨k, by simp [cLines, hk]⟩
  | .function f a _, Γ, depth => by
    intro d hd
    obtain ⟨k, hk⟩ := exists_line_declarationsList a _ (depth + 1) d hd
    exact ⟨k, by simp [cLines, hk]⟩
  | .assign .., _, _ | .ret .., _, _ | .print .., _, _ | .expr .., _, _ => by simp [declarations]

theorem exists_line_declarationsList : ∀ (ss : List TypedStmt) (Γ : Env) (depth : Nat),
    ∀ d ∈ declarationsList Γ ss, ∃ k, C.indented k d.cText ∈ cBody depth ss
  | [], _, _ => by simp [declarationsList]
  | s :: ss, Γ, depth => by
    refine List.forall_mem_append.2 ⟨fun d hd => ?_, fun d hd => ?_⟩
    · obtain ⟨k, hk⟩ := exists_line_declarations s Γ depth d hd
      exact ⟨k, List.mem_append_left _ hk⟩
    · obtain ⟨k, hk⟩ := exists_line_declarationsList ss _ depth d hd
      exact ⟨k, List.mem_append_right _ hk⟩

end

theorem exists_stmt_of_mem_declarationsList {ss : List TypedStmt} {Γ : Env} {d : Declaration}
    (h : d ∈ declarationsList Γ ss) : ∃ s ∈ ss, ∃ Γ', d ∈ s.declarations Γ' := by
  induction ss generalizing Γ with
  | nil => cases h
  | cons s ss ih =>
    rcases List.mem_append.1 h with h | h
    · exact ⟨s, List.mem_cons_self, Γ, h⟩
    · obtain ⟨s', hs', hd⟩ := ih h
      exact ⟨s', List.mem_cons_of_mem s hs', hd⟩

end Stmt

/-- Each declaration of a program has its line, in a function or in `main`. -/
theorem C.exists_line_of_declaration {t : List TypedStmt} {Γ : Env} {d : Declaration}
    (h : d ∈ Stmt.declarationsList Γ t) : ∃ k, indented k d.cText ∈ programLines t := by
  obtain ⟨s, hs, Γ', hd⟩ := Stmt.exists_stmt_of_mem_declarationsList h
  rw [programLines_eq]
  cases hfunction : s.isFunction with
  | true =>
    obtain ⟨k, hk⟩ := s.exists_line_declarations Γ' 0 d hd
    refine ⟨k, List.mem_append_left _ (List.mem_append_right _ ?_)⟩
    rw [Stmt.cBody_eq]
    exact List.mem_flatMap.2 ⟨s, List.mem_filter.2 ⟨hs, hfunction⟩, hk⟩
  | false =>
    obtain ⟨k, hk⟩ := s.exists_line_declarations Γ' 1 d hd
    have hmem : s ∈ t.filter (!·.isFunction) := List.mem_filter.2 ⟨hs, by rw [hfunction]; rfl⟩
    refine ⟨k, List.mem_append_right _ ?_⟩
    rw [if_neg (List.ne_nil_of_mem hmem), mainLines]
    refine List.mem_append_left _ (List.mem_cons_of_mem _ ?_)
    rw [Stmt.cBody_eq]
    exact List.mem_flatMap.2 ⟨s, hmem, hk⟩

/-- A declaration has a line of its own. In its C text the value mentions the name that is declared
if and only if the name stands for something already in front of the declaration and the value uses
it, or if the name is also the word of a number in the value. In a program whose names are names,
what is mentioned can be read from the text. -/
theorem mentions_itself_iff {p : Program} {t : List TypedStmt} (h : typeCheck p = .ok t)
    {d : Declaration} (hd : d ∈ Stmt.declarationsList .empty t) :
    (∃ k, C.indented k d.cText ∈ C.programLines t) ∧
      (d.MentionsItself ↔
        (∃ b, d.env d.target.name = some b) ∧ d.target.name ∈ d.value.uses ∨
          ⟨.word, d.target.name⟩ ∈ d.value.mentions) ∧
      ((∀ x ∈ Stmt.namesList p, IsName x) →
        (d.MentionsItself ↔ d.target.name ∈ C.words d.value.cText.toList)) := by
  have hwell : WellTyped none .empty p t := (Stmt.checkAll_iff p).1 h
  have hresolves := hwell.resolves_declaration d hd
  refine ⟨C.exists_line_of_declaration hd, ⟨fun hself => ?_, fun hself => ?_⟩, fun hnames => ?_⟩
  · obtain ⟨m, hm, hname⟩ := hself
    by_cases hrole : m.role = .word
    · right
      rw [← hname, ← hrole]
      exact hm
    · left
      refine ⟨?_, Expr.mem_uses_iff.2 ⟨m, hm, hrole, hname⟩⟩
      rw [← hname]
      exact (hresolves m hm).exists_binding hrole
  · rcases hself with ⟨-, huses⟩ | hword
    · obtain ⟨m, hm, -, hname⟩ := Expr.mem_uses_iff.1 huses
      exact ⟨m, hm, hname⟩
    · exact ⟨_, hword, rfl⟩
  · rw [← hwell.namesList_eq] at hnames
    have hvalue : ∀ x ∈ d.value.uses, IsName x := fun x hx =>
      hnames x (Stmt.mem_namesList_of_declarations t .empty d hd x hx)
    rw [Expr.words_cText hvalue]
    exact List.mem_map.symm

/-- A variable in a block, whose value uses a variable outside. -/
def inner (name : String) : Program :=
  [.declare ⟨"x", .int, false⟩ (.number (.int 1) none) none,
    .branch (.bool true none)
      [.declare ⟨name, .int, false⟩ (.binary .add (.var "x" none) (.number (.int 1) none) none) none]
      [] none]

/-- The same program with types. -/
def typedInner (name : String) : List TypedStmt :=
  [.declare ⟨"x", .int, false⟩ (.number (.int 1) .int) (),
    .branch (.bool true .bool)
      [.declare ⟨name, .int, false⟩ (.binary .add (.var "x" .int) (.number (.int 1) .int) .int) ()]
      [] ()]

/-- The declaration in the block. -/
def innerDeclaration (name : String) : Declaration where
  env := Env.empty.bind "x" (.var .int false)
  target := ⟨name, .int, false⟩
  value := .binary .add (.var "x" .int) (.number (.int 1) .int) .int

theorem innerDeclaration_mem (name : String) :
    innerDeclaration name ∈ Stmt.declarationsList .empty (typedInner name) :=
  .tail _ (.head _)

/-- Under another name than the variable outside, the inner variable does not mention itself. -/
theorem inner_not_mentions_itself : typeCheck (inner "y") = .ok (typedInner "y") ∧
    innerDeclaration "y" ∈ Stmt.declarationsList .empty (typedInner "y") ∧
    ¬ (innerDeclaration "y").MentionsItself := by
  have hcheck : typeCheck (inner "y") = .ok (typedInner "y") := rfl
  refine ⟨hcheck, innerDeclaration_mem "y", fun hself => ?_⟩
  obtain ⟨-, hiff, -⟩ := mentions_itself_iff hcheck (innerDeclaration_mem "y")
  rcases hiff.1 hself with ⟨⟨b, hbinding⟩, -⟩ | hword
  · cases hbinding
  · exact absurd hword (by decide)

/-- Under the same name it mentions itself, where the variable outside was meant. -/
theorem inner_mentions_itself : typeCheck (inner "x") = .ok (typedInner "x") ∧
    innerDeclaration "x" ∈ Stmt.declarationsList .empty (typedInner "x") ∧
    C.generate (typedInner "x") =
      "#include <stdio.h>\n#include <string.h>\n\nint main() \x7b\n    const int x = 1;\n" ++
        "    if (1) \x7b\n        const int x = (x + 1);\n    \x7d\n    return 0;\n\x7d" ∧
    (innerDeclaration "x").MentionsItself ∧
    "x" ∈ C.words (innerDeclaration "x").value.cText.toList :=
  ⟨rfl, innerDeclaration_mem "x", by decide +kernel, ⟨⟨.read, "x"⟩, by decide, rfl⟩,
    by decide +kernel⟩

end Chalk
