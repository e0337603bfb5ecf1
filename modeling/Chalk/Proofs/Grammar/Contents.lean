import Chalk.Proofs.Grammar.Derivation
import Chalk.Proofs.Typing.Relevance

/-!
# What trees are made of

The names and the lines in a tree that was read, at every depth. Both are taken from tokens: a name
is the text of an identifier (`Derives.forall_names`), and a line is the line of a token
(`Derives.forall_notes`).
-/

namespace Chalk

/-! ## Names and notes at every depth -/

namespace Expr

mutual

/-- The notes of all nodes of an expression. -/
def notes {ν : Type} : Expr ν → List ν
  | number _ note | string _ note | bool _ note | var _ note => [note]
  | negate operand note => note :: operand.notes
  | binary _ left right note => note :: (left.notes ++ right.notes)
  | call _ arguments note => note :: notesList arguments

/-- `notes` on a list of expressions. -/
def notesList {ν : Type} : List (Expr ν) → List ν
  | [] => []
  | e :: es => e.notes ++ notesList es

end

theorem forall_mem_usesList {ν : Type} {X : String → Prop} {es : List (Expr ν)} :
    (∀ x ∈ usesList es, X x) ↔ ∀ e ∈ es, ∀ x ∈ e.uses, X x := by
  induction es with
  | nil => simp [usesList]
  | cons e es ih => rw [usesList, List.forall_mem_append, List.forall_mem_cons, ih]

theorem note_mem_notes {ν : Type} (e : Expr ν) : e.note ∈ e.notes := by
  cases e <;> simp [note, notes]

end Expr

namespace Stmt

mutual

/-- The notes of all nodes of a statement, its expressions included. -/
def notes {ν : Type} : Stmt ν ν → List ν
  | declare _ value note | assign _ value note | expr value note => note :: value.notes
  | branch condition thenBody elseBody note =>
    note :: (condition.notes ++ (notesList thenBody ++ notesList elseBody))
  | loop condition body note => note :: (condition.notes ++ notesList body)
  | function _ body note => note :: notesList body
  | ret value note => note :: Expr.notesList value.toList
  | print values note => note :: Expr.notesList values

/-- `notes` on a list of statements. -/
def notesList {ν : Type} : List (Stmt ν ν) → List ν
  | [] => []
  | s :: rest => s.notes ++ notesList rest

end

mutual

/-- The names in a statement, at any depth, used or defined there. -/
def names {ε σ : Type} : Stmt ε σ → List String
  | declare target value _ => target.name :: value.uses
  | assign target value _ => target :: value.uses
  | branch condition thenBody elseBody _ =>
    condition.uses ++ (namesList thenBody ++ namesList elseBody)
  | loop condition body _ => condition.uses ++ namesList body
  | function signature body _ =>
    signature.name :: (signature.params.map Prod.fst ++ namesList body)
  | ret value _ => Expr.usesList value.toList
  | print values _ => Expr.usesList values
  | expr value _ => value.uses

/-- `names` on a list of statements. -/
def namesList {ε σ : Type} : List (Stmt ε σ) → List String
  | [] => []
  | s :: rest => s.names ++ namesList rest

end

theorem forall_mem_namesList {ε σ : Type} {X : String → Prop} {ss : List (Stmt ε σ)} :
    (∀ x ∈ namesList ss, X x) ↔ ∀ s ∈ ss, ∀ x ∈ s.names, X x := by
  induction ss with
  | nil => simp [namesList]
  | cons s ss ih => rw [namesList, List.forall_mem_append, List.forall_mem_cons, ih]

theorem forall_mem_namesList_filter {ε σ : Type} {X : String → Prop} {ss : List (Stmt ε σ)}
    (h : ∀ x ∈ namesList ss, X x) (p : Stmt ε σ → Bool) : ∀ x ∈ namesList (ss.filter p), X x :=
  forall_mem_namesList.2 fun s hs => forall_mem_namesList.1 h s (List.mem_filter.1 hs).1

end Stmt

/-! ## Names do not depend on notes -/

mutual

theorem Expr.uses_map {ν μ : Type} (f : ν → μ) : ∀ e : Expr ν, (e.map f).uses = e.uses
  | .number .. | .string .. | .bool .. | .var .. => rfl
  | .negate e _ => e.uses_map f
  | .binary _ l r _ => by rw [Expr.map, Expr.uses, Expr.uses, l.uses_map f, r.uses_map f]
  | .call _ es _ => by rw [Expr.map, Expr.uses, Expr.uses, Expr.usesList_map f es]

theorem Expr.usesList_map {ν μ : Type} (f : ν → μ) :
    ∀ es : List (Expr ν), Expr.usesList (Expr.mapList f es) = Expr.usesList es
  | [] => rfl
  | e :: es => by
    rw [Expr.mapList, Expr.usesList, Expr.usesList, e.uses_map f, Expr.usesList_map f es]

end

mutual

theorem Stmt.names_map {ε σ ε' σ' : Type} (f : ε → ε') (g : σ → σ') :
    ∀ s : Stmt ε σ, (s.map f g).names = s.names
  | .declare _ e _ | .assign _ e _ | .expr e _ => by
    simp only [Stmt.map, Stmt.names, e.uses_map f]
  | .branch e a b _ => by
    simp only [Stmt.map, Stmt.names, e.uses_map f, Stmt.namesList_map f g a,
      Stmt.namesList_map f g b]
  | .loop e a _ => by simp only [Stmt.map, Stmt.names, e.uses_map f, Stmt.namesList_map f g a]
  | .function _ a _ => by simp only [Stmt.map, Stmt.names, Stmt.namesList_map f g a]
  | .ret none _ => rfl
  | .ret (some e) _ => Expr.usesList_map f [e]
  | .print es _ => by
    rw [Stmt.map, Stmt.names, Stmt.names, ← Expr.mapList_eq, Expr.usesList_map]

theorem Stmt.namesList_map {ε σ ε' σ' : Type} (f : ε → ε') (g : σ → σ') :
    ∀ ss : List (Stmt ε σ), Stmt.namesList (Stmt.mapList f g ss) = Stmt.namesList ss
  | [] => rfl
  | s :: ss => by
    rw [Stmt.mapList, Stmt.namesList, Stmt.namesList, s.names_map f g, Stmt.namesList_map f g ss]

end

namespace Phrase

/-- The names in the tree of a phrase. -/
def names : Phrase → List String
  | chain _ e | unary e | atom e => e.uses
  | callee name _ => [name]
  | arguments es => Expr.usesList es
  | params ps => ps.map Prod.fst
  | returns _ => []
  | stmt s | branch s => s.names
  | otherwise body | block body | stmts body => Stmt.namesList body

/-- The lines in the tree of a phrase. -/
def notes : Phrase → List Line
  | chain _ e | unary e | atom e => e.notes
  | callee _ line => [line]
  | arguments es => Expr.notesList es
  | params _ | returns _ => []
  | stmt s | branch s => s.notes
  | otherwise body | block body | stmts body => Stmt.notesList body

theorem names_operand (p : Power) (e : ParsedExpr) : (operand p e).names = e.uses := by
  cases p <;> rfl

theorem notes_operand (p : Power) (e : ParsedExpr) : (operand p e).notes = e.notes := by
  cases p <;> rfl

end Phrase

/-! ## Trees that tokens make up -/

namespace Derives

variable {reads : String → Number → Prop} {φ : Phrase} {ts : List Token}

/-- What holds of the texts of all identifiers holds of all names in the tree. -/
theorem forall_names {X : String → Prop} (h : Derives reads φ ts)
    (hX : ∀ t ∈ ts, t.kind = .identifier → X t.value) : ∀ x ∈ φ.names, X x := by
  induction h with
  | ofOperand _ ih =>
    rw [Phrase.names_operand] at ih
    exact ih hX
  | operation _ _ _ ihl ihr =>
    rw [Phrase.names_operand] at ihr
    simp only [List.forall_mem_append, List.forall_mem_cons] at hX
    simp only [Phrase.names, Expr.uses, List.forall_mem_append]
    exact ⟨ihl hX.1, ihr hX.2.2⟩
  | moreParams name _ _ _ _ ih =>
    simp only [List.forall_mem_cons] at hX
    exact List.forall_mem_cons.2 ⟨hX.1 name, ih hX.2.2.2.2⟩
  | function _ name _ _ _ _ _ ihparams _ ihbody =>
    simp only [List.forall_mem_append, List.forall_mem_cons] at hX
    simp only [Phrase.names, Stmt.names, List.forall_mem_append, List.forall_mem_cons]
    exact ⟨hX.2.1 name, ihparams hX.2.2.2.1, ihbody hX.2.2.2.2.2.2⟩
  | _ =>
    simp_all [Phrase.names, Phrase.expr, Phrase.operand, Expr.uses, Expr.usesList, Stmt.names,
      Stmt.namesList, or_imp, forall_and]

/-- What holds of the lines of all tokens holds of all lines in the tree. -/
theorem forall_notes {P : Line → Prop} (h : Derives reads φ ts)
    (hP : ∀ t ∈ ts, P (some t.line)) : ∀ line ∈ φ.notes, P line := by
  induction h with
  | ofOperand _ ih =>
    rw [Phrase.notes_operand] at ih
    exact ih hP
  | @operation _ _ l _ _ _ _ _ _ ihl ihr =>
    rw [Phrase.notes_operand] at ihr
    simp only [List.forall_mem_append, List.forall_mem_cons] at hP
    have hleft := ihl hP.1
    simp only [Phrase.notes, Expr.notes, List.forall_mem_append, List.forall_mem_cons]
    exact ⟨hleft l.note l.note_mem_notes, hleft, ihr hP.2.2⟩
  | _ =>
    simp_all [Phrase.notes, Phrase.expr, Phrase.operand, Expr.notes, Expr.notesList, Stmt.notes,
      Stmt.notesList, or_imp, forall_and]

end Derives

end Chalk
