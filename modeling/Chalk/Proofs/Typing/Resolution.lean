import Chalk.Proofs.C.Names
import Chalk.Proofs.Grammar.Contents
import Chalk.Proofs.Typing.Rules

/-!
# What names stand for

In a program that obeys the rules each mention of a name finds what it needs where it stands
(`Mention.Resolves`). Two consequences are drawn from that. All names in the value of a declaration
stand for something in front of the declaration (`WellTyped.resolves_declaration`). And the names in
a block that are not defined inside of it, before they are used, stand there for what they stand for
in front of the block (`WellTyped.resolves_occurrences`).
-/

namespace Chalk

/-! ## Mentions in expressions -/

/-- The name stands for what the mention needs. The word of a number needs nothing. -/
def Mention.Resolves (Γ : Env) (m : Mention) : Prop :=
  match m.role with
  | .read => ∃ ty mutable, Γ m.name = some (.var ty mutable)
  | .write => ∃ ty, Γ m.name = some (.var ty true)
  | .call => ∃ params ty, Γ m.name = some (.fn params ty)
  | .word => ∃ v : Number, v.word? = some m.name

theorem Mention.Resolves.congr {Γ Γ' : Env} {m : Mention} (h : m.Resolves Γ)
    (hname : Γ m.name = Γ' m.name) : m.Resolves Γ' := by
  unfold Resolves at h ⊢
  rwa [hname] at h

mutual

theorem Typed.resolves {Γ : Env} {e : ParsedExpr} {ty : Ty} {e' : TypedExpr} :
    Typed Γ e ty e' → ∀ m ∈ e'.mentions, m.Resolves Γ
  | .number (v := v) => by
    intro m hm
    obtain ⟨word, hword, rfl⟩ := List.mem_map.1 hm
    exact ⟨v, Option.mem_toList.1 hword⟩
  | .string | .bool => by simp [Expr.mentions]
  | .var name => List.forall_mem_singleton.2 ⟨_, _, name⟩
  | .negate operand _ => operand.resolves
  | .comparison _ left right | .arithmetic _ left right =>
    List.forall_mem_append.2 ⟨left.resolves, right.resolves⟩
  | .call name arguments => List.forall_mem_cons.2 ⟨⟨_, _, name⟩, arguments.resolves⟩

theorem TypedAll.resolves {Γ : Env} {es : List ParsedExpr} {tys : List Ty} {es' : List TypedExpr} :
    TypedAll Γ es tys es' → ∀ m ∈ Expr.mentionsList es', m.Resolves Γ
  | .nil => by simp [Expr.mentionsList]
  | .cons first rest => List.forall_mem_append.2 ⟨first.resolves, rest.resolves⟩

end

/-! ## Environments behind statements -/

/-- The name that a statement defines behind itself. -/
def Stmt.binding? : TypedStmt → Option (String × Binding)
  | declare v _ _ => some (v.name, .var v.ty v.mutable)
  | function f _ _ => some (f.name, .fn (f.params.map Prod.snd) f.returns)
  | _ => none

namespace Env

/-- The environment behind a statement that may define a name. -/
def extend (Γ : Env) : Option (String × Binding) → Env
  | some (x, b) => Γ.bind x b
  | none => Γ

/-- The environment behind statements. -/
def after (Γ : Env) (ss : List TypedStmt) : Env :=
  ss.foldl (fun Γ s => Γ.extend s.binding?) Γ

/-- What a name stands for behind statements, it stood for in front of them or one of them
defines. -/
theorem after_eq_some {Γ : Env} {ss : List TypedStmt} {x : String} {b : Binding}
    (h : Γ.after ss x = some b) : Γ x = some b ∨ ∃ s ∈ ss, s.binding? = some (x, b) := by
  induction ss generalizing Γ with
  | nil => exact .inl h
  | cons s ss ih =>
    have hrest : (Γ.extend s.binding?).after ss x = some b := h
    rcases ih hrest with hfront | ⟨s', hs', hbinding⟩
    · cases hs : s.binding? with
      | none =>
        rw [hs] at hfront
        exact .inl hfront
      | some d =>
        obtain ⟨y, b'⟩ := d
        rw [hs, extend, bind] at hfront
        split at hfront
        · next hx =>
          cases hfront
          exact .inr ⟨s, List.mem_cons_self, by rw [hs, hx]⟩
        · exact .inl hfront
    · exact .inr ⟨s', List.mem_cons_of_mem s hs', hbinding⟩

/-- The names outside of a list stand for the same. -/
def AgreeOutside (names : List String) (Γ Γ' : Env) : Prop :=
  ∀ x, x ∉ names → Γ x = Γ' x

namespace AgreeOutside

variable {names : List String} {Γ Γ' : Env}

theorem bind (h : AgreeOutside names Γ Γ') (x : String) (b : Binding) :
    AgreeOutside (x :: names) (Γ.bind x b) Γ' := by
  intro y hy
  obtain ⟨hne, hy⟩ := not_or.1 (mt List.mem_cons.2 hy)
  rw [Env.bind, if_neg hne, h y hy]

theorem extend (h : AgreeOutside names Γ Γ') (d : Option (String × Binding)) :
    AgreeOutside ((d.map Prod.fst).toList ++ names) (Γ.extend d) Γ' := by
  cases d with
  | none => exact h
  | some d => exact h.bind d.1 d.2

theorem bindParams (h : AgreeOutside names Γ Γ') (ps : List (String × Ty)) :
    AgreeOutside (ps.map Prod.fst ++ names) (Γ.bindParams ps) Γ' := by
  induction ps generalizing Γ names with
  | nil => exact h
  | cons p ps ih =>
    intro x hx
    refine ih (h.bind p.1 (.var p.2 false)) x fun hmem => hx ?_
    rw [List.mem_append, List.mem_cons] at hmem
    rw [List.map_cons, List.cons_append, List.mem_cons, List.mem_append]
    rcases hmem with hmem | rfl | hmem
    · exact .inr (.inl hmem)
    · exact .inl rfl
    · exact .inr (.inr hmem)

end AgreeOutside

end Env

/-! ## Declarations -/

/-- A declaration, and what each name stands for in front of it. -/
structure Declaration where
  env : Env
  target : Variable
  value : TypedExpr

namespace Stmt

mutual

/-- The declarations in a statement, at any depth. -/
def declarations (Γ : Env) : TypedStmt → List Declaration
  | declare target value _ => [⟨Γ, target, value⟩]
  | branch _ thenBody elseBody _ => declarationsList Γ thenBody ++ declarationsList Γ elseBody
  | loop _ body _ => declarationsList Γ body
  | function signature body _ =>
    declarationsList ((Γ.bindFunction signature).bindParams signature.params) body
  | assign .. | ret .. | print .. | expr .. => []

/-- The declarations in the statements of a block. -/
def declarationsList (Γ : Env) : List TypedStmt → List Declaration
  | [] => []
  | s :: rest => s.declarations Γ ++ declarationsList (Γ.extend s.binding?) rest

end

end Stmt

/-- All names in the value of a declaration stand for something in front of it. -/
theorem WellTyped.resolves_declaration {ρ : Option Ty} {Γ : Env} {ss : List ParsedStmt}
    {ts : List TypedStmt} (h : WellTyped ρ Γ ss ts) :
    ∀ d ∈ Stmt.declarationsList Γ ts, ∀ m ∈ d.value.mentions, m.Resolves d.env := by
  induction h with
  | nil => simp [Stmt.declarationsList]
  | declare value _ ih => exact List.forall_mem_cons.2 ⟨value.resolves, ih⟩
  | branch _ _ _ _ iha ihb ih =>
    exact List.forall_mem_append.2 ⟨List.forall_mem_append.2 ⟨iha, ihb⟩, ih⟩
  | loop _ _ _ iha ih | function _ _ iha ih => exact List.forall_mem_append.2 ⟨iha, ih⟩
  | assign _ _ _ ih | retSome _ _ _ ih | retNone _ _ ih | print _ _ ih | expr _ _ ih => exact ih

/-- Checking changes no name. -/
theorem WellTyped.namesList_eq {ρ : Option Ty} {Γ : Env} {ss : List ParsedStmt}
    {ts : List TypedStmt} (h : WellTyped ρ Γ ss ts) : Stmt.namesList ts = Stmt.namesList ss := by
  rw [← Stmt.namesList_map (fun _ => ()) (fun _ => ()) ts, h.erase, Stmt.namesList_map]

namespace Stmt

mutual

theorem mem_names_of_declarations : ∀ (s : TypedStmt) (Γ : Env),
    ∀ d ∈ s.declarations Γ, ∀ x ∈ d.value.uses, x ∈ s.names
  | .declare .., _ => List.forall_mem_singleton.2 fun _ hx => List.mem_cons_of_mem _ hx
  | .branch _ a b _, Γ => by
    refine List.forall_mem_append.2 ⟨fun d hd x hx => ?_, fun d hd x hx => ?_⟩
    · have hmem := mem_namesList_of_declarations a Γ d hd x hx
      exact List.mem_append_right _ (List.mem_append_left _ hmem)
    · have hmem := mem_namesList_of_declarations b Γ d hd x hx
      exact List.mem_append_right _ (List.mem_append_right _ hmem)
  | .loop _ a _, Γ => fun d hd x hx =>
    List.mem_append_right _ (mem_namesList_of_declarations a Γ d hd x hx)
  | .function _ a _, _ => fun d hd x hx =>
    List.mem_cons_of_mem _ (List.mem_append_right _ (mem_namesList_of_declarations a _ d hd x hx))
  | .assign .., _ | .ret .., _ | .print .., _ | .expr .., _ => by simp [declarations]

/-- The names in the values of declarations are names in the block. -/
theorem mem_namesList_of_declarations : ∀ (ss : List TypedStmt) (Γ : Env),
    ∀ d ∈ declarationsList Γ ss, ∀ x ∈ d.value.uses, x ∈ namesList ss
  | [], _ => by simp [declarationsList]
  | s :: ss, Γ => by
    refine List.forall_mem_append.2 ⟨fun d hd x hx => ?_, fun d hd x hx => ?_⟩
    · exact List.mem_append_left _ (mem_names_of_declarations s Γ d hd x hx)
    · exact List.mem_append_right _ (mem_namesList_of_declarations ss _ d hd x hx)

end

end Stmt

/-! ## The words of statements -/

/-- The words of C itself that statements are written with. -/
inductive C.Keyword where
  | qualifier
  | int
  | float
  | char
  | void
  | branch
  | otherwise
  | loop
  | ret
  | print
deriving DecidableEq, Repr, Inhabited

def C.Keyword.text : Keyword → String
  | qualifier => "const"
  | int => "int"
  | float => "float"
  | char => "char"
  | void => "void"
  | branch => "if"
  | otherwise => "else"
  | loop => "while"
  | ret => "return"
  | print => "printf"

/-- The word in the C type. -/
def Ty.keyword : Ty → C.Keyword
  | int | bool => .int
  | float => .float
  | string => .char
  | void => .void

/-- A word in the C text of a statement. -/
inductive Occurrence where
  /-- A word of C itself. -/
  | keyword (word : C.Keyword)
  /-- A name where it is defined. -/
  | binder (name : String)
  /-- A name where it is used, with the names that are defined before in a block around it. -/
  | mention (m : Mention) (visible : List String)
deriving DecidableEq, Repr, Inhabited

namespace Occurrence

def word : Occurrence → String
  | keyword w => w.text
  | binder x => x
  | mention m _ => m.name

/-- The mention, if its name is not visible. -/
def unbound? : Occurrence → Option Mention
  | mention m visible => if m.name ∈ visible then none else some m
  | _ => none

/-- The names in an expression, where it stands. -/
def ofMentions (visible : List String) (ms : List Mention) : List Occurrence :=
  ms.map (mention · visible)

/-- A parameter in the head of a function. -/
def ofParam (p : String × Ty) : List Occurrence :=
  [keyword p.2.keyword, binder p.1]

end Occurrence

namespace Stmt

open Occurrence (ofMentions ofParam)

mutual

/-- The words of a statement in order, where the given names are visible around it. -/
def occurrences (visible : List String) : TypedStmt → List Occurrence
  | declare target value _ =>
    (if target.mutable then [] else [.keyword .qualifier]) ++
      .keyword target.ty.keyword :: .binder target.name :: ofMentions visible value.mentions
  | assign target value _ =>
    .mention ⟨.write, target⟩ visible :: ofMentions visible value.mentions
  | branch condition thenBody elseBody _ =>
    let otherwise :=
      if elseBody.isEmpty then [] else .keyword .otherwise :: occurrencesList visible elseBody
    .keyword .branch :: ofMentions visible condition.mentions ++
      (occurrencesList visible thenBody ++ otherwise)
  | loop condition body _ =>
    .keyword .loop :: ofMentions visible condition.mentions ++ occurrencesList visible body
  | function signature body _ =>
    .keyword signature.returns.keyword :: .binder signature.name ::
      signature.params.flatMap ofParam ++
        occurrencesList (signature.params.map Prod.fst ++ signature.name :: visible) body
  | ret value _ => .keyword .ret :: ofMentions visible (Expr.mentionsList value.toList)
  | print values _ => .keyword .print :: ofMentions visible (Expr.mentionsList values)
  | expr value _ => ofMentions visible value.mentions

/-- The words of the statements from some place of a block on. -/
def occurrencesList (visible : List String) : List TypedStmt → List Occurrence
  | [] => []
  | s :: rest =>
    s.occurrences visible ++ occurrencesList ((s.binding?.map Prod.fst).toList ++ visible) rest

end

/-- The mentions, at any depth of a statement, of names that are neither among the given ones nor
defined before in a block around the mention. -/
def unbound (visible : List String) (s : TypedStmt) : List Mention :=
  (s.occurrences visible).filterMap Occurrence.unbound?

end Stmt

/-! ## Names that are not defined in a block -/

/-- If the word is the mention of a name that is not visible, it finds what it needs. -/
def Occurrence.Resolves (Γ : Env) (o : Occurrence) : Prop :=
  ∀ m, o.unbound? = some m → m.Resolves Γ

namespace Occurrence

variable {Γ Γ' : Env} {visible : List String}

theorem resolves_keyword (w : C.Keyword) : (keyword w).Resolves Γ := nofun

theorem resolves_binder (x : String) : (binder x).Resolves Γ := nofun

/-- A name that is not visible stands for the same outside. -/
theorem resolves_mention {m : Mention} (hagree : Env.AgreeOutside visible Γ Γ')
    (h : m.Resolves Γ) : (mention m visible).Resolves Γ' := by
  intro m' hm'
  rw [unbound?] at hm'
  split at hm'
  · cases hm'
  · next hname =>
    cases hm'
    exact h.congr (hagree _ hname)

theorem resolves_mentions {ms : List Mention} (hagree : Env.AgreeOutside visible Γ Γ')
    (h : ∀ m ∈ ms, m.Resolves Γ) : ∀ o ∈ ofMentions visible ms, o.Resolves Γ' :=
  List.forall_mem_map.2 fun m hm => resolves_mention hagree (h m hm)

theorem resolves_params (ps : List (String × Ty)) :
    ∀ o ∈ ps.flatMap ofParam, o.Resolves Γ := by
  intro o ho
  obtain ⟨p, -, hp⟩ := List.mem_flatMap.1 ho
  rcases List.mem_pair.1 hp with rfl | rfl
  · exact resolves_keyword _
  · exact resolves_binder _

end Occurrence

open Occurrence

/-- What is not defined inside of a block stands for what it stands for in front of it. -/
theorem WellTyped.resolves_occurrences {ρ : Option Ty} {Γ : Env} {ss : List ParsedStmt}
    {ts : List TypedStmt} (h : WellTyped ρ Γ ss ts) {visible : List String} {Γ' : Env}
    (hagree : Env.AgreeOutside visible Γ Γ') :
    ∀ o ∈ Stmt.occurrencesList visible ts, o.Resolves Γ' := by
  induction h generalizing visible with
  | nil => exact nofun
  | declare value _ ih =>
    refine List.forall_mem_append.2 ⟨List.forall_mem_append.2 ⟨?_, ?_⟩, ih (hagree.extend (some _))⟩
    · split
      · exact nofun
      · exact List.forall_mem_singleton.2 (resolves_keyword _)
    · exact List.forall_mem_cons.2 ⟨resolves_keyword _, List.forall_mem_cons.2
        ⟨resolves_binder _, resolves_mentions hagree value.resolves⟩⟩
  | assign target value _ ih =>
    refine List.forall_mem_append.2 ⟨List.forall_mem_cons.2 ⟨?_, ?_⟩, ih hagree⟩
    · exact resolves_mention hagree ⟨_, target⟩
    · exact resolves_mentions hagree value.resolves
  | branch condition _ _ _ iha ihb ih =>
    refine List.forall_mem_append.2 ⟨List.forall_mem_append.2 ⟨?_, ?_⟩, ih hagree⟩
    · exact List.forall_mem_cons.2
        ⟨resolves_keyword _, resolves_mentions hagree condition.resolves⟩
    · refine List.forall_mem_append.2 ⟨iha hagree, ?_⟩
      split
      · exact nofun
      · exact List.forall_mem_cons.2 ⟨resolves_keyword _, ihb hagree⟩
  | loop condition _ _ iha ih =>
    refine List.forall_mem_append.2 ⟨List.forall_mem_append.2 ⟨?_, iha hagree⟩, ih hagree⟩
    exact List.forall_mem_cons.2 ⟨resolves_keyword _, resolves_mentions hagree condition.resolves⟩
  | @function _ _ f _ _ _ _ _ _ _ iha ih =>
    have hfunction := hagree.extend (some (f.name, .fn (f.params.map Prod.snd) f.returns))
    refine List.forall_mem_append.2 ⟨List.forall_mem_append.2 ⟨?_, ?_⟩, ih hfunction⟩
    · exact List.forall_mem_cons.2 ⟨resolves_keyword _, List.forall_mem_cons.2
        ⟨resolves_binder _, resolves_params f.params⟩⟩
    · exact iha (hfunction.bindParams f.params)
  | retSome _ value _ ih =>
    refine List.forall_mem_append.2 ⟨List.forall_mem_cons.2 ⟨resolves_keyword _, ?_⟩, ih hagree⟩
    exact resolves_mentions hagree
      (List.forall_mem_append.2 ⟨value.resolves, by simp [Expr.mentionsList]⟩)
  | retNone _ _ ih =>
    exact List.forall_mem_append.2 ⟨List.forall_mem_singleton.2 (resolves_keyword _), ih hagree⟩
  | print values _ ih =>
    refine List.forall_mem_append.2 ⟨List.forall_mem_cons.2 ⟨resolves_keyword _, ?_⟩, ih hagree⟩
    exact resolves_mentions hagree values.resolves
  | expr value _ ih =>
    exact List.forall_mem_append.2 ⟨resolves_mentions hagree value.resolves, ih hagree⟩

/-- The statements behind some others are checked in the environment behind those. -/
theorem WellTyped.behind {ρ : Option Ty} {Γ : Env} {ss : List ParsedStmt} {pre ts : List TypedStmt}
    (h : WellTyped ρ Γ ss (pre ++ ts)) : ∃ ss', WellTyped ρ (Γ.after pre) ss' ts := by
  induction pre generalizing Γ ss with
  | nil => exact ⟨ss, h⟩
  | cons s pre ih =>
    cases h with
    | declare _ rest | assign _ _ rest | branch _ _ _ rest | loop _ _ rest | function _ rest
    | retSome _ _ rest | retNone _ rest | print _ rest | expr _ rest => exact ih rest

end Chalk
