import Chalk.Typing.Scope

/-!
# Lexical lookup

Scopes are what a history of steps leaves behind. Which definition a name has can be read from the
history alone: a definition counts as long as no later step has led to a level below its own, the
level being the number of scopes around the innermost one. One step does to the scopes what it does
to the definitions that count (`Describes.apply`), so a lookup gives the latest definition in the
innermost open scope that has one (`lookup?_run`).
-/

namespace Chalk.Scopes

/-- A change to the scopes. -/
inductive Step where
  | push
  | pop
  | define (name : String) (entry : Entry)
deriving DecidableEq, Repr, Inhabited

def apply (s : Scopes) : Step → Scopes
  | .push => s.push
  | .pop => s.pop
  | .define name entry => s.define name entry

/-- The scopes after some steps. -/
def run (s : Scopes) (steps : List Step) : Scopes :=
  steps.foldl apply s

/-! ## What a history says -/

/-- The level after a step, when `n` was the level before. The outermost scope has level zero and is
never left. -/
def Step.level (n : Nat) : Step → Nat
  | push => n + 1
  | pop => n - 1
  | define _ _ => n

/-- The level after some steps. -/
def level (n : Nat) (steps : List Step) : Nat :=
  steps.foldl Step.level n

/-- Behind the steps `before` a name was defined at level `n`, and the scope in which this was done
is open still: since then the level was never below `n`. Of the open scopes there is one at each
level. -/
def Holds (steps : List Step) (n : Nat) (before : List Step) (name : String) (entry : Entry) :
    Prop :=
  ∃ behind, steps = before ++ .define name entry :: behind ∧ level 0 before = n ∧
    ∀ p, p <+: behind → n ≤ level n p

/-- The latest definition of a name in the open scope of level `n`. -/
def Latest (steps : List Step) (n : Nat) (name : String) : Option Entry → Prop
  | some entry => ∃ before, Holds steps n before name entry ∧
      ∀ before' entry', Holds steps n before' name entry' → before'.length ≤ before.length
  | none => ∀ before entry, ¬ Holds steps n before name entry

/-- The latest definition of a name in the innermost open scope that has one. -/
def Resolves (steps : List Step) (name : String) : Option Entry → Prop
  | some entry => ∃ n, Latest steps n name (some entry) ∧ ∀ n', n < n' → Latest steps n' name none
  | none => ∀ n, Latest steps n name none

/-- No beginning of the steps closes more scopes than it opens, and in the end all are closed. -/
def Nested (steps : List Step) : Prop :=
  (∀ p, p <+: steps → p.count .pop ≤ p.count .push) ∧ steps.count .pop = steps.count .push

variable {steps before : List Step} {n : Nat} {name : String} {entry : Entry} {s : Scopes}

theorem level_append (n : Nat) (steps steps' : List Step) :
    level n (steps ++ steps') = level (level n steps) steps' :=
  List.foldl_append

theorem level_concat (n : Nat) (steps : List Step) (x : Step) :
    level n (steps ++ [x]) = x.level (level n steps) :=
  level_append n steps [x]

theorem run_append (s : Scopes) (steps steps' : List Step) :
    s.run (steps ++ steps') = (s.run steps).run steps' :=
  List.foldl_append

namespace Holds

theorem le_level (h : Holds steps n before name entry) : n ≤ level 0 steps := by
  obtain ⟨behind, rfl, hlevel, hopen⟩ := h
  rw [level_append, hlevel]
  exact hopen behind (List.prefix_refl _)

theorem length_lt (h : Holds steps n before name entry) : before.length < steps.length := by
  obtain ⟨behind, rfl, -, -⟩ := h
  simp

/-- The steps in front of a definition tell which one it is. -/
theorem unique {n' : Nat} {before' : List Step} {name' : String} {entry' : Entry}
    (h : Holds steps n before name entry) (h' : Holds steps n' before' name' entry')
    (hlength : before.length = before'.length) : name = name' ∧ entry = entry' := by
  obtain ⟨behind, hsteps, -, -⟩ := h
  obtain ⟨behind', hsteps', -, -⟩ := h'
  obtain ⟨-, heq⟩ := List.append_inj (hsteps.symm.trans hsteps') hlength
  cases heq
  exact ⟨rfl, rfl⟩

/-- A definition holds behind one more step if it held before and the step leads no lower, or if the
step makes it. -/
theorem concat_iff {x : Step} : Holds (steps ++ [x]) n before name entry ↔
    Holds steps n before name entry ∧ n ≤ x.level (level 0 steps) ∨
      x = .define name entry ∧ before = steps ∧ n = level 0 steps := by
  constructor
  · rintro ⟨behind, hsteps, hlevel, hopen⟩
    -- the last step is the definition itself or one behind it
    rcases List.eq_nil_or_concat behind with rfl | ⟨behind, y, rfl⟩
    · obtain ⟨rfl, hx⟩ := List.append_singleton_inj.1 hsteps
      exact .inr ⟨hx, rfl, hlevel.symm⟩
    · rw [List.concat_eq_append, ← List.cons_append, ← List.append_assoc] at hsteps
      obtain ⟨rfl, rfl⟩ := List.append_singleton_inj.1 hsteps
      have hlast := hopen _ (List.prefix_refl _)
      rw [List.concat_eq_append, level_concat] at hlast
      refine .inl ⟨⟨behind, rfl, hlevel, fun p hp => hopen p ?_⟩, ?_⟩
      · exact hp.trans (List.concat_eq_append .. ▸ List.prefix_append ..)
      · rw [level_append, hlevel]
        exact hlast
  · rintro (⟨⟨behind, rfl, hlevel, hopen⟩, hle⟩ | ⟨rfl, rfl, rfl⟩)
    · refine ⟨behind ++ [x], by simp, hlevel, fun p hp => ?_⟩
      rcases List.prefix_concat_iff.1 hp with rfl | hp
      · rw [level_append, hlevel] at hle
        rw [level_concat]
        exact hle
      · exact hopen p hp
    · refine ⟨[], rfl, rfl, fun p hp => ?_⟩
      rw [List.prefix_nil.1 hp]
      exact Nat.le_refl _

/-- A step that makes no definition of a name at a level, and does not end what holds there, leaves
it. -/
theorem concat_iff_of_ne {x : Step}
    (hle : Holds steps n before name entry → n ≤ x.level (level 0 steps))
    (hx : x = .define name entry → n ≠ level 0 steps) :
    Holds (steps ++ [x]) n before name entry ↔ Holds steps n before name entry := by
  rw [concat_iff]
  constructor
  · rintro (⟨h, -⟩ | ⟨hdefine, -, hn⟩)
    · exact h
    · exact absurd hn (hx hdefine)
  · intro h
    exact .inl ⟨h, hle h⟩

end Holds

namespace Latest

/-- A scope has at most one latest definition of a name. -/
theorem unique {answer answer' : Option Entry} (h : Latest steps n name answer)
    (h' : Latest steps n name answer') : answer = answer' := by
  cases answer with
  | none =>
    cases answer' with
    | none => rfl
    | some entry' =>
      obtain ⟨before, hholds, -⟩ := h'
      exact absurd hholds (h before entry')
  | some entry =>
    obtain ⟨before, hholds, hlast⟩ := h
    cases answer' with
    | none => exact absurd hholds (h' before entry)
    | some entry' =>
      obtain ⟨before', hholds', hlast'⟩ := h'
      have hlength : before.length = before'.length :=
        Nat.le_antisymm (hlast' _ _ hholds) (hlast _ _ hholds')
      rw [(hholds.unique hholds' hlength).2]

theorem of_holds_iff {steps' : List Step} {answer : Option Entry}
    (h : ∀ before entry, Holds steps' n before name entry ↔ Holds steps n before name entry)
    (hlatest : Latest steps n name answer) : Latest steps' n name answer := by
  cases answer with
  | none => simpa only [Latest, h] using hlatest
  | some entry => simpa only [Latest, h] using hlatest

/-- Above the level there is no open scope, and nothing is defined. -/
theorem none_of_level_lt (h : level 0 steps < n) : Latest steps n name none := by
  intro before entry hholds
  have hle := hholds.le_level
  omega

/-- A definition in the innermost scope is the latest one. -/
theorem concat_define (steps : List Step) (name : String) (entry : Entry) :
    Latest (steps ++ [.define name entry]) (level 0 steps) name (some entry) := by
  refine ⟨steps, Holds.concat_iff.2 (.inr ⟨rfl, rfl, rfl⟩), fun before' entry' h => ?_⟩
  have hlt := h.length_lt
  rw [List.length_append, List.length_singleton] at hlt
  omega

end Latest

theorem Resolves.unique {answer answer' : Option Entry} (h : Resolves steps name answer)
    (h' : Resolves steps name answer') : answer = answer' := by
  cases answer with
  | none =>
    cases answer' with
    | none => rfl
    | some entry' =>
      obtain ⟨n, hlatest, -⟩ := h'
      exact (h n).unique hlatest
  | some entry =>
    obtain ⟨n, hlatest, hinner⟩ := h
    cases answer' with
    | none => exact hlatest.unique (h' n)
    | some entry' =>
      obtain ⟨n', hlatest', hinner'⟩ := h'
      rcases Nat.lt_trichotomy n n' with hlt | rfl | hlt
      · cases (hinner n' hlt).unique hlatest'
      · exact hlatest.unique hlatest'
      · cases (hinner' n hlt).unique hlatest

/-! ## What the scopes hold -/

/-- The open scopes, the outermost first. -/
def levels (s : Scopes) : List Scope :=
  (s.inner :: s.outer).reverse

theorem levels_eq (s : Scopes) : s.levels = s.outer.reverse ++ [s.inner] :=
  List.reverse_cons

theorem length_levels (s : Scopes) : s.levels.length = s.depth := by
  simp [levels, depth]

theorem levels_push (s : Scopes) : s.push.levels = s.levels ++ [[]] :=
  List.reverse_cons

theorem levels_pop (s : Scopes) :
    s.pop.levels = if s.depth = 1 then s.levels else s.levels.dropLast := by
  cases s with
  | mk inner outer =>
    cases outer with
    | nil => rfl
    | cons scope outer => simp [pop, levels, depth]

theorem depth_pop (s : Scopes) : s.pop.depth = s.depth - 2 + 1 := by
  cases s with
  | mk inner outer =>
    cases outer with
    | nil => rfl
    | cons scope outer => rfl

theorem levels_define (s : Scopes) (name : String) (entry : Entry) :
    (s.define name entry).levels = s.outer.reverse ++ [(name, entry) :: s.inner] :=
  List.reverse_cons

theorem eq_of_levels_eq {t : Scopes} (h : s.levels = t.levels) : s = t := by
  obtain ⟨hinner, houter⟩ := List.cons.inj (List.reverse_inj.1 h)
  cases s with
  | mk inner outer =>
    cases t with
    | mk inner' outer' => exact congr (congrArg mk hinner) houter

/-- The definition of a name in the scope of a level. -/
def lookupAt (s : Scopes) (n : Nat) (name : String) : Option Entry :=
  s.levels[n]?.bind (·.lookup name)

theorem lookupAt_of_depth_le (h : s.depth ≤ n) : s.lookupAt n name = none := by
  rw [lookupAt, List.getElem?_eq_none (by rwa [length_levels])]
  rfl

theorem lookupAt_push (s : Scopes) (n : Nat) (name : String) :
    s.push.lookupAt n name = s.lookupAt n name := by
  by_cases hlt : n < s.depth
  · rw [lookupAt, levels_push, List.getElem?_append_left (by rwa [length_levels])]
    rfl
  · rw [lookupAt_of_depth_le (s := s) (by omega), lookupAt, levels_push,
      List.getElem?_append_right (by rw [length_levels]; omega)]
    cases n - s.levels.length with
    | zero => rfl
    | succ k => rfl

/-- What is left open is as it was. -/
theorem lookupAt_pop (h : n < s.pop.depth) : s.pop.lookupAt n name = s.lookupAt n name := by
  rw [← length_levels] at h
  rw [lookupAt, lookupAt]
  rw [levels_pop] at h ⊢
  split
  · rfl
  · next hdepth =>
    rw [if_neg hdepth, List.length_dropLast] at h
    rw [List.getElem?_dropLast, if_pos h]

theorem lookupAt_define (s : Scopes) (x : String) (entry : Entry) (n : Nat) (name : String) :
    (s.define x entry).lookupAt n name =
      if n + 1 = s.depth ∧ name = x then some entry else s.lookupAt n name := by
  rw [lookupAt, lookupAt, levels_define, levels_eq, depth]
  rcases Nat.lt_trichotomy n s.outer.length with hlt | rfl | hlt
  · rw [List.getElem?_append_left (by simpa), List.getElem?_append_left (by simpa),
      if_neg fun h => by omega]
  · rw [List.getElem?_append_right (by simp), List.getElem?_append_right (by simp)]
    by_cases hname : name = x
    · simp [hname]
    · simp [hname, List.lookup_cons, beq_eq_false_iff_ne.2 hname]
  · rw [List.getElem?_eq_none (by simp; omega), List.getElem?_eq_none (by simp; omega),
      if_neg fun h => by omega]

/-- The scopes have the depth and the definitions that a history says. -/
structure Describes (steps : List Step) (s : Scopes) : Prop where
  depth : s.depth = level 0 steps + 1
  latest (n : Nat) (name : String) : Latest steps n name (s.lookupAt n name)

namespace Describes

theorem empty : Describes [] empty where
  depth := rfl
  latest n name := by
    have hnone : Scopes.empty.lookupAt n name = none := by
      cases n with
      | zero => rfl
      | succ n => rfl
    rw [hnone]
    intro before entry h
    exact absurd h.length_lt (Nat.not_lt_zero _)

theorem push (h : Describes steps s) : Describes (steps ++ [.push]) s.push where
  depth := by
    rw [level_concat, depth_push, h.depth]
    rfl
  latest n name := by
    rw [lookupAt_push]
    refine (h.latest n name).of_holds_iff fun before entry => ?_
    refine Holds.concat_iff_of_ne (fun hholds => ?_) fun hx => by cases hx
    exact Nat.le_succ_of_le hholds.le_level

theorem pop (h : Describes steps s) : Describes (steps ++ [.pop]) s.pop where
  depth := by
    have hdepth := h.depth
    rw [level_concat, depth_pop]
    show _ = level 0 steps - 1 + 1
    omega
  latest n name := by
    have hdepth := h.depth
    by_cases hle : n ≤ level 0 steps - 1
    · rw [lookupAt_pop (by rw [depth_pop]; omega)]
      refine (h.latest n name).of_holds_iff fun before entry => ?_
      exact Holds.concat_iff_of_ne (fun _ => hle) fun hx => by cases hx
    · -- the scope of this level was closed, or there was none
      rw [lookupAt_of_depth_le (by rw [depth_pop]; omega)]
      refine .none_of_level_lt ?_
      rw [level_concat]
      exact Nat.lt_of_not_le hle

theorem define (h : Describes steps s) (x : String) (entry : Entry) :
    Describes (steps ++ [.define x entry]) (s.define x entry) where
  depth := by
    rw [level_concat, depth_define, h.depth]
    rfl
  latest n name := by
    rw [lookupAt_define, h.depth]
    split
    · next hhere =>
      obtain ⟨hn, rfl⟩ := hhere
      cases hn
      exact .concat_define steps name entry
    · next hhere =>
      refine (h.latest n name).of_holds_iff fun before entry' => ?_
      refine Holds.concat_iff_of_ne Holds.le_level fun hx hn => ?_
      cases hx
      exact hhere ⟨congrArg (· + 1) hn, rfl⟩

/-- One more step in the history is one more step of the scopes. -/
theorem apply (h : Describes steps s) (x : Step) : Describes (steps ++ [x]) (s.apply x) := by
  cases x with
  | push => exact h.push
  | pop => exact h.pop
  | define name entry => exact h.define name entry

theorem run (h : Describes steps s) (steps' : List Step) :
    Describes (steps ++ steps') (s.run steps') := by
  induction steps' generalizing steps s with
  | nil =>
    rw [List.append_nil]
    exact h
  | cons x steps' ih =>
    have hnext := ih (h.apply x)
    rwa [List.append_assoc] at hnext

/-- A lookup goes through the scopes from the innermost outwards. -/
theorem resolves_lookup? (h : Describes steps s) (name : String) :
    Resolves steps name (s.lookup? name) := by
  cases hlookup : s.lookup? name with
  | none =>
    have hnone := List.findSome?_eq_none_iff.1 hlookup
    intro n
    have hat : s.lookupAt n name = none := by
      rw [lookupAt, Option.bind_eq_none_iff]
      intro scope hscope
      exact hnone scope (List.mem_reverse.1 (List.mem_of_getElem? hscope))
    rw [← hat]
    exact h.latest n name
  | some entry =>
    obtain ⟨inside, scope, outside, hscopes, hfound, hnone⟩ :=
      List.findSome?_eq_some_iff.1 hlookup
    have hlevels : s.levels = outside.reverse ++ scope :: inside.reverse := by
      rw [levels, hscopes]
      simp
    refine ⟨outside.length, ?_, fun n hn => ?_⟩
    · have hat : s.lookupAt outside.length name = some entry := by
        rw [lookupAt, hlevels, List.getElem?_append_right (by simp)]
        simpa using hfound
      rw [← hat]
      exact h.latest _ name
    · have hat : s.lookupAt n name = none := by
        rw [lookupAt, Option.bind_eq_none_iff]
        intro scope' hscope'
        rw [hlevels, List.getElem?_append_right (by simp; omega), List.length_reverse,
          List.getElem?_cons, if_neg (by omega)] at hscope'
        exact hnone scope' (List.mem_reverse.1 (List.mem_of_getElem? hscope'))
      rw [← hat]
      exact h.latest n name

end Describes

/-! ## Scopes that are opened and closed again -/

/-- A step that does not close the last of the scopes `above` leaves those below as they are. -/
theorem exists_levels_apply {below above : List Scope} (x : Step)
    (hlevels : s.levels = below ++ above) (hx : [x].count .pop < above.length + [x].count .push) :
    ∃ above', (s.apply x).levels = below ++ above' ∧
      above'.length + [x].count .pop = above.length + [x].count .push := by
  cases x with
  | push =>
    refine ⟨above ++ [[]], ?_, List.length_append⟩
    rw [apply, levels_push, hlevels, List.append_assoc]
  | pop =>
    have hlength : 1 < above.length := hx
    have hdepth : s.depth ≠ 1 := by
      rw [← length_levels, hlevels, List.length_append]
      omega
    refine ⟨above.dropLast, ?_, ?_⟩
    · rw [apply, levels_pop, if_neg hdepth, hlevels, List.dropLast_append_of_ne_nil]
      exact List.ne_nil_of_length_pos (by omega)
    · rw [List.length_dropLast]
      exact Nat.sub_add_cancel (Nat.le_of_lt hlength)
  | define name entry =>
    have hlength : 0 < above.length := hx
    have houter : s.outer.reverse = below ++ above.dropLast := by
      rw [← List.dropLast_append_of_ne_nil (List.ne_nil_of_length_pos hlength), ← hlevels,
        levels_eq, List.dropLast_concat]
    refine ⟨above.dropLast ++ [(name, entry) :: s.inner], ?_, ?_⟩
    · rw [apply, levels_define, houter, List.append_assoc]
    · rw [List.length_append, List.length_dropLast]
      exact Nat.sub_add_cancel hlength

/-- Steps that never close the last of the scopes `above` leave those below as they are. -/
theorem exists_levels_run {below above : List Scope} (steps : List Step)
    (hlevels : s.levels = below ++ above)
    (hsteps : ∀ p, p <+: steps → p.count .pop < above.length + p.count .push) :
    ∃ above', (s.run steps).levels = below ++ above' ∧
      above'.length + steps.count .pop = above.length + steps.count .push := by
  induction steps generalizing s above with
  | nil => exact ⟨above, hlevels, rfl⟩
  | cons x steps ih =>
    have hcount : ∀ (y : Step) p, (x :: p).count y = p.count y + [x].count y := fun y p => by
      rw [← List.singleton_append, List.count_append, Nat.add_comm]
    obtain ⟨above₁, hlevels₁, hlength₁⟩ :=
      exists_levels_apply x hlevels (hsteps [x] (List.prefix_append [x] steps))
    have hrest : ∀ p, p <+: steps → p.count .pop < above₁.length + p.count .push := by
      intro p hp
      have hlt := hsteps (x :: p) ((List.prefix_cons_inj x).2 hp)
      rw [hcount .pop p, hcount .push p] at hlt
      omega
    obtain ⟨above', hlevels', hlength'⟩ := ih hlevels₁ hrest
    refine ⟨above', hlevels', ?_⟩
    rw [hcount .pop steps, hcount .push steps]
    omega

/-- Steps with their scopes closed again, in a scope of their own, change nothing. -/
theorem run_push_nested_pop {inside : List Step} (h : Nested inside) (s : Scopes) :
    s.run (.push :: inside ++ [.pop]) = s := by
  -- the steps inside find one scope above those of `s`, and leave one
  obtain ⟨above, hlevels, hlength⟩ :=
    exists_levels_run inside (levels_push s) fun p hp => by
      have hle := h.1 p hp
      rw [List.length_singleton]
      omega
  rw [h.2, List.length_singleton] at hlength
  obtain ⟨scope, rfl⟩ := List.length_eq_one_iff.1 (Nat.add_right_cancel hlength)
  have hdepth : (s.push.run inside).depth ≠ 1 := by
    rw [← length_levels, hlevels, List.length_append, length_levels, depth, List.length_singleton]
    omega
  apply eq_of_levels_eq
  show ((s.push.run (inside ++ [.pop]))).levels = _
  rw [run_append]
  show (s.push.run inside).pop.levels = _
  rw [levels_pop, if_neg hdepth, hlevels, List.dropLast_concat]

/-- Whatever the history of the scopes, a name stands for its latest definition in the innermost
open scope that has one, and for nothing if there is none. At least one scope is open, and where it
is the only one, closing it does nothing. What is defined in a scope of its own is forgotten when
the scope is closed, with all that was opened and closed inside. -/
theorem lookup?_run_lexical (steps : List Step) :
    (∀ name answer, (empty.run steps).lookup? name = answer ↔ Resolves steps name answer) ∧
      1 ≤ (empty.run steps).depth ∧
      (empty.run steps).depth = level 0 steps + 1 ∧
      ((empty.run steps).depth = 1 → empty.run (steps ++ [.pop]) = empty.run steps) ∧
      ∀ inside, Nested inside → ∀ name,
        (empty.run (steps ++ (.push :: inside ++ [.pop]))).lookup? name =
          (empty.run steps).lookup? name := by
  have hdescribes : Describes steps (empty.run steps) := Describes.empty.run steps
  refine ⟨fun name answer => ?_, Nat.succ_le_succ (Nat.zero_le _), hdescribes.depth,
    fun hdepth => ?_, fun inside hinside name => ?_⟩
  · have hresolves := hdescribes.resolves_lookup? name
    exact ⟨fun heq => heq ▸ hresolves, fun h => hresolves.unique h⟩
  · rw [run_append]
    show (empty.run steps).pop = _
    apply eq_of_levels_eq
    rw [levels_pop, if_pos hdepth]
  · rw [run_append, run_push_nested_pop hinside]

end Chalk.Scopes
