import Chalk.C.Emitter
import Chalk.Proofs.C.Layout

/-!
# Adding statements to an output

An emitter adds a statement line by line and counts the blocks that it opens and closes on the way.
As long as the count and the spaces stay far below the greatest word (`Emitter.HasRoom`), all that
comes of it is that the lines of the statement stand behind the others (`Emitter.adds_stmt`):
whatever a body opens is closed behind it. Inside of more blocks the lines of a statement have more
spaces in front, and are the same otherwise (`Stmt.cLines_add`). So what an emitter adds depends on
where it stands in no other way (`Emitter.emission_shifts`). Where there is no room the count goes
around (`Emitter.emission_wraps`). A program is far from there, and its text is the one of the
emitter that adds it (`Emitter.text_program`).
-/

namespace Chalk

namespace C

/-- Spaces for two numbers of blocks can be put in front one after the other. -/
theorem indented_add (depth more : Nat) (line : String) :
    indented (depth + more) line = indented more (indented depth line) := by
  by_cases hline : line = ""
  · simp [indented, hline]
  · have hspaces : List.replicate (4 * (depth + more)) ' ' =
        List.replicate (4 * more) ' ' ++ List.replicate (4 * depth) ' ' := by
      rw [List.replicate_append_replicate, Nat.mul_add, Nat.add_comm]
    have hne : String.ofList (List.replicate (4 * depth) ' ') ++ line ≠ "" := by
      simp [hline]
    rw [indented, indented, indented, if_neg hline, if_neg hline, if_neg hne, hspaces,
      String.ofList_append, String.append_assoc]

end C

open C

/-! ## More blocks around a statement -/

namespace Stmt

mutual

/-- The lines of a statement inside of more blocks have more spaces in front. -/
theorem cLines_add (depth more : Nat) :
    ∀ s : TypedStmt, s.cLines (depth + more) = (s.cLines depth).map (indented more)
  | .declare .. | .assign .. | .ret (some _) _ | .ret none _ | .print .. | .expr .. => by
    simp only [cLines, List.map_cons, List.map_nil, indented_add]
  | .branch _ a b _ => by
    have hthen := cBody_add (depth + 1) more a
    have helse := cBody_add (depth + 1) more b
    rw [Nat.add_right_comm] at hthen helse
    cases b with
    | nil =>
      simp only [cLines, List.map_cons, List.map_append, List.map_nil, indented_add depth, hthen]
    | cons s b =>
      simp only [cLines, List.map_cons, List.map_append, List.map_nil, indented_add depth, hthen,
        helse]
  | .loop _ a _ | .function _ a _ => by
    have hbody := cBody_add (depth + 1) more a
    rw [Nat.add_right_comm] at hbody
    simp only [cLines, List.map_cons, List.map_append, List.map_nil, indented_add depth, hbody]

theorem cBody_add (depth more : Nat) :
    ∀ ss : List TypedStmt, cBody (depth + more) ss = (cBody depth ss).map (indented more)
  | [] => rfl
  | s :: ss => by
    rw [cBody, cBody, List.map_append, cLines_add depth more s, cBody_add depth more ss]

end

theorem cLines_eq_map (depth : Nat) (s : TypedStmt) :
    s.cLines depth = (s.cLines 0).map (indented depth) := by
  have hadd := cLines_add 0 depth s
  rwa [Nat.zero_add] at hadd

theorem cBody_eq_map (depth : Nat) (ss : List TypedStmt) :
    cBody depth ss = (cBody 0 ss).map (indented depth) := by
  have hadd := cBody_add 0 depth ss
  rwa [Nat.zero_add] at hadd

theorem cBody_succ_eq_map (depth : Nat) (ss : List TypedStmt) :
    cBody (depth + 1) ss = (cBody 1 ss).map (indented depth) := by
  rw [Nat.add_comm, cBody_add]

end Stmt

/-! ## What an emitter adds -/

namespace Stmt

mutual

/-- How many blocks a statement opens inside of each other. -/
def nesting : TypedStmt → Nat
  | branch _ a b _ => max (nestingList a) (nestingList b) + 1
  | loop _ a _ | function _ a _ => nestingList a + 1
  | _ => 0

def nestingList : List TypedStmt → Nat
  | [] => 0
  | s :: ss => max (nesting s) (nestingList ss)

end

theorem nestingList_le_iff {ss : List TypedStmt} {n : Nat} :
    nestingList ss ≤ n ↔ ∀ s ∈ ss, s.nesting ≤ n := by
  induction ss with
  | nil => simp [nestingList]
  | cons s ss ih => rw [nestingList, Nat.max_le, ih, List.forall_mem_cons]

end Stmt

namespace C.Emitter

/-- There is room for the spaces of `n` more blocks, since a text has fewer than `2 ^ 63` bytes. -/
def HasRoom (e : Emitter) (n : Nat) : Prop :=
  4 * (e.depth.toNat + n) < 0x8000000000000000

instance (e : Emitter) (n : Nat) : Decidable (e.HasRoom n) :=
  inferInstanceAs (Decidable (_ < _))

namespace HasRoom

variable {e : Emitter} {m n : Nat}

theorem mono (h : e.HasRoom n) (hle : m ≤ n) : e.HasRoom m := by
  unfold HasRoom at h ⊢
  omega

theorem empty (h : e.HasRoom n) : Emitter.empty.HasRoom n := by
  unfold HasRoom at h ⊢
  have hzero : Emitter.empty.depth.toNat = 0 := rfl
  omega

theorem toNat_spaces (h : e.HasRoom n) : (e.depth * 4).toNat = 4 * e.depth.toNat := by
  unfold HasRoom at h
  rw [UInt64.toNat_mul, show (4 : UInt64).toNat = 4 from rfl]
  omega

theorem toNat_indent (h : e.HasRoom n) : e.indent.depth.toNat = e.depth.toNat + 1 := by
  unfold HasRoom at h
  rw [indent, UInt64.toNat_add, show (1 : UInt64).toNat = 1 from rfl]
  omega

theorem indent (h : e.HasRoom (n + 1)) : e.indent.HasRoom n := by
  unfold HasRoom
  rw [h.toNat_indent]
  unfold HasRoom at h
  omega

theorem emit_eq (h : e.HasRoom n) (line : String) :
    e.emit line = e.append [indented e.depth.toNat line] := by
  rw [emit, indented, h.toNat_spaces]
  split <;> rfl

end HasRoom

/-- A block that was opened is closed, unless so many are open that the count went around. -/
theorem dedent_indent {e : Emitter} {n : Nat} (h : e.HasRoom n) : e.indent.dedent = e := by
  have hne : e.depth + 1 ≠ 0 := by
    intro hzero
    have hindent : (e.depth + 1).toNat = e.depth.toNat + 1 := h.toNat_indent
    rw [hzero] at hindent
    exact absurd hindent (by simp)
  show { e with depth := if e.depth + 1 = 0 then 0 else e.depth + 1 - 1 } = e
  rw [if_neg hne, UInt64.add_sub_cancel]

/-- With room for `n` more blocks, what is done adds lines, which ones depending on the number of
open blocks, and nothing else. -/
def Adds (n : Nat) (act : Emitter → Emitter) (lines : Nat → List String) : Prop :=
  ∀ e : Emitter, e.HasRoom n → act e = e.append (lines e.depth.toNat)

namespace Adds

variable {m n : Nat} {act next inside : Emitter → Emitter} {lines more : Nat → List String}

theorem mono (h : Adds m act lines) (hle : m ≤ n) : Adds n act lines :=
  fun e he => h e (he.mono hle)

theorem emit (line : String) : Adds n (·.emit line) fun depth => [indented depth line] :=
  fun _ he => he.emit_eq line

/-- The lines of what is done first stand in front. -/
theorem andThen (h : Adds n act lines) (hnext : Adds n next more) :
    Adds n (fun e => next (act e)) fun depth => lines depth ++ more depth := by
  intro e he
  have hmore : next (e.append (lines e.depth.toNat)) = _ := hnext _ he
  show next (act e) = _
  rw [h e he, hmore, append_append]
  rfl

/-- The block that is opened is closed again, since as many are open behind the lines as in
front. -/
theorem nested (h : Adds n inside lines) :
    Adds (n + 1) (·.nested inside) fun depth => lines (depth + 1) := by
  intro e he
  have hclosed : ∀ ls, (e.indent.append ls).dedent = e.indent.dedent.append ls := fun _ => rfl
  show (inside e.indent).dedent = e.append (lines (e.depth.toNat + 1))
  rw [h e.indent he.indent, he.toNat_indent, hclosed, dedent_indent he]

theorem braced (h : Adds n inside lines) (header : String) : Adds (n + 1) (·.braced header inside)
    fun depth => [indented depth (header ++ " \x7b")] ++ lines (depth + 1) ++
      [indented depth "\x7d"] :=
  ((emit _).andThen h.nested).andThen (emit _)

/-- Lines that are not indented yet are added one by one. -/
theorem foldl_emit (ls : List String) :
    Adds n (ls.foldl Emitter.emit ·) fun depth => ls.map (indented depth) := by
  induction ls with
  | nil => exact fun e _ => (append_nil e).symm
  | cons l ls ih => exact (emit l).andThen ih

end Adds

mutual

/-- Adding a statement adds its lines and leaves all else as it was. -/
theorem adds_stmt : ∀ s : TypedStmt, Adds s.nesting (·.stmt s) fun depth => s.cLines depth
  | .declare .. | .assign .. | .ret .. | .print .. | .expr .. => by
    intro e he
    dsimp only
    rw [Stmt.cLines_eq_map]
    exact Adds.foldl_emit _ e he
  | .branch condition a b _ => by
    have hthen := ((adds_stmts a).mono (Nat.le_max_left _ (Stmt.nestingList b))).nested
    have helse := ((adds_stmts b).mono (Nat.le_max_right (Stmt.nestingList a) _)).nested
    have hopen := (Adds.emit ("if (" ++ condition.cText ++ ") \x7b")).andThen hthen
    cases b with
    | nil =>
      have hall := hopen.andThen (.emit "\x7d")
      simpa [Stmt.cLines, Stmt.nesting, stmt] using hall
    | cons s b =>
      have hall :=
        (hopen.andThen ((Adds.emit "\x7d else \x7b").andThen helse)).andThen (.emit "\x7d")
      simpa [Stmt.cLines, Stmt.nesting, stmt] using hall
  | .loop condition a _ => by
    have hblock := (adds_stmts a).braced ("while (" ++ condition.cText ++ ")")
    simpa [Stmt.cLines, Stmt.nesting, stmt, String.append_assoc] using hblock
  | .function f a _ => by
    have hblock := ((adds_stmts a).braced (head f)).andThen (.emit "")
    simpa [Stmt.cLines, Stmt.nesting, stmt] using hblock

theorem adds_stmts :
    ∀ ss : List TypedStmt, Adds (Stmt.nestingList ss) (·.stmts ss) fun depth => Stmt.cBody depth ss
  | [] => fun e _ => (append_nil e).symm
  | s :: ss =>
    ((adds_stmt s).mono (Nat.le_max_left ..)).andThen ((adds_stmts ss).mono (Nat.le_max_right ..))

end

/-- What is done adds the same lines as at the start of an empty output, with four spaces for each
open block in front of those that are not empty, and leaves the lines from before and the number of
open blocks as they were. -/
structure Shifts (e : Emitter) (act : Emitter → Emitter) : Prop where
  depth : (act e).depth = e.depth
  lines : (act e).lines = e.lines ++ (act empty).lines.map fun line =>
    if line = "" then "" else String.ofList (List.replicate (4 * e.depth.toNat) ' ') ++ line

/-- Lines that differ only in the spaces for the open blocks are shifted. -/
theorem Adds.shifts {n : Nat} {act : Emitter → Emitter} {lines : Nat → List String}
    (h : Adds n act lines) (hmap : ∀ depth, lines depth = (lines 0).map (indented depth))
    {e : Emitter} (he : e.HasRoom n) : e.Shifts act where
  depth := by
    rw [h e he]
    rfl
  lines := by
    have hstart : (act empty).lines = lines 0 := by
      rw [h empty he.empty]
      rfl
    rw [h e he, append, hmap, hstart]
    rfl

/-- Statements, bodies and blocks are added behind what is there, with the indentation that is found
and is left as it was, if there is room for the spaces in front of their innermost lines. -/
theorem emission_shifts (e : Emitter) :
    (∀ s : TypedStmt, e.HasRoom s.nesting → e.Shifts (·.stmt s)) ∧
      (∀ ss : List TypedStmt, e.HasRoom (Stmt.nestingList ss + 1) → e.Shifts (·.body ss)) ∧
      ∀ (header : String) (ss : List TypedStmt), e.HasRoom (Stmt.nestingList ss + 1) →
        e.Shifts (·.block header ss) := by
  refine ⟨fun s hs => ?_, fun ss hss => ?_, fun header ss hss => ?_⟩
  · exact (adds_stmt s).shifts (Stmt.cLines_eq_map · s) hs
  · exact (adds_stmts ss).nested.shifts (Stmt.cBody_succ_eq_map · ss) hss
  · refine ((adds_stmts ss).braced header).shifts (fun depth => ?_) hss
    simp [Stmt.cBody_succ_eq_map depth, indented_zero]

/-- A loop with a branch in it, two blocks inside of an output that has a line. -/
theorem emission_shifts_loop :
    let e : Emitter := { lines := ["int x = 0;"], depth := 2 }
    let yes : Expr Ty := .bool true .bool
    let s : TypedStmt := .loop yes [.branch yes [.ret none ()] [] ()] ()
    e.HasRoom s.nesting ∧ e.Shifts (·.stmt s) ∧ (e.stmt s).lines =
      ["int x = 0;", "        while (1) \x7b", "            if (1) \x7b", "                return;",
        "            \x7d", "        \x7d"] := by
  refine ⟨by decide, (emission_shifts _).1 _ (by decide), by decide +kernel⟩

/-- A line is shifted only if the number of its spaces does not go around. -/
theorem toNat_spaces_of_shifts {e : Emitter} (h : e.Shifts (·.stmt (.ret none ()))) :
    (e.depth * 4).toNat = 4 * e.depth.toNat := by
  have hlength := congrArg (List.map String.length) h.lines
  simpa [stmt, Stmt.cLines, emit, append, indented, empty] using hlength

/-- Where there is no room the count of the open blocks goes around, and so does the number of
spaces. A line that is added may also be more than one line of the text, if there is a line break
in a name; only the first of them is shifted. -/
theorem emission_wraps :
    ¬({ lines := [], depth := 0xffffffffffffffff } : Emitter).Shifts (·.body []) ∧
      ¬({ lines := [], depth := 0x4000000000000000 } : Emitter).Shifts (·.stmt (.ret none ())) ∧
      let s : TypedStmt := .assign "x\ny" (.bool true .bool) ()
      (empty.indent.stmt s).text.toList.splitOn '\n' ≠
        ((empty.stmt s).text.toList.splitOn '\n').map (List.replicate 4 ' ' ++ ·) := by
  refine ⟨fun h => ?_, fun h => ?_, by decide +kernel⟩
  · exact absurd h.depth (by decide)
  · exact absurd (toNat_spaces_of_shifts h) (by decide)

/-! ## Programs -/

theorem program_eq (e : Emitter) (program : List TypedStmt) :
    e.program program =
      let defined := (preamble.foldl emit e).stmts (program.filter Stmt.isFunction)
      if program.filter (!·.isFunction) = [] then defined
      else defined.braced "int main()" fun inside =>
        (inside.stmts (program.filter (!·.isFunction))).emit "return 0;" := by
  simp only [Emitter.program, List.partition_eq_filter_filter, List.isEmpty_iff]
  rfl

theorem map_mainLines (depth : Nat) (statements : List TypedStmt) :
    (mainLines statements).map (indented depth) =
      [indented depth ("int main()" ++ " \x7b")] ++
        (Stmt.cBody (depth + 1) statements ++ [indented (depth + 1) "return 0;"]) ++
        [indented depth "\x7d"] := by
  have hlast : indented (depth + 1) "return 0;" = indented depth (indented 1 "return 0;") := by
    rw [Nat.add_comm, indented_add]
  rw [Stmt.cBody_succ_eq_map, hlast]
  simp [mainLines]

/-- What a program adds is its lines. -/
theorem adds_program (program : List TypedStmt) :
    Adds (Stmt.nestingList program + 1) (·.program program) fun depth =>
      (programLines program).map (indented depth) := by
  have hnesting : ∀ keep : TypedStmt → Bool,
      Stmt.nestingList (program.filter keep) ≤ Stmt.nestingList program := fun keep =>
    Stmt.nestingList_le_iff.2 fun s hs =>
      Stmt.nestingList_le_iff.1 (Nat.le_refl _) s (List.mem_of_mem_filter hs)
  have hfunctions := (Adds.foldl_emit preamble).andThen
    ((adds_stmts (program.filter Stmt.isFunction)).mono (Nat.le_succ_of_le (hnesting _)))
  have hmain := (((adds_stmts (program.filter (!·.isFunction))).mono (hnesting _)).andThen
    (.emit "return 0;")).braced "int main()"
  intro e he
  dsimp only
  rw [program_eq, programLines_eq]
  split
  · have hall := hfunctions e he
    rw [List.append_nil, List.map_append, ← Stmt.cBody_eq_map]
    exact hall
  · have hall := hfunctions.andThen hmain e he
    rw [List.map_append, List.map_append, ← Stmt.cBody_eq_map, map_mainLines]
    exact hall

/-- The text of a program is the text of the emitter that adds the program to an empty output. -/
theorem text_program {program : List TypedStmt}
    (h : empty.HasRoom (Stmt.nestingList program + 1)) :
    (empty.program program).text = generate program := by
  have hadded : empty.program program = _ := adds_program program empty h
  have hlines : (programLines program).map (indented 0) = programLines program := by
    rw [funext indented_zero, List.map_id']
  rw [hadded]
  show "\n".intercalate ((programLines program).map (indented 0)) = _
  rw [hlines]
  rfl

end C.Emitter

end Chalk
