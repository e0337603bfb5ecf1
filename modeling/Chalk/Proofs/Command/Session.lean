import Chalk.Command.Session
import Chalk.Proofs.Command.Files
import Chalk.Proofs.Compile.Independence

/-!
# The command does what the compiler does

The command goes through the steps of the compiler by itself, since it lists the program and stops
between them. What it makes of a source is nevertheless what `compile` makes of it
(`Options.run_pipeline`), and from that follows how each run ends and what it does to the files
(`Options.run_agrees_with_compile`). The log stands in front of what a run prints on its error
output, and there are files that keep nothing of what is written to them
(`Options.run_logs_and_discards`).
-/

namespace Chalk.Command

/-- The text of the file at a path, if there is a file and it holds a text. -/
def Host.text? {σ : Type} (host : Host σ) (s : σ) (path : String) : Option String :=
  (host.read s path).toOption.bind Text.ofUtf8?

/-- A log that is not asked for is empty. -/
theorem Log.text_eq_empty {log : Log} {verbose : Nat} (h : ∀ e, log.shows verbose e = false)
    (events : List Event) : log.text verbose events = "" := by
  have hfilter : (events.zipIdx.filter fun e => log.shows verbose e.1) = [] :=
    List.filter_eq_nil_iff.2 fun e _ => by simp [h e.1]
  rw [Log.text, hfilter]
  rfl

/-- The same ending, with something printed in front. -/
def Ending.behind (first : String) (e : Ending) : Ending :=
  { e with stdout := first ++ e.stdout }

def Progress.behind (first : String) (p : Progress) : Progress :=
  { p with stdout := first ++ p.stdout }

def Writing.behind (first : String) (w : Writing) : Writing :=
  { w with progress := w.progress.behind first }

def Building.behind (first : String) (b : Building) : Building :=
  { b with progress := b.progress.behind first }

namespace Options

variable {σ : Type} {o : Options} {host : Host σ} {s : σ} {log : Log} {source text : String}

/-! ## The steps of the compiler -/

/-- The same options, with the listing asked for or not. -/
def withListing (o : Options) (dumpAst : Bool) : Options :=
  { o with dumpAst }

/-- What is listed of a source. -/
def listed (o : Options) (source file : String) : String :=
  match readProgram source file with
  | .ok program => if o.dumpAst then listing program ++ "\n" else ""
  | .error _ => ""

/-- What is reported on the way from a source to C. -/
def events (o : Options) (log : Log) (source file : String) : List Event :=
  (((o.withListing false).pipeline log source file).run.run .start).2.events

theorem run_step_bind {α β : Type} (log : Log) (s : Step) (result : Except CompileError α)
    (f : α → Pipeline β) (p : Progress) :
    (Pipeline.step log s result >>= f).run.run p =
      match result with
      | .error e => (.error e, p.report (log.inner s))
      | .ok a => (f a).run.run ((p.report (log.inner s)).report [log.finished s]) := by
  cases result with
  | error e => rfl
  | ok a => rfl

theorem run_print_bind {β : Type} (text : String) (f : Unit → Pipeline β) (p : Progress) :
    (Pipeline.print text >>= f).run.run p = (f ()).run.run (p.print text) :=
  rfl

theorem run_report_bind {β : Type} (event : Event) (f : Unit → Pipeline β) (p : Progress) :
    (Pipeline.report event >>= f).run.run p = (f ()).run.run (p.report [event]) :=
  rfl

theorem run_pure {α : Type} (a : α) (p : Progress) :
    (pure a : Pipeline α).run.run p = (.ok a, p) :=
  rfl

/-- The steps of the command come to what the compiler comes to. They print the listing if it is
asked for, and report the same with it and without. -/
theorem run_pipeline (o : Options) (log : Log) (source file : String) :
    (o.pipeline log source file).run.run .start =
      ((compile source file).map fun text => if o.check then none else some text,
        { stdout := o.listed source file, events := o.events log source file }) := by
  have hcheck : (o.withListing false).check = o.check := rfl
  have hstart : Progress.start.stdout = "" := rfl
  cases htokens : tokenize source file with
  | error e =>
    have hread : readProgram source file = .error e := by
      rw [readProgram, htokens]
      rfl
    simp only [events, pipeline, run_step_bind, htokens, Except.mapError, listed, compile, hread]
    rfl
  | ok tokens =>
    have hread : readProgram source file = parse tokens file := by
      rw [readProgram, htokens]
      rfl
    cases hparse : parse tokens file with
    | error e =>
      simp only [events, pipeline, run_step_bind, htokens, Except.mapError, listed, compile, hread,
        hparse]
      rfl
    | ok program =>
      have hcompile : compile source file = (compileProgram program).mapError .semantic := by
        rw [compile, hread, hparse]
        rfl
      cases htyped : typeCheck program with
      | error e =>
        have herror : compileProgram program = .error e := by
          rw [compileProgram, htyped]
          rfl
        simp only [events, pipeline, run_step_bind, run_print_bind, htokens, Except.mapError,
          listed, hread, hparse, htyped, hcompile, herror]
        simp [Progress.report, Progress.print, hstart, Except.map]
      | ok typed =>
        have hgenerate : compileProgram program = .ok (C.generate typed) := by
          rw [compileProgram, htyped]
          rfl
        simp only [events, pipeline, run_step_bind, run_print_bind, htokens, Except.mapError,
          listed, hread, hparse, htyped, hcompile, hgenerate, hcheck]
        cases o.check with
        | true =>
          simp only [if_true, run_pure]
          simp [Progress.report, Progress.print, hstart, Except.map]
        | false =>
          simp only [Bool.false_eq_true, if_false, run_step_bind, run_report_bind, run_pure]
          simp [Progress.report, Progress.print, hstart, Except.map]

/-- How far a run is when it has the C text. -/
def progress (o : Options) (log : Log) (source : String) : Progress where
  stdout := o.listed source (Path.fileName o.input)
  events := o.events log source (Path.fileName o.input)

/-- The ending of a run on a source with a fault. -/
def rejection (o : Options) (log : Log) (source : String) (e : CompileError) : Ending :=
  o.ending log 1 (o.progress log source) ("-> " ++ o.input ++ "\n" ++ e.report source ++ "\n")

/-- The ending of a run that was only to check. -/
def approval (o : Options) (log : Log) (source : String) : Ending :=
  o.ending log 0 ((o.progress log source).print (Path.fileName o.input ++ ": no errors found\n")) ""

/-- The C text of a run and how it came to it. -/
def writing (o : Options) (log : Log) (source text : String) : Writing where
  path := o.outputPath
  text := text
  progress := o.progress log source

section CompileText

variable (o) (log)

theorem compileText_of_error {e : CompileError}
    (h : compile source (Path.fileName o.input) = .error e) :
    o.compileText log source = .error (o.rejection log source e) := by
  rw [compileText, run_pipeline, h]
  rfl

variable (h : compile source (Path.fileName o.input) = .ok text)

include h

theorem compileText_of_check (hcheck : o.check = true) :
    o.compileText log source = .error (o.approval log source) := by
  rw [compileText, run_pipeline, h, hcheck]
  rfl

theorem compileText_of_ok (hcheck : o.check = false) :
    o.compileText log source = .ok (o.writing log source text) := by
  rw [compileText, run_pipeline, h, hcheck]
  rfl

end CompileText

theorem afterRead_of_text? (h : host.text? s o.input = some source) :
    o.afterRead log (host.read s o.input) = o.compileText log source := by
  rw [Host.text?] at h
  cases hread : host.read s o.input with
  | error cause =>
    rw [hread] at h
    cases h
  | ok bytes =>
    rw [hread] at h
    have htext : Text.ofUtf8? bytes = some source := h
    simp only [afterRead, Except.bind, htext]

/-- Why there is no text at a path does not depend on the options. -/
theorem exists_cause {path : String} (h : host.text? s path = none) : ∃ cause, ∀ o : Options,
    o.input = path → o.afterRead host.log (host.read s path) =
      .error (o.failure host.log .start ("failed to read '" ++ path ++ "'") cause) := by
  rw [Host.text?] at h
  cases hread : host.read s path with
  | error cause =>
    refine ⟨cause, ?_⟩
    rintro o rfl
    rfl
  | ok bytes =>
    rw [hread] at h
    have htext : Text.ofUtf8? bytes = none := h
    refine ⟨.notText, ?_⟩
    rintro o rfl
    simp only [afterRead, Except.bind, htext]

/-! ## Runs -/

theorem run_unread (h : host.text? s o.input = none) : ∃ cause, ∀ dumpAst,
    (o.withListing dumpAst).run host s =
      (o.failure host.log .start ("failed to read '" ++ o.input ++ "'") cause, s) := by
  obtain ⟨cause, hcause⟩ := exists_cause h
  refine ⟨cause, fun dumpAst => ?_⟩
  have hread := hcause (o.withListing dumpAst) rfl
  rw [run, show (o.withListing dumpAst).input = o.input from rfl, hread]
  rfl

section Read

variable (hsource : host.text? s o.input = some source)

include hsource

theorem run_rejected {e : CompileError}
    (h : compile source (Path.fileName o.input) = .error e) :
    o.run host s = (o.rejection host.log source e, s) := by
  rw [run, afterRead_of_text? hsource, compileText_of_error o host.log h]

variable (h : compile source (Path.fileName o.input) = .ok text)

include h

theorem run_checked (hcheck : o.check = true) :
    o.run host s = (o.approval host.log source, s) := by
  rw [run, afterRead_of_text? hsource, compileText_of_check o host.log h hcheck]

/-- What follows from writing the C text, and the state in which that is. -/
theorem run_compiled (hcheck : o.check = false) :
    o.run host s =
      let written := host.write s o.outputPath (Text.utf8 text.toList)
      match o.afterWrite host.log (o.writing host.log source text) written.1 with
      | .error ending => (ending, written.2)
      | .ok b =>
        let built := host.start written.2 b.cc b.file b.executable
        (o.afterBuild host.log b built.1, built.2) := by
  rw [run, afterRead_of_text? hsource, compileText_of_ok o host.log h hcheck]
  rfl

end Read

/-! ## Listing -/

theorem listed_withListing (o : Options) (source file : String) :
    (o.withListing false).listed source file = "" := by
  rw [listed]
  cases readProgram source file with
  | error e => rfl
  | ok program => rfl

theorem progress_withListing (o : Options) (log : Log) (source : String) :
    (o.withListing true).progress log source =
      ((o.withListing false).progress log source).behind
        ((o.withListing true).listed source (Path.fileName o.input)) := by
  simp only [progress, Progress.behind, listed_withListing, String.append_empty]
  rfl

theorem ending_behind (o : Options) (log : Log) (exit : Nat) (p : Progress)
    (stderr first : String) :
    o.ending log exit (p.behind first) stderr = (o.ending log exit p stderr).behind first :=
  rfl

theorem print_behind (p : Progress) (first text : String) :
    (p.behind first).print text = (p.print text).behind first := by
  simp only [Progress.behind, Progress.print, String.append_assoc]

theorem report_behind (p : Progress) (first : String) (events : List Event) :
    (p.behind first).report events = (p.report events).behind first :=
  rfl

theorem afterBuild_behind (o : Options) (log : Log) (b : Building) (tool : Tool) (first : String) :
    o.afterBuild log (b.behind first) tool = (o.afterBuild log b tool).behind first := by
  cases tool with
  | succeeds => simp only [afterBuild, Building.behind, report_behind, print_behind, ending_behind]
  | fails stderr => rfl
  | missing => rfl
  | refused cause => rfl

theorem afterWrite_behind (o : Options) (log : Log) (w : Writing) (written : Except FileError Unit)
    (first : String) :
    o.afterWrite log (w.behind first) written =
      match o.afterWrite log w written with
      | .error ending => .error (ending.behind first)
      | .ok b => .ok (b.behind first) := by
  cases written with
  | error cause => rfl
  | ok _ =>
    simp only [afterWrite, Writing.behind, report_behind]
    cases o.cc with
    | none => rfl
    | some cc => simp only [Building.behind]

theorem rejection_withListing (o : Options) (log : Log) (source : String) (e : CompileError) :
    (o.withListing true).rejection log source e =
      ((o.withListing false).rejection log source e).behind
        ((o.withListing true).listed source (Path.fileName o.input)) := by
  rw [rejection, progress_withListing]
  rfl

theorem approval_withListing (o : Options) (log : Log) (source : String) :
    (o.withListing true).approval log source =
      ((o.withListing false).approval log source).behind
        ((o.withListing true).listed source (Path.fileName o.input)) := by
  rw [approval, progress_withListing, print_behind]
  rfl

theorem writing_withListing (o : Options) (log : Log) (source text : String) :
    (o.withListing true).writing log source text =
      ((o.withListing false).writing log source text).behind
        ((o.withListing true).listed source (Path.fileName o.input)) := by
  rw [writing, progress_withListing]
  rfl

/-- What a run lists comes before all else that it prints, and changes nothing else. -/
theorem run_withListing (hsource : host.text? s o.input = some source) :
    (o.withListing true).run host s =
      (((o.withListing false).run host s).1.behind
        ((o.withListing true).listed source (Path.fileName o.input)),
        ((o.withListing false).run host s).2) := by
  have hon : host.text? s (o.withListing true).input = some source := hsource
  have hoff : host.text? s (o.withListing false).input = some source := hsource
  cases hcompile : compile source (Path.fileName o.input) with
  | error e =>
    rw [run_rejected hon hcompile, run_rejected hoff hcompile, rejection_withListing]
  | ok text =>
    cases hcheck : o.check with
    | true =>
      rw [run_checked hon hcompile hcheck, run_checked hoff hcompile hcheck,
        approval_withListing]
    | false =>
      -- the stages behind the listing do not look at it again
      have hwrite : (o.withListing true).afterWrite = (o.withListing false).afterWrite := rfl
      have hbuild : (o.withListing true).afterBuild = (o.withListing false).afterBuild := rfl
      have hpath : (o.withListing true).outputPath = (o.withListing false).outputPath := rfl
      rw [run_compiled hon hcompile hcheck, run_compiled hoff hcompile hcheck,
        writing_withListing, hwrite, hbuild, hpath]
      dsimp only
      rw [afterWrite_behind]
      cases (o.withListing false).afterWrite host.log
          ((o.withListing false).writing host.log source text)
          (host.write s (o.withListing false).outputPath (Text.utf8 text.toList)).1 with
      | error ending => rfl
      | ok b =>
        dsimp only
        rw [afterBuild_behind]
        rfl

/-- A source with a fault that is found before its program is there is not listed. -/
theorem run_withListing_of_not_read
    (h : ∀ source program, host.text? s o.input = some source →
      readProgram source (Path.fileName o.input) ≠ .ok program) :
    (o.withListing true).run host s = (o.withListing false).run host s := by
  cases hsource : host.text? s o.input with
  | none =>
    obtain ⟨cause, hrun⟩ := run_unread hsource
    rw [hrun true, hrun false]
  | some source =>
    have hlisted : (o.withListing true).listed source (Path.fileName o.input) = "" := by
      rw [listed]
      cases hread : readProgram source (Path.fileName o.input) with
      | error e => rfl
      | ok program => exact absurd hread (h source program hsource)
    rw [run_withListing hsource, hlisted]
    simp only [Ending.behind, String.empty_append]

/-! ## Agreement -/

theorem compile_ok_rename {file : String} (h : compile source file = .ok text) (file' : String) :
    compile source file' = .ok text := by
  rw [compile_rename source file, h]
  rfl

/-- A C compiler that does not succeed makes the run fail. -/
theorem exit_afterBuild (o : Options) (log : Log) (b : Building) (tool : Tool) :
    (o.afterBuild log b tool).exit = if tool = .succeeds then 0 else 1 := by
  cases tool with
  | succeeds | fails | missing | refused => rfl

/-- What is left of a run that has written in a given state: the state and the exit status are those
of the C compiler, if one is asked for. -/
def IsLeft (o : Options) (host : Host σ) (s' : σ) (r : Ending × σ) : Prop :=
  (o.cc = none → r.1.exit = 0 ∧ r.2 = s') ∧
    ∀ cc, o.cc = some cc →
      let built := host.start s' cc o.outputPath (executable o.outputPath)
      r.1.exit = (if built.1 = .succeeds then 0 else 1) ∧ r.2 = built.2

theorem isLeft_of_write {s' : σ} (hsource : host.text? s o.input = some source)
    (h : compile source (Path.fileName o.input) = .ok text) (hcheck : o.check = false)
    (hwrite : host.write s o.outputPath (Text.utf8 text.toList) = (.ok (), s')) :
    o.IsLeft host s' (o.run host s) := by
  rw [run_compiled hsource h hcheck, hwrite]
  refine ⟨fun hcc => ?_, fun cc hcc => ?_⟩
  · simp only [afterWrite, hcc, and_true]
    rfl
  · simp only [afterWrite, hcc]
    exact ⟨exit_afterBuild .., rfl⟩

/-- The command makes of a file what the compiler makes of its text, under whatever name the
compiler is told, and does nothing to the files but write the C text to the output path. -/
structure Agrees (o : Options) (host : Host σ) (s : σ) : Prop where
  unread : host.text? s o.input = none → (o.run host s).1.exit = 1 ∧ (o.run host s).2 = s
  rejected : ∀ source file e, host.text? s o.input = some source → compile source file = .error e →
    (o.run host s).1.exit = 1 ∧
      (o.run host s).1.stderr =
        host.log.text o.verbose (o.events host.log source (Path.fileName o.input)) ++
          ("-> " ++ o.input ++ "\n" ++ e.report source ++ "\n") ∧
      (o.run host s).2 = s
  /-- A log that neither the options nor the environment ask for is empty. -/
  quiet : o.verbose = 0 → (∀ e, host.log.environment e = false) →
    ∀ events, host.log.text o.verbose events = ""
  checked : ∀ source file text, host.text? s o.input = some source →
    compile source file = .ok text → o.check = true → (o.run host s).1.exit = 0 ∧ (o.run host s).2 = s
  unwritten : ∀ source file text cause s', host.text? s o.input = some source →
    compile source file = .ok text → o.check = false →
    host.write s o.outputPath (Text.utf8 text.toList) = (.error cause, s') →
    (o.run host s).1.exit = 1 ∧ (o.run host s).2 = s'
  written : ∀ source file text s', host.text? s o.input = some source →
    compile source file = .ok text → o.check = false →
    host.write s o.outputPath (Text.utf8 text.toList) = (.ok (), s') →
    o.IsLeft host s' (o.run host s)
  listed : ∀ source program, host.text? s o.input = some source →
    readProgram source (Path.fileName o.input) = .ok program →
    (o.withListing true).run host s =
      (((o.withListing false).run host s).1.behind (listing program ++ "\n"),
        ((o.withListing false).run host s).2)
  unlisted : (∀ source program, host.text? s o.input = some source →
      readProgram source (Path.fileName o.input) ≠ .ok program) →
    (o.withListing true).run host s = (o.withListing false).run host s

theorem agrees (o : Options) (host : Host σ) (s : σ) : o.Agrees host s where
  unread h := by
    obtain ⟨cause, hrun⟩ := run_unread h
    rw [show o = o.withListing o.dumpAst from rfl, hrun]
    exact ⟨rfl, rfl⟩
  rejected source file e hsource h := by
    -- under its own name the source has the same fault, in another file
    have hown : compile source (Path.fileName o.input) =
        .error (e.move (.rename (Path.fileName o.input))) := by
      rw [compile_rename source file, h]
      rfl
    rw [run_rejected hsource hown]
    refine ⟨rfl, ?_, rfl⟩
    rw [rejection, CompileError.report_rename]
    rfl
  quiet hverbose henvironment events := by
    refine Log.text_eq_empty (fun e => ?_) events
    rw [hverbose]
    exact henvironment e
  checked source file text hsource h hcheck := by
    rw [run_checked hsource (compile_ok_rename h _) hcheck]
    exact ⟨rfl, rfl⟩
  unwritten source file text cause s' hsource h hcheck hwrite := by
    rw [run_compiled hsource (compile_ok_rename h _) hcheck, hwrite]
    exact ⟨rfl, rfl⟩
  written source file text s' hsource h hcheck hwrite :=
    isLeft_of_write hsource (compile_ok_rename h _) hcheck hwrite
  listed source program hsource hread := by
    have hlisted : (o.withListing true).listed source (Path.fileName o.input) =
        listing program ++ "\n" := by
      rw [listed, hread]
      rfl
    rw [run_withListing hsource, hlisted]
  unlisted h := run_withListing_of_not_read h

/-- Where a run leaves C text in a tree. If the output path can be written, then it is, nothing of
what else is kept in the tree changes, and what follows is up to the C compiler. -/
structure Leaves (o : Options) (start : FileTree → (cc file executable : String) → Tool × FileTree)
    (log : Log) (tree : FileTree) (bytes : List UInt8) : Prop where
  unwritable : ∀ cause, tree.target o.outputPath = .error cause →
    (o.run (.ofTree start log) tree).1.exit = 1 ∧ (o.run (.ofTree start log) tree).2 = tree
  writable : ∀ place, tree.target o.outputPath = .ok place →
    ∃ tree', tree.Wrote tree' o.outputPath bytes place ∧
      o.IsLeft (.ofTree start log) tree' (o.run (.ofTree start log) tree)

/-- The command agrees with the compiler on every host, and on one that keeps its files in a tree it
changes no file but that at the output path. -/
theorem run_agrees_with_compile (o : Options) :
    (∀ (σ : Type) (host : Host σ) (s : σ), o.Agrees host s) ∧
      ∀ start log tree source file text, Host.text? (.ofTree start log) tree o.input = some source →
        compile source file = .ok text → o.check = false →
        o.Leaves start log tree (Text.utf8 text.toList) := by
  refine ⟨fun σ host s => agrees o host s, ?_⟩
  intro start log tree source file text hsource h hcheck
  have hagrees := agrees o (.ofTree start log) tree
  constructor
  case unwritable =>
    intro cause htarget
    have hwrite := FileTree.write_of_target_eq_error htarget (Text.utf8 text.toList)
    exact hagrees.unwritten source file text cause tree hsource h hcheck
      (by simp only [Host.ofTree, hwrite])
  case writable =>
    intro place htarget
    obtain ⟨tree', hwrite, hwrote⟩ := FileTree.wrote_of_target htarget (Text.utf8 text.toList)
    exact ⟨tree', hwrote, hagrees.written source file text tree' hsource h hcheck
      (by simp only [Host.ofTree, hwrite])⟩

/-- A source and a working directory from which a link leads to it. -/
def linkedTree : FileTree where
  entries :=
    [(["src"], .directory), (["src", "a.ch"], .file (Text.utf8 "print(1);".toList)),
      (["home"], .directory), (["home", "out"], .link "../src")]
  current := ["home"]

/-- A run from a path that begins at the root to one over a link, whose C compiler fails. -/
def linkedOptions : Options where
  input := "/src/a.ch"
  output := some "out/b.c"
  dumpAst := false
  check := false
  cc := some "cc"
  verbose := 0

/-- A run leaves its C text behind the link and there alone, also when the C compiler fails. -/
theorem run_linked_keeps_text :
    let start := fun (t : FileTree) (_ _ _ : String) => (Tool.fails "", t)
    let r := linkedOptions.run (.ofTree start .plain) linkedTree
    ∃ text, compile "print(1);" "a.ch" = .ok text ∧ r.1.exit = 1 ∧
      r.2.read "out/b.c" = .ok (Text.utf8 text.toList) ∧
      r.2.node ["src", "a.ch"] = .file (Text.utf8 "print(1);".toList) := by
  intro start r
  have hok : (compile "print(1);" "a.ch").isOk = true := by decide +kernel
  cases hcompile : compile "print(1);" "a.ch" with
  | error e =>
    rw [hcompile] at hok
    cases hok
  | ok text =>
    have hsource : Host.text? (.ofTree start .plain) linkedTree linkedOptions.input =
        some "print(1);" := by decide +kernel
    have htarget : linkedTree.target linkedOptions.outputPath = .ok ["src", "b.c"] := by
      decide +kernel
    obtain ⟨tree, hwrote, -, hleft⟩ := ((run_agrees_with_compile linkedOptions).2 start .plain
      linkedTree "print(1);" "a.ch" text hsource hcompile rfl).writable _ htarget
    obtain ⟨hexit, htree⟩ := hleft "cc" rfl
    have htree : r.2 = tree := htree
    refine ⟨text, rfl, hexit, ?_, ?_⟩
    · rw [htree]
      exact hwrote.read (by decide +kernel)
    · rw [htree, hwrote.others _ (by decide +kernel)]
      decide +kernel

/-- A source next to a device. -/
def deviceTree (source : String) : FileTree where
  entries :=
    [(["a.ch"], .file (Text.utf8 source.toList)), (["dev"], .directory), (["dev", "null"], .device)]
  current := []

/-- A run that is asked to report and to keep nothing. -/
def deviceOptions : Options where
  input := "a.ch"
  output := some "/dev/null"
  dumpAst := false
  check := false
  cc := none
  verbose := 1

/-- The log can stand in front of a report, and the output path can lead to what keeps nothing. -/
theorem run_logs_and_discards :
    (¬ ∀ (o : Options) start log (tree : FileTree) source e,
        Host.text? (.ofTree start log) tree o.input = some source →
        compile source (Path.fileName o.input) = .error e →
        (o.run (.ofTree start log) tree).1.stderr =
          "-> " ++ o.input ++ "\n" ++ e.report source ++ "\n") ∧
      ¬ ∀ (o : Options) start log (tree : FileTree) source text place,
        Host.text? (.ofTree start log) tree o.input = some source →
        compile source (Path.fileName o.input) = .ok text → o.check = false → o.cc = none →
        tree.target o.outputPath = .ok place →
        (o.run (.ofTree start log) tree).2.read o.outputPath = .ok (Text.utf8 text.toList) := by
  constructor
  · intro h
    have hfault : (compile "1" "a.ch").isOk = false := by decide +kernel
    cases hcompile : compile "1" "a.ch" with
    | ok text =>
      rw [hcompile] at hfault
      cases hfault
    | error e =>
      -- the fault is one for the parser, and that there are tokens is reported before
      have hhead : (deviceOptions.run (.ofTree (fun t _ _ _ => (.missing, t)) .plain)
          (deviceTree "1")).1.stderr.toList.head? = some ' ' := by decide +kernel
      rw [h deviceOptions _ .plain (deviceTree "1") "1" e (by decide +kernel) hcompile] at hhead
      simp [String.toList_append] at hhead
  · intro h
    have hbytes : ((compile "" "a.ch").map fun text => (Text.utf8 text.toList).isEmpty) =
        .ok false := by
      decide +kernel
    cases hcompile : compile "" "a.ch" with
    | error e =>
      rw [hcompile] at hbytes
      cases hbytes
    | ok text =>
      have hread : (deviceOptions.run (.ofTree (fun t _ _ _ => (.missing, t)) .plain)
          (deviceTree "")).2.read "/dev/null" = .ok [] := by decide +kernel
      have htext := h deviceOptions (fun t _ _ _ => (.missing, t)) .plain (deviceTree "") "" text
        ["dev", "null"] (by decide +kernel) hcompile rfl rfl (by decide +kernel)
      have hempty : Text.utf8 text.toList = [] := Except.ok.inj (htext.symm.trans hread)
      simp [hcompile, Except.map, hempty] at hbytes

end Options

end Chalk.Command
