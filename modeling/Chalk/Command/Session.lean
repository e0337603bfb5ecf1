import Chalk.Command.FileTree
import Chalk.Command.Log
import Chalk.Command.Options
import Chalk.Compile
import Chalk.Text.Utf8
import Chalk.Tree.Listing

/-!
A run of the command. It goes by stages: what follows from reading the input, from writing the C
text, and from the C compiler. `run` plays the stages on a host, which reads and writes files and
starts programs.
-/

namespace Chalk.Command

/-- How a run ends: its exit status and what it prints. -/
structure Ending where
  exit : Nat
  stdout : String
  stderr : String
deriving DecidableEq, Repr, Inhabited

/-- What a C compiler does when it is started. -/
inductive Tool where
  | succeeds
  | fails (stderr : String)
  /-- There is no such program. -/
  | missing
  /-- The program is there and cannot be started. -/
  | refused (cause : FileError)
deriving DecidableEq, Repr, Inhabited

/-- What a run has printed and reported so far. -/
structure Progress where
  stdout : String
  events : List Event
deriving DecidableEq, Repr, Inhabited

namespace Progress

def start : Progress :=
  { stdout := "", events := [] }

def print (p : Progress) (text : String) : Progress :=
  { p with stdout := p.stdout ++ text }

def report (p : Progress) (events : List Event) : Progress :=
  { p with events := p.events ++ events }

end Progress

/-- The way from a source text to C. It may be given up, and then has its progress up to there. -/
abbrev Pipeline := ExceptT CompileError (StateM Progress)

namespace Pipeline

def print (text : String) : Pipeline Unit :=
  modify (·.print text)

def report (event : Event) : Pipeline Unit :=
  modify (·.report [event])

/-- Does a step: what it reports by itself, what it comes to, and the report at its end. -/
def step {α : Type} (log : Log) (s : Step) (result : Except CompileError α) : Pipeline α := do
  modify (·.report (log.inner s))
  let a ← ExceptT.mk (pure result)
  report (log.finished s)
  return a

end Pipeline

/-- C text that is to be written. -/
structure Writing where
  path : String
  text : String
  progress : Progress
deriving DecidableEq, Repr, Inhabited

/-- A C compiler that is to be started. -/
structure Building where
  cc : String
  file : String
  executable : String
  progress : Progress
deriving DecidableEq, Repr, Inhabited

/-- The files and programs around a run, whose states are of type `σ`. -/
structure Host (σ : Type) where
  read : σ → String → Except FileError (List UInt8)
  write : σ → String → List UInt8 → Except FileError Unit × σ
  /-- Starts a C compiler on a C file, for the executable that it is to make. -/
  start : σ → (cc file executable : String) → Tool × σ
  log : Log

namespace Options

/-- Where the C text goes. -/
def outputPath (o : Options) : String :=
  o.output.getD (Path.withExtension o.input "c")

/-- The ending of a run. What is logged stands in front of all else on the error output. -/
def ending (o : Options) (log : Log) (exit : Nat) (p : Progress) (stderr : String) : Ending :=
  { exit, stdout := p.stdout, stderr := log.text o.verbose p.events ++ stderr }

/-- The ending of a run that could not do something. -/
def failure (o : Options) (log : Log) (p : Progress) (message : String) (cause : FileError) :
    Ending :=
  o.ending log 1 p ("Error: " ++ message ++ "\n\nCaused by:\n    " ++ cause.message ++ "\n")

/-- The C text of a source, step by step, and nothing if it is only to be checked. -/
def pipeline (o : Options) (log : Log) (source file : String) : Pipeline (Option String) := do
  let tokens ← .step log .tokenize ((tokenize source file).mapError .syntactic)
  let program ← .step log .parse ((parse tokens file).mapError .syntactic)
  .print (if o.dumpAst then listing program ++ "\n" else "")
  let typed ← .step log .check ((typeCheck program).mapError .semantic)
  if o.check then return none
  let text ← .step log .generate (.ok (C.generate typed))
  .report log.total
  return some text

/-- What follows from the text of the input. -/
def compileText (o : Options) (log : Log) (source : String) : Except Ending Writing :=
  let file := Path.fileName o.input
  match (o.pipeline log source file).run.run .start with
  | (.error e, p) =>
    .error (o.ending log 1 p ("-> " ++ o.input ++ "\n" ++ e.report source ++ "\n"))
  | (.ok none, p) => .error (o.ending log 0 (p.print (file ++ ": no errors found\n")) "")
  | (.ok (some text), progress) => .ok { path := o.outputPath, text, progress }

/-- What follows from reading the input. -/
def afterRead (o : Options) (log : Log) (bytes : Except FileError (List UInt8)) :
    Except Ending Writing :=
  let source := bytes.bind fun bytes =>
    match Text.ofUtf8? bytes with
    | some source => .ok source
    | none => .error .notText
  match source with
  | .error cause => .error (o.failure log .start ("failed to read '" ++ o.input ++ "'") cause)
  | .ok source => o.compileText log source

/-- The name of the executable for a C file: the file's without its extension, or with another one
when it has none. -/
def executable (path : String) : String :=
  let bare := Path.withExtension path ""
  if bare = path then Path.withExtension path "out" else bare

/-- What follows from writing the C text. -/
def afterWrite (o : Options) (log : Log) (w : Writing) (written : Except FileError Unit) :
    Except Ending Building :=
  match written with
  | .error cause =>
    .error (o.failure log w.progress ("failed to write '" ++ w.path ++ "'") cause)
  | .ok () =>
    let p := w.progress.report [Log.wrote w.path]
    match o.cc with
    | none => .error (o.ending log 0 p "")
    | some cc =>
      let target := executable w.path
      .ok
        { cc
          file := w.path
          executable := target
          progress := p.report [Log.invoking cc target] }

/-- The ending of a run that has started a C compiler. -/
def afterBuild (o : Options) (log : Log) (b : Building) : Tool → Ending
  | .succeeds =>
    o.ending log 0 ((b.progress.report [log.built b.cc]).print (b.executable ++ "\n")) ""
  | .fails stderr =>
    o.ending log 1 b.progress
      ("Error: '" ++ b.cc ++ "' failed to compile '" ++ b.file ++ "':\n" ++ stderr ++ "\n")
  | .missing => o.failure log b.progress ("failed to run '" ++ b.cc ++ "'") .notFound
  | .refused cause => o.failure log b.progress ("failed to run '" ++ b.cc ++ "'") cause

/-- Runs the options on a host. -/
def run {σ : Type} (o : Options) (host : Host σ) (s : σ) : Ending × σ :=
  match o.afterRead host.log (host.read s o.input) with
  | .error ending => (ending, s)
  | .ok w =>
    let (written, s) := host.write s w.path (Text.utf8 w.text.toList)
    match o.afterWrite host.log w written with
    | .error ending => (ending, s)
    | .ok b =>
      let (tool, s) := host.start s b.cc b.file b.executable
      (o.afterBuild host.log b tool, s)

end Options

/-- The host that keeps its files in a tree. -/
def Host.ofTree (start : FileTree → (cc file executable : String) → Tool × FileTree) (log : Log) :
    Host FileTree where
  read := FileTree.read
  write t path bytes :=
    match t.write path bytes with
    | .error cause => (.error cause, t)
    | .ok t => (.ok (), t)
  start := start
  log := log

/-- The name and version of the command. -/
def version : String :=
  "chalkc 0.1.0\n"

def help : String :=
  "\n".intercalate
    ["Compiles Chalk source files to C",
      "",
      "Usage: chalkc [OPTIONS] <INPUT>",
      "",
      "Arguments:",
      "  <INPUT>  Path to the Chalk source file",
      "",
      "Options:",
      "  -o, --output <OUTPUT>  Where to write the generated C " ++
        "(defaults to INPUT with a .c extension)",
      "      --dump-ast         Print the parsed AST before type checking",
      "      --check            Only run the type checker, write nothing",
      "      --cc <CC>          Build an executable with this C compiler after writing the C file",
      "  -v, --verbose...       Increase log verbosity (-v debug, -vv trace)",
      "  -h, --help             Print help",
      "  -V, --version          Print version",
      ""]

/-- The ending when the arguments cannot be understood. -/
def misuse : Ending :=
  { exit := 2
    stdout := ""
    stderr :=
      "error: the arguments cannot be understood\n\nUsage: chalkc [OPTIONS] <INPUT>\n\n" ++
        "For more information, try '--help'.\n" }

/-- The ending of a run that prints and has nothing else to do. -/
def success (stdout : String) : Ending :=
  { exit := 0, stdout, stderr := "" }

/-- Runs the command on a host. -/
def run {σ : Type} (arguments : List String) (host : Host σ) (s : σ) : Ending × σ :=
  match Request.ofArguments arguments with
  | .compile options => options.run host s
  | .version => (success version, s)
  | .help => (success help, s)
  | .misuse => (misuse, s)

end Chalk.Command
