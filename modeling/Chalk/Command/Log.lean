/-!
The log of a run. Events are reported on the way and shown as lines, each with its time. How many of
them are shown is said on the command line, or else by the environment, which by default asks for
none of those that there are.
-/

namespace Chalk.Command

inductive Level where
  | trace | debug | info
deriving DecidableEq, Repr, Inhabited

/-- Something that is reported. -/
structure Event where
  level : Level
  message : String
deriving DecidableEq, Repr, Inhabited

/-- The steps from a source text to C. -/
inductive Step where
  | tokenize | parse | check | generate
deriving DecidableEq, Repr, Inhabited

/-- What a report gives the time of. -/
inductive Timed where
  | step (s : Step)
  | total
  | build
deriving DecidableEq, Repr, Inhabited

/-- What the log of a run depends on besides its events. -/
structure Log where
  /-- Whether the environment asks for an event. -/
  environment : Event → Bool
  /-- The line for an event, which is the one with the given number. -/
  line : Nat → Event → String
  elapsed : Timed → String
  /-- What a step reports by itself. -/
  inner : Step → List Event

namespace Log

/-- Whether an event is shown. -/
def shows (log : Log) : (verbose : Nat) → Event → Bool
  | 0, e => log.environment e
  | 1, e => e.level != .trace
  | _, _ => true

/-- The lines for the events that are shown. -/
def text (log : Log) (verbose : Nat) (events : List Event) : String :=
  String.join ((events.zipIdx.filter fun e => log.shows verbose e.1).map fun e =>
    log.line e.2 e.1 ++ "\n")

def info (message : String) : Event :=
  { level := .info, message }

/-- The report at the end of a step. -/
def finished (log : Log) (s : Step) : Event :=
  let done :=
    match s with
    | .tokenize => "Tokenized"
    | .parse => "Parsed"
    | .check => "Type checked"
    | .generate => "Generated C"
  info (done ++ " in " ++ log.elapsed (.step s))

/-- The report at the end of all steps. -/
def total (log : Log) : Event :=
  info ("Total time: " ++ log.elapsed .total)

def wrote (path : String) : Event :=
  info ("wrote C source path=" ++ path)

def invoking (cc executable : String) : Event :=
  { level := .debug
    message := "invoking C compiler cc=\"" ++ cc ++ "\" executable=" ++ executable }

def built (log : Log) (cc : String) : Event :=
  info ("Compiled using " ++ cc ++ " in " ++ log.elapsed .build)

/-- A log without a clock, of which the environment wants nothing. -/
def plain : Log where
  environment _ := false
  line _ e :=
    let level :=
      match e.level with
      | .trace => "TRACE"
      | .debug => "DEBUG"
      | .info => " INFO"
    level ++ " " ++ e.message
  elapsed _ := "some time"
  inner _ := []

end Log

end Chalk.Command
