/-!
The arguments of the command. Options may stand anywhere, in long form (`--output o.c`,
`--output=o.c`) or short form (`-o o.c`, `-oo.c`, several letters behind one dash); behind `--`
every argument is an input. An argument that begins with a dash and has more is never the value of
the option before it. The first fault decides, and so does the first request for the version or for
help.
-/

namespace Chalk.Command

/-- What the command is asked to do. -/
structure Options where
  input : String
  output : Option String
  /-- List the program before it is checked. -/
  dumpAst : Bool
  /-- Write nothing. -/
  check : Bool
  /-- The C compiler to run on what was written. -/
  cc : Option String
  verbose : Nat
deriving DecidableEq, Repr, Inhabited

/-- What the arguments come to. -/
inductive Request where
  | compile (options : Options)
  | version
  | help
  /-- The arguments cannot be understood. -/
  | misuse
deriving DecidableEq, Repr, Inhabited

/-- The options seen so far. -/
structure Draft where
  input : Option String
  output : Option String
  dumpAst : Bool
  check : Bool
  cc : Option String
  verbose : Nat
deriving DecidableEq, Repr, Inhabited

/-- The options that a program has without a value. -/
inductive Flag where
  | dumpAst | check | verbose | version | help
deriving DecidableEq, Repr, Inhabited

/-- The options that a program has with a value. -/
inductive Setting where
  | output | cc
deriving DecidableEq, Repr, Inhabited

/-- What an option is called. -/
inductive Name where
  | flag (f : Flag)
  | setting (s : Setting)
deriving DecidableEq, Repr, Inhabited

def longName? (name : String) : Option Name :=
  match name with
  | "output" => some (.setting .output)
  | "cc" => some (.setting .cc)
  | "dump-ast" => some (.flag .dumpAst)
  | "check" => some (.flag .check)
  | "verbose" => some (.flag .verbose)
  | "version" => some (.flag .version)
  | "help" => some (.flag .help)
  | _ => none

def shortName? (letter : Char) : Option Name :=
  match letter with
  | 'o' => some (.setting .output)
  | 'v' => some (.flag .verbose)
  | 'V' => some (.flag .version)
  | 'h' => some (.flag .help)
  | _ => none

namespace Draft

def empty : Draft :=
  { input := none, output := none, dumpAst := false, check := false, cc := none, verbose := 0 }

/-- The request, when there are no more arguments. -/
def finish (d : Draft) : Request :=
  match d.input with
  | none => .misuse
  | some input =>
    .compile
      { input
        output := d.output
        dumpAst := d.dumpAst
        check := d.check
        cc := d.cc
        verbose := d.verbose }

/-- Sets a flag. Only the one for more messages can be set again; two of them end the reading. -/
def setFlag (d : Draft) : Flag → Except Request Draft
  | .dumpAst => if d.dumpAst then .error .misuse else .ok { d with dumpAst := true }
  | .check => if d.check then .error .misuse else .ok { d with check := true }
  | .verbose => .ok { d with verbose := d.verbose + 1 }
  | .version => .error .version
  | .help => .error .help

/-- Sets a value, once. The path of a file is not empty. -/
def setValue (d : Draft) (value : String) : Setting → Except Request Draft
  | .output =>
    if d.output.isSome ∨ value = "" then .error .misuse else .ok { d with output := some value }
  | .cc => if d.cc.isSome then .error .misuse else .ok { d with cc := some value }

/-- Sets the input, once. -/
def setInput (d : Draft) (value : String) : Except Request Draft :=
  if d.input.isSome ∨ value = "" then .error .misuse else .ok { d with input := some value }

end Draft

/-- What one argument does to the options: it sets some of them, or sets some and waits for a
value. -/
inductive Effect where
  | set (d : Draft)
  | awaiting (d : Draft) (s : Setting)
deriving Repr, Inhabited

/-- Whether an argument begins with a dash and has more. -/
def isOption (argument : String) : Bool :=
  match argument.toList with
  | '-' :: _ :: _ => true
  | _ => false

/-- Letters behind one dash. A setting takes the rest of them as its value, an equals sign before it
apart. -/
def readShort (d : Draft) : List Char → Except Request Effect
  | [] => .ok (.set d)
  | letter :: rest =>
    match shortName? letter with
    | none => .error .misuse
    | some (.flag f) => do
      let d ← d.setFlag f
      readShort d rest
    | some (.setting s) =>
      match rest with
      | [] => .ok (.awaiting d s)
      | '=' :: value => do
        let d ← d.setValue (String.ofList value) s
        .ok (.set d)
      | value => do
        let d ← d.setValue (String.ofList value) s
        .ok (.set d)

/-- A name behind two dashes, and perhaps a value behind an equals sign. -/
def readLong (d : Draft) (cs : List Char) : Except Request Effect := do
  let name := String.ofList (cs.takeWhile (· != '='))
  let value? :=
    match cs.dropWhile (· != '=') with
    | [] => none
    | _ :: value => some (String.ofList value)
  match longName? name, value? with
  | none, _ => .error .misuse
  | some (.flag f), none =>
    let d ← d.setFlag f
    .ok (.set d)
  | some (.flag _), some _ => .error .misuse
  | some (.setting s), none => .ok (.awaiting d s)
  | some (.setting s), some value =>
    let d ← d.setValue value s
    .ok (.set d)

/-- One argument before any `--`. -/
def readArgument (d : Draft) (argument : String) : Except Request Effect :=
  match argument.toList with
  | '-' :: '-' :: cs => readLong d cs
  | '-' :: c :: cs => readShort d (c :: cs)
  | _ => do
    let d ← d.setInput argument
    .ok (.set d)

/-- Arguments that are all inputs. -/
def readInputs (d : Draft) : List String → Except Request Draft
  | [] => .ok d
  | argument :: rest => do
    let d ← d.setInput argument
    readInputs d rest

/-- The options that the arguments add. -/
def readArguments (d : Draft) : List String → Except Request Draft
  | [] => .ok d
  | "--" :: rest => readInputs d rest
  | [argument] =>
    match readArgument d argument with
    | .error r => .error r
    | .ok (.set d) => .ok d
    | .ok (.awaiting _ _) => .error .misuse
  | argument :: value :: rest =>
    match readArgument d argument with
    | .error r => .error r
    | .ok (.set d) => readArguments d (value :: rest)
    | .ok (.awaiting d s) =>
      if isOption value then .error .misuse
      else
        match d.setValue value s with
        | .error r => .error r
        | .ok d => readArguments d rest

/-- What the arguments of the command ask for. -/
def Request.ofArguments (arguments : List String) : Request :=
  match readArguments .empty arguments with
  | .ok d => d.finish
  | .error r => r

end Chalk.Command
