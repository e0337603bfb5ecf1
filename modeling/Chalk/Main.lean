import Chalk.Command.Session

/-!
The command on real files. No other program can be started from here, so a C compiler counts as
missing.
-/

namespace Chalk.Command

/-- Why the system refused to read or write a file. -/
def fileError : IO.Error → FileError
  | .noFileOrDirectory .. => .notFound
  | .inappropriateType _ code details =>
    if code = 20 then .notADirectory else if code = 21 then .isADirectory else .other details
  | .invalidArgument _ code details => if code = 36 then .nameTooLong else .other details
  | e => .other (toString e)

/-- Prints the ending of a run and gives its exit status. -/
def finish (ending : Ending) : IO UInt32 := do
  (← IO.getStdout).putStr ending.stdout
  (← IO.getStderr).putStr ending.stderr
  return .ofNat ending.exit

/-- Runs the options on the files of the system. -/
def runOptions (o : Options) : IO UInt32 := do
  let bytes ← (IO.FS.readBinFile o.input).toBaseIO
  match o.afterRead .plain ((bytes.mapError fileError).map (·.toList)) with
  | .error ending => finish ending
  | .ok w =>
    let written ← (IO.FS.writeFile w.path w.text).toBaseIO
    match o.afterWrite .plain w (written.mapError fileError) with
    | .error ending => finish ending
    | .ok b => finish (o.afterBuild .plain b .missing)

end Chalk.Command

def main (arguments : List String) : IO UInt32 :=
  match Chalk.Command.Request.ofArguments arguments with
  | .compile options => Chalk.Command.runOptions options
  | .version => Chalk.Command.finish (Chalk.Command.success Chalk.Command.version)
  | .help => Chalk.Command.finish (Chalk.Command.success Chalk.Command.help)
  | .misuse => Chalk.Command.finish Chalk.Command.misuse
