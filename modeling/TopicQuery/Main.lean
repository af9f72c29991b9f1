import TopicQuery.CommandLine

/-!
The program: hands the arguments, the environment, standard input and the files
of the disk to the command line, and writes what it leaves behind.
-/

namespace TopicQuery.Main

/-- What the system says about a file that cannot be used. -/
def fileFault : IO.Error → FileFault
  | .noFileOrDirectory .. => .notFound
  | .inappropriateType _ 20 _ => .notDirectory
  | .inappropriateType _ 21 _ => .isDirectory
  | .invalidArgument _ 36 _ => .nameTooLong
  | .permissionDenied _ 13 _ => .denied
  | error => .other error.toString

/-- The answer of the system, with its reasons as ours. -/
def asking {α : Type} (action : IO α) : IO (Except FileFault α) := do
  return (← action.toBaseIO).mapError fileFault

/-- The files of the disk. -/
def disk : Files IO where
  canonical name := asking do
    return (← IO.FS.realPath name).toString
  isFile name := do
    match ← asking do return (← (← IO.FS.realPath name).metadata).type with
    | .ok kind => return kind == .file
    | .error _ => return false
  contents name := asking do
    return (← IO.FS.readBinFile name).toList

/-- The environment variables that are settings. -/
def variableNames : List String :=
  ["BASE", "TOLOG_PLUS", "OPTIMIZERS", "OUTPUT", "HINTS", "BIND"].map ("TOLOG_" ++ ·)

/-- The settings among the environment variables. -/
def environment : IO (List (String × String)) :=
  variableNames.filterMapM fun name => do
    return (← IO.getEnv name).map (name, ·)

/-- Everything on standard input. -/
def standardInput : IO (List UInt8) := do
  return (← (← IO.getStdin).readBinToEnd).toList

/-- Runs the program on what the system hands it. -/
def run (arguments : List String) : IO UInt32 := do
  let input ← if arguments.isEmpty then standardInput else pure []
  let outcome ← CommandLine.run disk ⟨arguments, ← environment, input⟩
  IO.print outcome.output
  IO.eprint outcome.error
  return outcome.code.toUInt32

end TopicQuery.Main

/-- The program. -/
def main (arguments : List String) : IO UInt32 := TopicQuery.Main.run arguments
