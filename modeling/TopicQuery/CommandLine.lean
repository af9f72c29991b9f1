import TopicQuery.Settings

/-!
The command line: writes the query in a file, or on standard input, in the form
the settings ask for.
-/

namespace TopicQuery.CommandLine

/-- What a run of the program is given. -/
structure Invocation where
  arguments : List String
  environment : List (String × String)
  input : List UInt8
  deriving DecidableEq, Repr

/-- What a run of the program leaves behind. -/
structure Outcome where
  code : UInt8
  output : String
  error : String
  deriving DecidableEq, Repr

/-- How the program is used. -/
def usage : String := "usage: tolog [FILE] | tolog --serve | tolog --passes"

/-- A pass on a line, its description at a fixed column. -/
def passLine (pass : Pass) : String :=
  let padding := String.ofList (List.replicate (22 - pass.name.length) ' ')
  let mark := if Pass.standard.contains pass then " (default)" else ""
  pass.name ++ padding ++ pass.description ++ mark ++ "\n"

/-- A failure of the query itself, rather than of anything around it. -/
def isQueryFailure : Failure → Bool
  | .query _ _ _ => true
  | .lexical _ _ _ => true
  | _ => false

/-- What is left behind by a result. -/
def outcome : Except Failure String → Outcome
  | .ok output => ⟨0, output, ""⟩
  | .error failure => ⟨if isQueryFailure failure then 2 else 1, "", failure.message ++ "\n"⟩

section

variable {m : Type → Type} [Monad m]

/-- The name of the settings without its ending, which must not be that of a file. -/
def settingsStem : String := "tolog"

/-- The name of the settings. -/
def settingsName : String := settingsStem ++ ".toml"

/-- The settings document in the current directory, if there is one. -/
def settingsDocument (files : Files m) : m (Option String) := do
  if ← files.isFile settingsStem then return none
  else if ← files.isFile settingsName then
    match ← files.contents settingsName with
    | .ok bytes => return some (String.ofList (Text.Utf8.readPrefix bytes).1)
    | .error _ => return none
  else return none

/-- Writes a source as the settings ask for. -/
def print (files : Files m) (settings : Settings) (source : Source) : m (Except Failure String) := do
  let result ← source.convertFrom files settings.readOptions settings.hints settings.output
  return result.map (· ++ "\n")

/-- The source on standard input. -/
def standardInput (settings : Settings) (input : List UInt8) : Except Failure Source :=
  match Text.Utf8.decode input with
  | .error _ => .error (.source .badStream)
  | .ok cs => do return ⟨.text (String.ofList cs), ← settings.baseIri⟩

/-- What the program writes, given its settings. -/
def answer (files : Files m) (settings : Settings) (invocation : Invocation) :
    m (Except Failure String) :=
  match invocation.arguments with
  | [] =>
    match standardInput settings invocation.input with
    | .ok source => print files settings source
    | .error failure => pure (.error failure)
  | [argument] => do
    if argument == "--passes" then return .ok (String.join (Pass.all.map passLine))
    else if argument == "--help" || argument == "-h" then return .ok (usage ++ "\n")
    else
      match ← files.openNamed argument with
      | .ok source => print files settings source
      | .error failure => return .error failure
  | _ => pure (.error (.config (.usage usage)))

/-- Runs the program. -/
def run (files : Files m) (invocation : Invocation) : m Outcome := do
  let document ← settingsDocument files
  match Settings.read document invocation.environment with
  | .error failure => return outcome (.error failure)
  | .ok settings => return outcome (← answer files settings invocation)

end

end TopicQuery.CommandLine
