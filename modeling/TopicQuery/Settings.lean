import TopicQuery.Conversion
import TopicQuery.Toml.Read

/-!
Settings of the command line and the service, from a document and from
environment variables, which count more. Values are converted where their type
is not the one expected: any number is a truth value, any word is a text.
-/

namespace TopicQuery

/-- How queries are read and written where a request does not say. -/
structure Settings where
  base : String
  plus : Bool
  optimizers : Option (List String)
  output : Output
  hints : Bool
  bind : String
  deriving DecidableEq, Repr

namespace Toml

/-- A value as text. -/
def text? : Toml → Option String
  | string s => some s
  | integer n => some (if n < 0 then "-" ++ Text.numeral n.natAbs else Text.numeral n.natAbs)
  | float x => some x.text
  | bool b => some (if b then "true" else "false")
  | time s => some s
  | _ => none

/-- A value as a truth value. -/
def bool? : Toml → Option Bool
  | bool b => some b
  | integer n => some (n != 0)
  | float x => some x.isNonzero
  | string s =>
    let word := String.ofList (s.toList.map Char.toLower)
    if ["1", "true", "on", "yes"].contains word then some true
    else if ["0", "false", "off", "no"].contains word then some false
    else none
  | _ => none

/-- A value as a list of texts. -/
def texts? : Toml → Option (List String)
  | array items => items.mapM text?
  | _ => none

/-- The form with a name, whatever the case of its letters. -/
def outputNamed? (name : String) : Option Output :=
  Output.ofName? (String.ofList (name.toList.map Char.toLower))

/-- A value as a written form: its name, or a table with that name as its only key. -/
def output? : Toml → Option Output
  | string s => outputNamed? s
  | table _ [(name, _)] => outputNamed? name
  | _ => none

end Toml

namespace Settings

/-- The settings where nothing is set. -/
def standard : Settings := ⟨"file:///", false, none, .tologPlus, false, "127.0.0.1:8080"⟩

/-- A setting that is read by `f` if it is there. -/
def setting {α : Type} (values : Toml.Members) (key : String) (f : Toml → Option α) (default : α) :
    Option α :=
  match Toml.get? key values with
  | none => some default
  | some value => f value

/-- The settings that a table holds; other keys do not count. -/
def ofValues? (values : Toml.Members) : Option Settings := do
  let base ← setting values "base" Toml.text? standard.base
  let plus ← setting values "tolog_plus" Toml.bool? standard.plus
  let optimizers ← setting values "optimizers" (fun v => v.texts?.map some) standard.optimizers
  let output ← setting values "output" Toml.output? standard.output
  let hints ← setting values "hints" Toml.bool? standard.hints
  let bind ← setting values "bind" Toml.text? standard.bind
  return ⟨base, plus, optimizers, output, hints, bind⟩

/-- The parts of a text between commas. -/
def commaParts (cs : List Char) : List String :=
  match cs with
  | [] => [""]
  | c :: rest =>
    if c = ',' then "" :: commaParts rest
    else
      match commaParts rest with
      | [] => [String.ofList [c]]
      | s :: parts => String.ofList (c :: s.toList) :: parts

/-- A signed number of 64 bits. -/
def integer? (cs : List Char) : Option Int :=
  let (negative, digits) := Toml.splitSign cs
  (Text.number? digits).bind fun n =>
    let value : Int := if negative then -(n : Int) else n
    if Text.fitsSigned 64 value then some value else none

/-- The value of an environment variable. -/
def environmentValue (key value : String) : Toml :=
  let cs := value.toList
  match String.ofList (cs.map Char.toLower), integer? cs, Text.Binary64.read? cs with
  | "true", _, _ => .bool true
  | "false", _, _ => .bool false
  | _, some n, _ => .integer n
  | _, none, some x => .float x
  | _, none, none =>
    if key == "optimizers" then .array ((commaParts cs).map .string) else .string value

/-- The prefix of the environment variables that are settings. -/
def environmentPrefix : List Char := "tolog_".toList

/-- The values with those of the environment variables in their places. -/
def withEnvironment (values : Toml.Members) (environment : List (String × String)) :
    Toml.Members :=
  environment.foldl
    (fun values (name, value) =>
      let name := name.toList.map Char.toLower
      if environmentPrefix.isPrefixOf name then
        let key := String.ofList (name.drop environmentPrefix.length)
        Toml.set key (environmentValue key value) values
      else values)
    values

/-- A reason is given where there is one. -/
def checked (reason : String) : Option Settings → Except Failure Settings
  | some settings => .ok settings
  | none => .error (.config (.settings reason))

/-- The table that an optional document is. -/
def readValues (document : Option String) : Except Failure Toml.Members :=
  match document with
  | none => .ok []
  | some text =>
    match Toml.read? text with
    | some values => .ok values
    | none => .error (.config (.settings "the settings are not well formed"))

/-- The settings of an optional document and the environment. -/
def read (document : Option String) (environment : List (String × String)) :
    Except Failure Settings := do
  let values ← readValues document
  checked "a setting has a value of the wrong kind" (ofValues? (withEnvironment values environment))

/-- The IRI that references are relative to. -/
def baseIri (s : Settings) : Except Failure Iri := Iri.create s.base

/-- The passes to run: names without the white space around them, empty ones left out. -/
def passes (s : Settings) : Option (List String) :=
  s.optimizers.map fun names =>
    (names.filter fun n => !Text.isBlankText n.toList).map Text.trim

/-- How a source is read. -/
def readOptions (s : Settings) : ReadOptions := ⟨s.plus, s.passes⟩

end Settings

end TopicQuery
