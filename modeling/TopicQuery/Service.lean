import TopicQuery.Service.Request
import TopicQuery.Settings

/-!
The service: a request for one query in, its written form or a message out. No
file is ever read for a request, so imported modules stay unloaded.
-/

namespace TopicQuery

namespace Service

/-- A call of the service. -/
structure Call where
  method : String
  path : String
  contentType : String
  body : String
  deriving DecidableEq, Repr

/-- What the service answers: a status and, if the call was understood, a result. -/
structure Answer where
  status : Nat
  body : Option Json

/-- The place the service answers at. -/
def path : String := "/v1/parse"

/-- A character of a word in a media type. -/
def isTokenPart (c : Char) : Bool :=
  c.isAlphanum || ("!#$%&'*+-.^_|~".toList).contains c || c.toNat == 0x60

/-- The text in front of the first of a character. -/
def before (stop : Char) (cs : List Char) : List Char := cs.takeWhile (· != stop)

/-- The text behind the first of a character. -/
def behind (stop : Char) (cs : List Char) : List Char := (cs.dropWhile (· != stop)).drop 1

/-- A nonempty word of a media type. -/
def isToken (cs : List Char) : Bool := !cs.isEmpty && cs.all isTokenPart

/-- A media type for JSON: `application/json`, or any with the suffix `+json`. -/
def isJsonType (contentType : String) : Bool :=
  let cs := (before ';' contentType.toList).map Char.toLower
  let main := before '/' cs
  let sub := behind '/' cs
  let suffix := (sub.reverse.takeWhile (· != '+')).reverse
  let stem := sub.take (sub.length - suffix.length - 1)
  isToken main && isToken sub && main == "application".toList &&
    (sub == "json".toList || (sub.contains '+' && (suffix == "json".toList || stem == "json".toList)))

/-- The written form that a request asks for. -/
def convert (settings : Settings) (request : Request) : Except Failure String := do
  let base ←
    match request.base with
    | some base => Iri.create base
    | none => settings.baseIri
  let options : ReadOptions :=
    ⟨request.plus.getD settings.plus, request.optimizers.or settings.passes⟩
  Source.convertWith .empty options (request.hints.getD settings.hints)
    (request.output.getD settings.output) ⟨.text request.query, base⟩

/-- The status of a failure: whether the request or the service is to blame. -/
def statusOf : Failure → Nat
  | .source _ => 500
  | .invariant _ => 500
  | _ => 400

/-- The answer to a request that was understood. -/
def answer (settings : Settings) (request : Request) : Answer :=
  match convert settings request with
  | .ok text =>
    ⟨200, some (.object [("status", .string "ok"), ("output", .string text)])⟩
  | .error failure =>
    ⟨statusOf failure,
      some (.object [("status", .string "error"), ("error", .string failure.message)])⟩

/-- Answers a call. -/
def respond (settings : Settings) (call : Call) : Answer :=
  if call.method == "OPTIONS" then ⟨200, none⟩
  else if String.ofList (before '?' call.path.toList) ≠ path then ⟨404, none⟩
  else if call.method ≠ "POST" then ⟨405, none⟩
  else if !isJsonType call.contentType then ⟨415, none⟩
  else
    match Request.read call.body with
    | .ok request => answer settings request
    | .error .syntactic => ⟨400, none⟩
    | .error .wrongData => ⟨422, none⟩

end Service

end TopicQuery
