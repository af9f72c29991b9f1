import TopicQuery.Element.Replay
import TopicQuery.Imports
import TopicQuery.Pass
import TopicQuery.Query.Written
import TopicQuery.Rendering
import TopicQuery.Source.Files
import TopicQuery.Xml.Write

/-!
From a source to its tree, to its query, and to another written form.
-/

namespace TopicQuery

/-- How a source is read: in tolog+ from the start or not, and optimized by which passes. -/
structure ReadOptions where
  plus : Bool
  passes : Option (List String)
  deriving DecidableEq, Repr

/-- A written form of a query. -/
inductive Output
  | tolog
  | tologPlus
  | xml
  | json
  deriving DecidableEq, Repr

namespace Output

/-- Every form, once. -/
def all : List Output := [tolog, tologPlus, xml, json]

/-- The name of a form. -/
def name : Output → String
  | tolog => "tolog"
  | tologPlus => "tolog-plus"
  | xml => "xml"
  | json => "json"

/-- The form with the given name. -/
def ofName? (s : String) : Option Output := all.find? (·.name == s)

end Output

namespace Pass

/-- The pass with a name that has to be known. -/
def named (name : String) : Except Failure Pass :=
  match ofName? name with
  | some pass => .ok pass
  | none => .error (.config (.unknownPass name))

/-- The passes with some names, or the standard ones. -/
def ofNames : Option (List String) → Except Failure (List Pass)
  | none => .ok standard
  | some names => names.mapM named

end Pass

/-! ## Trees -/

namespace Element

/-- The tree of some events, which may end with a failure of their own. -/
def ofEventsOr (events : List Event) (failure : Option Failure) : Except Failure Element := do
  let g ← Except.orFailure Failure.ofTree (Growth.empty.run events)
  match failure with
  | some failure => throw failure
  | none => Except.orFailure Failure.ofTree g.tree

/-- The tree of a text as it stands. -/
def ofText (plus : Bool) (text : String) : Except Failure Element :=
  let parsed := parse text plus
  ofEventsOr parsed.events (parsed.fault.map Failure.ofParse)

/-- The optimized tree of a source. -/
def ofSource (options : ReadOptions) (source : Source) : Except Failure Element := do
  let passes ← Pass.ofNames options.passes
  let text ← source.read
  return optimize passes (← ofText options.plus text)

/-- A tree from XML text. -/
def ofXml (text : String) : Except Failure Element :=
  Except.orFailure (fun fault => .source (.badXml fault)) (Xml.read text)

/-- The tree as query text. -/
def toText (dialect : Dialect) (hints : Bool) (tree : Element) : Except Failure String :=
  Except.orFailure .render (render dialect hints tree)

/-- The query that a tree stands for. -/
def toQuery (f : Factory) (document : Iri) (tree : Element) : Except Failure Query :=
  let replay := tree.replay
  Query.ofEvents f document replay.events (replay.fault.map Failure.ofTree)

end Element

/-! ## Queries -/

/-- The query of a source. -/
def Query.ofSource (f : Factory) (options : ReadOptions) (source : Source) :
    Except Failure Query := do
  (← Element.ofSource options source).toQuery f source.base

/-- The query of a source with the modules it imports from a library. -/
def Query.withLibrary (library : Library) (options : ReadOptions) (source : Source) :
    Except Failure Query := do
  let q ← Query.ofSource .plain options source
  return { q with imported := ← library.loadAll options.plus q }

/-! ## Written forms -/

/-- A query as JSON text. -/
def Query.toJson (q : Query) : String := q.json.pretty 0

/-- The source in a form that shows no imported modules. -/
def Source.convertAlone (options : ReadOptions) (hints : Bool) (source : Source) :
    Output → Except Failure String
  | .tolog => do (← Element.ofSource options source).toText .legacy hints
  | .tologPlus => do (← Element.ofSource options source).toText .plus hints
  | .xml => do return Xml.write (← Element.ofSource options source)
  | .json => do return (← Query.ofSource .plain options source).toJson

/-- The source in another form, with modules fetched where the form shows them. -/
def Source.convert {m : Type → Type} [Monad m] (fetch : Iri → m (Except Failure (Option Source)))
    (budget : Nat) (options : ReadOptions) (hints : Bool) (output : Output) (source : Source) :
    m (Except Failure String) :=
  match output with
  | .json =>
    match Query.ofSource .plain options source with
    | .error failure => pure (.error failure)
    | .ok q => do
      match ← Loading.loadAll options.plus fetch budget q with
      | .error failure => pure (.error failure)
      | .ok modules => pure (.ok { q with imported := modules }.toJson)
  | output => pure (source.convertAlone options hints output)

/-- The source in another form, with modules from a library. -/
def Source.convertWith (library : Library) (options : ReadOptions) (hints : Bool)
    (output : Output) (source : Source) : Except Failure String :=
  Id.run (source.convert (fun iri => pure (.ok (library.source? iri)))
    library.documents.length options hints output)

/-- More modules than any program imports. -/
def moduleLimit : Nat := 1000000

/-- The source in another form, with modules from files. -/
def Source.convertFrom {m : Type → Type} [Monad m] (files : Files m) (options : ReadOptions)
    (hints : Bool) (output : Output) (source : Source) : m (Except Failure String) :=
  source.convert files.source? moduleLimit options hints output

end TopicQuery
