import TopicQuery.Query.Builder
import TopicQuery.Source.Library

/-!
Loading the rules of imported modules. A document is loaded when it is first
reached, the documents it imports directly behind it, and none is loaded twice.
-/

namespace TopicQuery

/-- The failure of a module that holds a statement; it has no place in a text. -/
def statementFound (iri : Iri) : Failure := .query (.statementInModule iri.text) 0 0

/-- The query or module that a text is, with no pass made. -/
def Query.ofText (plus : Bool) (document : Iri) (text : String) : Except Failure Query :=
  let parsed := parse text plus
  Query.ofEvents .plain document parsed.events (parsed.fault.map Failure.ofParse)

/-- The module that a source is. -/
def Query.ofModule (plus : Bool) (iri : Iri) (source : Source) : Except Failure Query := do
  let text ← source.read
  let module ← Query.ofText plus source.base text
  if module.isModule then return module else throw (statementFound iri)

/-- What has been loaded, and which documents need no further look. -/
structure Loading where
  processed : List Iri
  modules : List Module

namespace Loading

/-- Nothing has been loaded, but some documents are known. -/
def start (processed : List Iri) : Loading := ⟨processed, []⟩

/-- A document is not looked at again. -/
def mark (l : Loading) (iri : Iri) : Loading := { l with processed := iri :: l.processed }

/-- One module more. -/
def add (l : Loading) (iri : Iri) (module : Query) : Loading :=
  { l with modules := l.modules ++ [⟨iri, module.rules⟩] }

variable {m : Type → Type} [Monad m]

/--
Loads the pending documents and what they import, with no more than `budget`
modules in all. What was loaded before a failure is kept.
-/
def load (plus : Bool) (fetch : Iri → m (Except Failure (Option Source))) (budget : Nat)
    (l : Loading) (pending : List Iri) : m (Loading × Option Failure) :=
  match pending with
  | [] => pure (l, none)
  | iri :: pending =>
    if iri ∈ l.processed then load plus fetch budget l pending
    else do
      let l := l.mark iri
      match ← fetch iri with
      | .error failure => pure (l, some failure)
      | .ok none => load plus fetch budget l pending
      | .ok (some source) =>
        match budget, Query.ofModule plus iri source with
        | _, .error failure => pure (l, some failure)
        | 0, .ok _ => pure (l, some (.source .tooManyModules))
        | budget + 1, .ok module =>
          load plus fetch budget (l.add iri module) (module.modules ++ pending)
termination_by (budget, pending.length)

/-- Loads everything a query imports; the query's own base is not loaded. -/
def loadAll (plus : Bool) (fetch : Iri → m (Except Failure (Option Source))) (budget : Nat)
    (q : Query) : m (Except Failure (List Module)) := do
  match ← load plus fetch budget (start [q.base]) q.modules with
  | (l, none) => return .ok l.modules
  | (_, some failure) => return .error failure

end Loading

namespace Library

/-- Loads the pending documents from the library. No more modules can come than it has documents. -/
def load (library : Library) (plus : Bool) (l : Loading) (pending : List Iri) :
    Loading × Option Failure :=
  Id.run (l.load plus (fun iri => pure (.ok (library.source? iri))) library.documents.length pending)

/-- Loads everything a query imports from the library. -/
def loadAll (library : Library) (plus : Bool) (q : Query) : Except Failure (List Module) :=
  Id.run (Loading.loadAll plus (fun iri => pure (.ok (library.source? iri)))
    library.documents.length q)

end Library

end TopicQuery
