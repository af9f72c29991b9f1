import TopicQuery.Element.OfEvents

/-!
The events of a tree: each element tells which event it stands for, and
the events of its children lie between its opening and its closing.
-/

namespace TopicQuery.Element

/-- The value of an attribute that has to be there. -/
def required (e : Element) (attr : String) : Except TreeFault String :=
  match e.attr? attr with
  | some value => .ok value
  | none => .error (.lacksAttribute e.name attr)

/-- The kind of reference an element names. -/
def referenceKind (e : Element) : Except TreeFault ReferenceKind := do
  let text ← e.required "kind"
  match ReferenceKind.ofText? text with
  | some kind => return kind
  | none => throw (.badKind text)

/-- The kinds of construct an element names, none if it does not tell. -/
def hints (e : Element) : Except TreeFault (List Hint) :=
  let text := (e.attr? "hints").getD ""
  match Hint.ofListText? text with
  | some hints => .ok hints
  | none => .error (.badHints text)

/-- The operator an element names. -/
def comparison (e : Element) : Except TreeFault Comparison := do
  let name ← e.required "name"
  match Comparison.ofName? name with
  | some operator => return operator
  | none => throw (.badOperator name)

/-- The number an element holds. -/
def number (e : Element) : Except TreeFault UInt64 := do
  let text ← e.required "value"
  match Text.unsigned? text.toList with
  | some n => return n
  | none => throw (.badNumber e.name text)

/-- The prefixed reference an element holds. -/
def reference (e : Element) : Except TreeFault (ReferenceKind × QualifiedName) := do
  let kind ← e.referenceKind
  let qualifier ← e.required "prefix"
  let localPart ← e.required "localpart"
  return (kind, ⟨qualifier, localPart⟩)

/-- The datatype an element names. -/
def datatype (e : Element) : Except TreeFault Datatype :=
  match e.attr? "datatype-iri" with
  | some iri => .ok (.iri iri)
  | none => do
    let qualifier ← e.required "datatype-prefix"
    let localPart ← e.required "datatype-localpart"
    return .qname ⟨qualifier, localPart⟩

/-- The container with a tag that an element stands for. -/
def container (e : Element) : Tag → Except TreeFault Container
  | .document => .ok .document
  | .select => .ok .select
  | .insert => .ok .insert
  | .update => .ok .update
  | .delete => .ok .delete
  | .merge => .ok .merge
  | .load => .ok .load
  | .into => .ok .into
  | .drop => .ok .drop
  | .create => .ok .create
  | .condition => .ok .condition
  | .ordering => .ok .ordering
  | .pagination => .ok .pagination
  | .rule => do return .rule (← e.required "name")
  | .body => .ok .body
  | .fragment => .ok .fragment
  | .negation => .ok .negation
  | .alternatives => .ok .alternatives
  | .branch => .ok (.branch (e.attr? "short-circuit" == some "true"))
  | .builtin => do
    let name ← e.required "name"
    return .builtin name (← e.hints)
  | .internal => do
    let name ← e.required "name"
    let hints ← e.hints
    return .internal name hints (Text.wordsOf ((e.attr? "removed-variables").getD ""))
  | .comparison => do return .comparison (← e.comparison)
  | .left => .ok .left
  | .right => .ok .right
  | .association => .ok .association
  | .pair => .ok .pair
  | .player => .ok .player
  | .roleType => .ok .roleType
  | .dynamic => .ok .dynamic
  | .call => .ok .call
  | .callee => .ok .callee

/-- The leaf an element stands for that is not a one-token term. -/
def otherLeaf (e : Element) : Except TreeFault Leaf :=
  match e.name with
  | "base" => do return .base (← e.required "iri")
  | "namespace" => do
    let identifier ← e.required "identifier"
    let iri ← e.required "iri"
    return .binding identifier iri (← e.referenceKind)
  | "content" => .ok (.content (e.text.getD ""))
  | "count" => do return .count (← e.required "value")
  | "ascending" => do return .order (← e.required "value") false
  | "descending" => do return .order (← e.required "value") true
  | "limit" => do return .limit (← e.number)
  | "offset" => do return .offset (← e.number)
  | "curie" => do
    let (kind, name) ← e.reference
    return .curie kind name
  | "qname" => do
    let (kind, name) ← e.reference
    return .qname kind name
  | "literal" => do
    let datatype ← e.datatype
    return .literal (← e.required "value") datatype
  | name => .error (.unknownElement name)

/-- The leaf an element stands for. -/
def leaf (e : Element) : Except TreeFault Leaf :=
  match AtomKind.ofName? e.name with
  | some kind => do return .atom kind (← e.required "value")
  | none => e.otherLeaf

/-- Events up to the first element that stands for none. -/
structure Replay where
  events : List Event
  fault : Option TreeFault
  deriving DecidableEq, Repr

namespace Replay

/-- No event at all. -/
def none : Replay := ⟨[], .none⟩

/-- An element that stands for no event. -/
def broken (fault : TreeFault) : Replay := ⟨[], some fault⟩

/-- One replay behind another that went well. -/
def andThen (a b : Replay) : Replay :=
  match a.fault with
  | some _ => a
  | .none => ⟨a.events ++ b.events, b.fault⟩

/-- A replay between the events of a container. -/
def within (c : Container) (inner : Replay) : Replay :=
  match inner.fault with
  | some fault => ⟨.enter c :: inner.events, some fault⟩
  | .none => ⟨.enter c :: inner.events ++ [.leave c.tag], .none⟩

end Replay

mutual

/-- The events of a tree. -/
def replay : Element → Replay
  | ⟨name, attributes, text, children⟩ =>
    let e : Element := ⟨name, attributes, text, children⟩
    match Tag.ofName? name with
    | some tag =>
      match e.container tag with
      | .ok c => (replayAll children).within c
      | .error fault => .broken fault
    | none =>
      match e.leaf with
      | .ok l => if children.isEmpty then ⟨[.leaf l], none⟩ else .broken (.leafWithChildren name)
      | .error fault => .broken fault

/-- The events of some trees, one behind the other. -/
def replayAll : List Element → Replay
  | [] => .none
  | e :: es => (replay e).andThen (replayAll es)

end

end TopicQuery.Element
