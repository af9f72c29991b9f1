import TopicQuery.Element
import TopicQuery.Element.Fault

/-!
The tree of a list of events: a container becomes an element around whatever
lies between its two events, a leaf becomes an element without children.
-/

namespace TopicQuery

/-- The attribute for kinds of construct, left out if there are none. -/
def hintAttributes (hints : List Hint) : List (String × String) :=
  if hints.isEmpty then [] else [("hints", Hint.listText hints)]

/-- What the opening of a container tells, as attributes. -/
def Container.attributes : Container → List (String × String)
  | .rule name => [("name", name)]
  | .branch true => [("short-circuit", "true")]
  | .builtin name hints => ("name", name) :: hintAttributes hints
  | .internal name hints removed =>
    ("name", name) :: hintAttributes hints ++ [("removed-variables", String.intercalate " " removed)]
  | .comparison operator => [("name", operator.name)]
  | _ => []

/-- The element of a container that nothing lies in yet. -/
def Container.element (c : Container) : Element := ⟨c.tag.name, c.attributes, none, []⟩

/-- The attributes of a prefixed reference. -/
def referenceAttributes (kind : ReferenceKind) (name : QualifiedName) : List (String × String) :=
  [("kind", kind.text), ("prefix", name.qualifier), ("localpart", name.localPart)]

/-- What a leaf tells, as attributes. -/
def Leaf.attributes : Leaf → List (String × String)
  | .base iri => [("iri", iri)]
  | .binding identifier iri kind =>
    [("identifier", identifier), ("iri", iri), ("kind", kind.text)]
  | .content _ => []
  | .atom _ value => [("value", value)]
  | .count name => [("value", name)]
  | .order name _ => [("value", name)]
  | .limit number => [("value", Text.numeral number.toNat)]
  | .offset number => [("value", Text.numeral number.toNat)]
  | .curie kind name => referenceAttributes kind name
  | .qname kind name => referenceAttributes kind name
  | .literal value (.iri datatype) => [("value", value), ("datatype-iri", datatype)]
  | .literal value (.qname datatype) =>
    [("value", value), ("datatype-prefix", datatype.qualifier),
      ("datatype-localpart", datatype.localPart)]

/-- Topic map content is the text of its element. -/
def Leaf.text? : Leaf → Option String
  | .content text => some text
  | _ => none

/-- The element of a leaf. -/
def Leaf.element (l : Leaf) : Element := ⟨l.name, l.attributes, l.text?, []⟩

namespace Element

/-- The element with one more child behind the others. -/
def addChild (e : Element) (child : Element) : Element :=
  { e with children := e.children ++ [child] }

/-- A tree that is being built: the elements still open, innermost first, or else the root. -/
structure Growth where
  opened : List Element
  root : Option Element
  deriving DecidableEq, Repr

namespace Growth

/-- Nothing has been seen yet. -/
def empty : Growth := ⟨[], none⟩

/-- Takes in an event. A closing event ends the innermost element even if it does not match it. -/
def step (g : Growth) (event : Event) : Growth × Option TreeFault :=
  if g.root.isSome then (g, some (.afterEnd event))
  else
    match event, g.opened with
    | .enter c, opened => ({ g with opened := c.element :: opened }, none)
    | .leaf l, [] => (g, some (.outside l))
    | .leaf l, parent :: outer => ({ g with opened := parent.addChild l.element :: outer }, none)
    | .leave tag, [] => (g, some (.unopened tag))
    | .leave tag, e :: outer =>
      if e.name ≠ tag.name then ({ g with opened := outer }, some (.crossed tag e.name))
      else
        match outer with
        | [] => (⟨[], some e⟩, none)
        | parent :: outer => ({ g with opened := parent.addChild e :: outer }, none)

/-- Takes in events up to the first fault. -/
def run (g : Growth) : List Event → Except TreeFault Growth
  | [] => .ok g
  | event :: events =>
    match g.step event with
    | (g, none) => run g events
    | (_, some fault) => .error fault

/-- The finished tree. -/
def tree (g : Growth) : Except TreeFault Element :=
  match g.root with
  | some root => .ok root
  | none => .error .incomplete

end Growth

/-- The tree of a list of events. -/
def ofEvents (events : List Event) : Except TreeFault Element := do
  let g ← Growth.empty.run events
  g.tree

end Element

end TopicQuery
