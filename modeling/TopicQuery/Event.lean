import TopicQuery.Vocabulary
import TopicQuery.Text.Numeral

/-!
The events a query is reported as. A container is entered and left, and what
lies between belongs to it; everything else is a leaf.
-/

namespace TopicQuery

/-- What kind of container an event enters or leaves. -/
inductive Tag
  | document
  | select
  | insert
  | update
  | delete
  | merge
  | load
  | into
  | drop
  | create
  | condition
  | ordering
  | pagination
  | rule
  | body
  | fragment
  | negation
  | alternatives
  | branch
  | builtin
  | internal
  | comparison
  | left
  | right
  | association
  | pair
  | player
  | roleType
  | dynamic
  | call
  | callee
  deriving DecidableEq, Repr

namespace Tag

/-- Every tag, once. -/
def all : List Tag :=
  [document, select, insert, update, delete, merge, load, into, drop, create, condition, ordering,
    pagination, rule, body, fragment, negation, alternatives, branch, builtin, internal, comparison,
    left, right, association, pair, player, roleType, dynamic, call, callee]

/-- The name of the element a container is shown as. -/
def name : Tag → String
  | document => "tolog"
  | select => "select"
  | insert => "insert"
  | update => "update"
  | delete => "delete"
  | merge => "merge"
  | load => "load"
  | into => "into"
  | drop => "drop"
  | create => "create"
  | condition => "where"
  | ordering => "orderby"
  | pagination => "pagination"
  | rule => "rule"
  | body => "body"
  | fragment => "fragment"
  | negation => "not"
  | alternatives => "or"
  | branch => "branch"
  | builtin => "builtin-predicate"
  | internal => "internal-predicate"
  | comparison => "infix-predicate"
  | left => "left"
  | right => "right"
  | association => "association-predicate"
  | pair => "pair"
  | player => "player"
  | roleType => "type"
  | dynamic => "dynamic-predicate"
  | call => "predicate"
  | callee => "name"

/-- The tag with the given element name. -/
def ofName? (s : String) : Option Tag := all.find? (·.name == s)

@[simp] theorem ofName?_name (t : Tag) : ofName? t.name = some t := by
  cases t <;> decide +kernel

theorem name_injective {s t : Tag} (h : s.name = t.name) : s = t := by
  have := congrArg ofName? h
  simpa using this

end Tag

/-- A container with what its opening tells about it. -/
inductive Container
  | document
  | select
  | insert
  | update
  | delete
  | merge
  | load
  | into
  | drop
  | create
  | condition
  | ordering
  | pagination
  | rule (name : String)
  | body
  | fragment
  | negation
  | alternatives
  | branch (shortCircuit : Bool)
  | builtin (name : String) (hints : List Hint)
  | internal (name : String) (hints : List Hint) (removed : List String)
  | comparison (operator : Comparison)
  | left
  | right
  | association
  | pair
  | player
  | roleType
  | dynamic
  | call
  | callee
  deriving DecidableEq, Repr

/-- The tag of a container. -/
def Container.tag : Container → Tag
  | document => .document
  | select => .select
  | insert => .insert
  | update => .update
  | delete => .delete
  | merge => .merge
  | load => .load
  | into => .into
  | drop => .drop
  | create => .create
  | condition => .condition
  | ordering => .ordering
  | pagination => .pagination
  | rule _ => .rule
  | body => .body
  | fragment => .fragment
  | negation => .negation
  | alternatives => .alternatives
  | branch _ => .branch
  | builtin _ _ => .builtin
  | internal _ _ _ => .internal
  | comparison _ => .comparison
  | left => .left
  | right => .right
  | association => .association
  | pair => .pair
  | player => .player
  | roleType => .roleType
  | dynamic => .dynamic
  | call => .call
  | callee => .callee

/-- A piece of a query without parts of its own. -/
inductive Leaf
  | base (iri : String)
  | binding (identifier iri : String) (kind : ReferenceKind)
  | content (text : String)
  | atom (kind : AtomKind) (value : String)
  | count (name : String)
  | order (name : String) (descending : Bool)
  | limit (number : UInt64)
  | offset (number : UInt64)
  | curie (kind : ReferenceKind) (name : QualifiedName)
  | qname (kind : ReferenceKind) (name : QualifiedName)
  | literal (value : String) (datatype : Datatype)
  deriving DecidableEq, Repr

/-- The name of the element a leaf is shown as. -/
def Leaf.name : Leaf → String
  | base _ => "base"
  | binding _ _ _ => "namespace"
  | content _ => "content"
  | atom kind _ => kind.name
  | count _ => "count"
  | order _ false => "ascending"
  | order _ true => "descending"
  | limit _ => "limit"
  | offset _ => "offset"
  | curie _ _ => "curie"
  | qname _ _ => "qname"
  | literal _ _ => "literal"

/-- One step through a query. -/
inductive Event
  | enter (container : Container)
  | leave (tag : Tag)
  | leaf (item : Leaf)
  deriving DecidableEq, Repr

namespace Event

/-- The event a query begins with. -/
def start : Event := .enter .document

/-- The event a query ends with. -/
def finish : Event := .leave .document

/-- The event as a tag of an element. -/
def text : Event → String
  | enter c => "<" ++ c.tag.name ++ ">"
  | leave t => "</" ++ t.name ++ ">"
  | leaf l => "<" ++ l.name ++ "/>"

/-- The element that an event begins. -/
def begun? : Event → Option String
  | enter c => some c.tag.name
  | leave _ => none
  | leaf l => some l.name

/-- How many elements of a name the events begin. -/
def count (name : String) (events : List Event) : Nat :=
  events.countP fun e => e.begun? == some name

end Event

end TopicQuery
