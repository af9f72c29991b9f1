import TopicQuery.Query.Factory

/-!
Building queries from events. The builder keeps a frame for every open
container; when a container is left, the operands in its frame are put together
by the factory, and the result is an operand of the container around it.

A failure never reaches further than the innermost frame: an event that opens a
container and a leaf change nothing if they fail, and a closing event that fails
only takes its own frame away.
-/

namespace TopicQuery

/-! ## Operands of a container -/

namespace Operands

/-- The first result of a selection. -/
def first? {α : Type} (select : Operand → Option α) (operands : List Operand) : Option α :=
  operands.findSome? select

/-- The last result of a selection. -/
def last? {α : Type} (select : Operand → Option α) (operands : List Operand) : Option α :=
  (operands.filterMap select).getLast?

/-- The part of a module that a reference names is no argument. -/
def isModule : Term → Bool
  | .module _ _ => true
  | _ => false

/-- The terms among the operands. -/
def terms (operands : List Operand) : Except Failure (List Term) :=
  let terms := operands.filterMap Operand.term?
  if terms.any isModule then .error (.builder .moduleArgument) else .ok terms

/-- The only term of a container. -/
def singleTerm (tag : Tag) (operands : List Operand) : Except Failure Term := do
  match ← terms operands with
  | [t] => pure t
  | ts => throw (.builder (.notOneTerm tag ts.length))

/-- The only term of a container that names a predicate; it may belong to a module. -/
def singleName (operands : List Operand) : Except Failure Term :=
  match operands.filterMap Operand.term? with
  | [t] => .ok t
  | _ => .error (.builder .notOneName)

/-- The IRI that a list of terms consists of. -/
def singleIri (tag : Tag) (terms : List Term) : Except Failure Iri :=
  match terms with
  | [.reference _ iri] => .ok iri
  | _ => .error (.builder (.notOneIri tag))

/-- The name of a term that has to be a variable. -/
def variableName (t : Term) : Except Failure String :=
  match t with
  | .var name => .ok name
  | t => .error (.builder (.notVariable t))

/-- The variables among the operands, where other terms have no place. -/
def variableNames (operands : List Operand) : Except Failure (List String) := do
  (← terms operands).mapM variableName

/-- What an operand adds to a projection. -/
def projected (operand : Operand) : Except Failure (List Projection) :=
  match operand with
  | .term (.var name) => .ok [.var name]
  | .projection p => .ok [p]
  | .term t => .error (.builder (.notSelectable t))
  | _ => .ok []

/-- The projection of a `select`. -/
def projection (operands : List Operand) : Except Failure (List Projection) := do
  return (← operands.mapM projected).flatten

/-- The clauses among the operands. -/
def clauses (operands : List Operand) : List Clause := operands.filterMap Operand.clause?

/-- What an operand adds to the targets of a `delete`. -/
def deleted (operand : Operand) : Except Failure (List Deletion) :=
  match operand with
  | .term t =>
    if isModule t then .error (.builder .moduleDeletion) else .ok [.term t]
  | .clause c => .ok [.predicate c]
  | _ => .ok []

/-- The targets of a `delete`. -/
def deletions (operands : List Operand) : Except Failure (List Deletion) := do
  return (← operands.mapM deleted).flatten

/-- The conditions of a statement. -/
def condition (operands : List Operand) : List Clause :=
  (last? Operand.condition? operands).getD []

/-- Order and extent of the result. -/
def modifiers (operands : List Operand) : Modifiers :=
  let extent := (last? Operand.pagination? operands).getD (none, none)
  ⟨(last? Operand.orderBy? operands).getD [], extent.1, extent.2⟩

/-- Both sides of a comparison. -/
def sides (operands : List Operand) : Except Failure (Term × Term) :=
  match first? Operand.left? operands, first? Operand.right? operands with
  | some left, some right => .ok (left, right)
  | _, _ => .error (.builder .missingSide)

/-- The name of a predicate. -/
def name (operands : List Operand) : Except Failure Term :=
  match first? Operand.name? operands with
  | some name => .ok name
  | none => .error (.builder .missingName)

/-- A player and the type of its role. -/
def role (operands : List Operand) : Except Failure Role :=
  match first? Operand.player? operands, first? Operand.roleType? operands with
  | some player, some roleType => .ok ⟨player, roleType⟩
  | _, _ => .error (.builder .missingRolePart)

/-- The operand a container amounts to, if it is not the whole document. -/
def complete (f : Factory) (container : Container) (operands : List Operand) :
    Except Failure Operand :=
  match container with
  | .document => .error (.builder .incomplete)
  | .select => do
    let projection ← projection operands
    return .statement (← f.select projection (condition operands) (modifiers operands))
  | .insert =>
    match first? Operand.content? operands with
    | none => .error (.builder .missingContent)
    | some content => do
      return .statement (← f.insert content (condition operands) (modifiers operands))
  | .update => do
    return .statement
      (← f.update (clauses operands) (condition operands) (modifiers operands))
  | .delete => do
    let targets ← deletions operands
    return .statement (← f.delete targets (condition operands) (modifiers operands))
  | .merge => do
    let terms ← terms operands
    return .statement (← f.merge terms (condition operands) (modifiers operands))
  | .load => do
    let source ← singleIri .load (← terms operands)
    let into ← ((first? Operand.into? operands).getD []).mapM fun t => singleIri .into [t]
    return .statement (← f.load source into)
  | .drop => do
    return .statement (← f.drop (← singleIri .drop (← terms operands)))
  | .create => do
    return .statement (← f.create (← singleIri .create (← terms operands)))
  | .into => do return .into (← terms operands)
  | .condition => .ok (.condition (clauses operands))
  | .ordering => .ok (.orderBy (operands.filterMap Operand.ordering?))
  | .pagination =>
    .ok (.pagination (first? Operand.limit? operands) (first? Operand.offset? operands))
  | .rule name => do
    let parameters ← variableNames operands
    return .rule (← f.rule name parameters ((first? Operand.body? operands).getD []))
  | .body => .ok (.body (clauses operands))
  | .fragment => do
    let mentioned ← variableNames operands
    return .content ⟨mentioned, String.join (operands.filterMap Operand.text?)⟩
  | .negation => do return .clause (← f.negation (clauses operands))
  | .alternatives => do
    return .clause (← f.alternatives (operands.filterMap Operand.branch?))
  | .branch shortCircuit => .ok (.branch (.mk shortCircuit (clauses operands)))
  | .builtin name hints => do return .clause (← f.builtin name hints (← terms operands))
  | .internal name hints removed => do
    return .clause (← f.internal name hints removed (← terms operands))
  | .comparison operator => do
    let (left, right) ← sides operands
    return .clause (← f.comparison operator left right)
  | .left => do return .left (← singleTerm .left operands)
  | .right => do return .right (← singleTerm .right operands)
  | .association => do
    let name ← name operands
    return .clause (← f.association name (operands.filterMap Operand.role?))
  | .pair => do return .role (← role operands)
  | .player => do return .player (← singleTerm .player operands)
  | .roleType => do return .roleType (← singleTerm .roleType operands)
  | .dynamic => do
    let name ← name operands
    return .clause (← f.dynamic name (← terms operands))
  | .call => do
    let name ← name operands
    return .clause (← f.call name (← terms operands))
  | .callee => do return .name (← singleName operands)

/-- The rules and the statement of a document, behind those already found. -/
def documentFrom (rules : List Rule) (statement : Option Statement) :
    List Operand → Except Failure (List Rule × Option Statement)
  | [] => .ok (rules, statement)
  | .rule rule :: operands => documentFrom (rules ++ [rule]) statement operands
  | .statement found :: operands =>
    match statement with
    | none => documentFrom rules (some found) operands
    | some _ => .error (.builder .secondStatement)
  | operand :: _ => .error (.builder (.strayOperand operand))

/-- The rules and the statement of a document. -/
def document (operands : List Operand) : Except Failure (List Rule × Option Statement) :=
  documentFrom [] none operands

end Operands

/-! ## The builder -/

/-- A container that is open, and the operands it has so far. -/
structure Frame where
  container : Container
  operands : List Operand

/-- A query that is being built. -/
structure Builder where
  /-- The IRI of the document, against which its base is resolved. -/
  document : Iri
  base : Iri
  /-- What prefixes stand for; the binding made last is in front. -/
  prefixes : List Binding
  /-- The prefixes in the order they were bound, up to the end of the document. -/
  bindings : List Binding
  /-- The open containers, the innermost first. -/
  frames : List Frame
  query : Option Query

namespace Builder

/-- A builder that has seen no event. -/
def new (document : Iri) : Builder := ⟨document, document, [], [], [], none⟩

/-- The prefix bound last under an identifier. -/
def binding (b : Builder) (identifier : String) : Except Failure Binding :=
  match b.prefixes.find? (·.identifier == identifier) with
  | some binding => .ok binding
  | none => .error (.builder (.unbound identifier))

/-- The IRI that a prefixed name stands for. -/
def expand (f : Factory) (b : Builder) (name : QualifiedName) : Except Failure Iri := do
  let binding ← b.binding name.qualifier
  f.createIri (binding.iri.text ++ name.localPart)

/-- A reference relative to the base. -/
def reference (f : Factory) (b : Builder) (kind : ReferenceKind) (iri : String) :
    Except Failure Term := do
  return .reference kind (← f.resolveIri b.base iri)

/-- The term a one-token term stands for. -/
def atom (f : Factory) (b : Builder) (kind : AtomKind) (value : String) : Except Failure Term :=
  match kind with
  | .var => .ok (.var value)
  | .parameter => .ok (.parameter value)
  | .identifier => .ok (.identifier value)
  | .objectId => .ok (.objectId value)
  | .subjectIdentifier => b.reference f .subjectIdentifier value
  | .subjectLocator => b.reference f .subjectLocator value
  | .itemIdentifier => b.reference f .itemIdentifier value
  | .iri => b.reference f .subjectIdentifier value
  | .string => .ok (.string value)
  | .integer =>
    match Decimal.read (String.ofList (value.toList.dropWhile (· == '+'))) with
    | .ok n => .ok (.integer n)
    | .error fault => .error (.builder (.badInteger value fault))
  | .decimal =>
    match Decimal.read value with
    | .ok n => .ok (.decimal n)
    | .error fault => .error (.builder (.badDecimal value fault))
  | .date => .ok (.date value)
  | .dateTime => .ok (.dateTime value)

/-- The reference a prefixed name stands for once its prefix is expanded. -/
def qualified (f : Factory) (b : Builder) (kind : ReferenceKind) (name : QualifiedName) :
    Except Failure Term := do
  return .reference kind (← b.expand f name)

/-- The operand a leaf stands for, if it is one. -/
def operand? (f : Factory) (b : Builder) (leaf : Leaf) : Except Failure (Option Operand) :=
  match leaf with
  | .base _ => .ok none
  | .binding _ _ _ => .ok none
  | .content text => .ok (some (.text text))
  | .atom kind value => do return some (.term (← b.atom f kind value))
  | .count name => do return some (.projection (← f.count name))
  | .order name descending => .ok (some (.ordering ⟨name, descending⟩))
  | .limit number => .ok (some (.limit number))
  | .offset number => .ok (some (.offset number))
  | .curie kind name => do return some (.term (← b.qualified f kind name))
  | .qname .module name => do
    let binding ← b.binding name.qualifier
    return some (.term (.module binding.iri name.localPart))
  | .qname kind name => do return some (.term (← b.qualified f kind name))
  | .literal value (.iri iri) => do
    return some (.term (.literal value (← f.resolveIri b.base iri)))
  | .literal value (.qname name) => do
    return some (.term (.literal value (← b.expand f name)))

end Builder

/-! ## Events -/

/-- Work on a builder that may fail; what was done before the failure stays done. -/
abbrev Building := EStateM Failure Builder

namespace Building

/-- Goes on with the result of a step that leaves the builder alone. -/
def demand {α : Type} : Except Failure α → Building α
  | .ok a => pure a
  | .error failure => throw failure

/-- Adds an operand to the innermost container. -/
def push (operand : Operand) : Building Unit := do
  match (← get).frames with
  | [] => throw (.builder (.outside operand))
  | frame :: outer =>
    modify fun b =>
      { b with frames := { frame with operands := frame.operands ++ [operand] } :: outer }

/-- Takes off the innermost container, which is to be closed. -/
def pop (tag : Tag) : Building Frame := do
  match (← get).frames with
  | [] => throw (.builder (.unopened tag))
  | frame :: outer =>
    modify fun b => { b with frames := outer }
    return frame

/-- Opens a container. -/
def enter (container : Container) : Building Unit := do
  let b ← get
  if b.query.isSome then throw (.builder .afterEnd)
  else if container = .document ∧ b.frames ≠ [] then throw (.builder .nestedStart)
  else if container ≠ .document ∧ b.frames = [] then
    throw (.builder (.beforeStart container.tag))
  else modify fun b => { b with frames := ⟨container, []⟩ :: b.frames }

/-- Takes in a leaf. -/
def leaf (f : Factory) (leaf : Leaf) : Building Unit := do
  let b ← get
  match leaf with
  | .base iri =>
    let base ← demand (f.resolveIri b.document iri)
    modify fun b => { b with base }
  | .binding identifier iri kind =>
    let iri ← demand (f.resolveIri b.base iri)
    modify fun b => { b with prefixes := ⟨identifier, iri, kind⟩ :: b.prefixes }
    modify fun b => { b with bindings := b.bindings ++ [⟨identifier, iri, kind⟩] }
  | leaf =>
    match ← demand (b.operand? f leaf) with
    | some operand => push operand
    | none => return

/-- Hands on what a frame that was taken off amounts to: the query, or one more operand. -/
def finish (f : Factory) (tag : Tag) (frame : Frame) : Building Unit := do
  if frame.container.tag ≠ tag then throw (.builder (.crossed tag frame.container.tag))
  else if frame.container = .document then
    let (rules, statement) ← demand (Operands.document frame.operands)
    modify fun b =>
      { b with query := some ⟨b.base, b.bindings, rules, statement, []⟩, bindings := [] }
  else
    let operand ← demand (Operands.complete f frame.container frame.operands)
    push operand

/-- Takes in an event. A closing event takes a frame off even if it does not match it. -/
def event (f : Factory) : Event → Building Unit
  | .enter container => enter container
  | .leave tag => do
    let frame ← pop tag
    finish f tag frame
  | .leaf item => leaf f item

end Building

namespace Builder

/-- Takes in an event: the builder behind it, and why it failed if it did. -/
def step (f : Factory) (b : Builder) (event : Event) : Builder × Option Failure :=
  match (Building.event f event).run b with
  | .ok _ b => (b, none)
  | .error failure b => (b, some failure)

/-- Takes in events up to the first failure. -/
def run (f : Factory) (b : Builder) : List Event → Except Failure Builder
  | [] => .ok b
  | event :: events =>
    match b.step f event with
    | (b, none) => run f b events
    | (_, some failure) => .error failure

/-- The finished query. -/
def result (b : Builder) : Except Failure Query :=
  match b.query with
  | some query => .ok query
  | none => .error (.builder .incomplete)

end Builder

/-- The query of some events, which may end with a failure of their own. -/
def Query.ofEvents (f : Factory) (document : Iri) (events : List Event)
    (failure : Option Failure) : Except Failure Query := do
  let b ← (Builder.new document).run f events
  match failure with
  | some failure => throw failure
  | none => b.result

end TopicQuery
