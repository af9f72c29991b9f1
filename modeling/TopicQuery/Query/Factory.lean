import TopicQuery.Builtin
import TopicQuery.Failure
import TopicQuery.Iri.Parse

/-!
Factories: what the parts of a query are made with. A factory may refuse a part
it does not support. The plain factory keeps internal predicates, the built-in
factory puts back the predicates they stand for.
-/

namespace TopicQuery

/-- Reads an absolute IRI. -/
def Iri.create (text : String) : Except Failure Iri :=
  match Iri.parse text with
  | .ok iri => .ok iri
  | .error fault => .error (.source (.badIri text fault))

/-- Resolves a reference against an IRI. -/
def Iri.join (base : Iri) (reference : String) : Except Failure Iri :=
  match Iri.resolve base reference with
  | .ok iri => .ok iri
  | .error fault => .error (.builder (.unresolved reference base fault))

/-- A rule whose parameters are distinct and all occur in its body. -/
def Rule.create (name : String) (parameters : List String) (body : List Clause) :
    Except Failure Rule :=
  match repeated? [] parameters with
  | some p => .error (.builder (.repeatedParameter name p))
  | none =>
    match parameters.find? fun p => p ∉ variablesOf body with
    | some p => .error (.builder (.unusedParameter name p))
    | none => .ok ⟨name, parameters, body⟩
where
  /-- The first member of a list that occurred before. -/
  repeated? (seen : List String) : List String → Option String
    | [] => none
    | p :: rest => if p ∈ seen then some p else repeated? (p :: seen) rest

/-- How the parts of a query are made. -/
structure Factory where
  createIri (text : String) : Except Failure Iri := Iri.create text
  resolveIri (base : Iri) (reference : String) : Except Failure Iri := base.join reference
  select (projection : List Projection) (clauses : List Clause) (modifiers : Modifiers) :
      Except Failure Statement :=
    if clauses.isEmpty then .error (.builder .selectWithoutClauses)
    else .ok (.select projection clauses modifiers)
  insert (content : Content) (clauses : List Clause) (modifiers : Modifiers) :
      Except Failure Statement :=
    .ok (.insert content clauses modifiers)
  update (changes : List Clause) (clauses : List Clause) (modifiers : Modifiers) :
      Except Failure Statement :=
    if changes.isEmpty then .error (.builder .updateWithoutChanges)
    else .ok (.update changes clauses modifiers)
  delete (targets : List Deletion) (clauses : List Clause) (modifiers : Modifiers) :
      Except Failure Statement :=
    if targets.isEmpty then .error (.builder .deleteWithoutTargets)
    else .ok (.delete targets clauses modifiers)
  merge (terms : List Term) (clauses : List Clause) (modifiers : Modifiers) :
      Except Failure Statement :=
    match terms with
    | [first, second] => .ok (.merge first second clauses modifiers)
    | _ => .error (.builder (.mergeCount terms.length))
  load (source : Iri) (into : List Iri) : Except Failure Statement := .ok (.load source into)
  drop (target : Iri) : Except Failure Statement := .ok (.drop target)
  create (target : Iri) : Except Failure Statement := .ok (.create target)
  rule (name : String) (parameters : List String) (body : List Clause) : Except Failure Rule :=
    Rule.create name parameters body
  count (name : String) : Except Failure Projection := .ok (.count name)
  call (name : Term) (arguments : List Term) : Except Failure Clause := .ok (.call name arguments)
  builtin (name : String) (hints : List Hint) (arguments : List Term) : Except Failure Clause :=
    .ok (.builtin name hints arguments)
  internal (name : String) (hints : List Hint) (removed : List String) (arguments : List Term) :
      Except Failure Clause :=
    match Internal.restore? name arguments (removed.map .var) with
    | some (name, arguments) => builtin name hints arguments
    | none => .error (.builder (.unknownInternal name))
  comparison (operator : Comparison) (left right : Term) : Except Failure Clause :=
    .ok (.comparison operator left right)
  association (name : Term) (roles : List Role) : Except Failure Clause :=
    if roles.isEmpty then .error (.builder .associationWithoutRoles)
    else .ok (.association name roles)
  dynamic (name : Term) (arguments : List Term) : Except Failure Clause :=
    .ok (.dynamic name arguments)
  negation (clauses : List Clause) : Except Failure Clause := .ok (.negation clauses)
  alternatives (branches : List Branch) : Except Failure Clause :=
    if branches.isEmpty then .error (.builder .alternativesWithoutBranches)
    else .ok (.alternatives branches)

namespace Factory

/-- Puts back the built-in predicates that internal ones stand for. -/
def restoring : Factory := {}

/-- Keeps internal predicates as they are. -/
def plain : Factory where
  internal name hints removed arguments :=
    match Internal.find? name with
    | some _ => .ok (.internal name hints removed arguments)
    | none => .error (.builder (.unknownInternal name))

end Factory

end TopicQuery
