import TopicQuery.Builtin
import TopicQuery.Decimal
import TopicQuery.Distinct
import TopicQuery.Iri

/-!
Queries with every reference resolved: what a consumer that evaluates queries
works on.
-/

namespace TopicQuery

/-- An operand of a predicate. -/
inductive Term
  | var (name : String)
  | parameter (name : String)
  | identifier (name : String)
  | objectId (name : String)
  | reference (kind : ReferenceKind) (iri : Iri)
  | module (module : Iri) (name : String)
  | string (value : String)
  | integer (value : Decimal)
  | decimal (value : Decimal)
  | date (value : String)
  | dateTime (value : String)
  | literal (value : String) (datatype : Iri)
  deriving DecidableEq, Repr

/-- The name of a term that is a variable. -/
def Term.variableName? : Term → Option String
  | .var name => some name
  | _ => none

/-- A player of an association and the type of its role. -/
structure Role where
  player : Term
  roleType : Term
  deriving DecidableEq, Repr

mutual

/-- A condition of a query. -/
inductive Clause
  | call (name : Term) (arguments : List Term)
  | builtin (name : String) (hints : List Hint) (arguments : List Term)
  | internal (name : String) (hints : List Hint) (removed : List String) (arguments : List Term)
  | comparison (operator : Comparison) (left right : Term)
  | association (name : Term) (roles : List Role)
  | dynamic (name : Term) (arguments : List Term)
  | negation (clauses : List Clause)
  | alternatives (branches : List Branch)

/-- One of several alternatives; `shortCircuit` if it is tried only when those before it fail. -/
inductive Branch
  | mk (shortCircuit : Bool) (clauses : List Clause)

end

/-- Whether a branch is tried only when those before it fail. -/
def Branch.shortCircuit : Branch → Bool
  | .mk shortCircuit _ => shortCircuit

/-- The conditions of a branch. -/
def Branch.clauses : Branch → List Clause
  | .mk _ clauses => clauses

mutual

/-- The variables at the argument positions of a clause, as often as they occur, in order. -/
def Clause.occurrences : Clause → List String
  | .call _ arguments => arguments.filterMap Term.variableName?
  | .builtin _ _ arguments => arguments.filterMap Term.variableName?
  | .internal _ _ _ arguments => arguments.filterMap Term.variableName?
  | .comparison _ left right => [left, right].filterMap Term.variableName?
  | .association _ roles =>
    (roles.flatMap fun r => [r.player, r.roleType]).filterMap Term.variableName?
  | .dynamic _ arguments => arguments.filterMap Term.variableName?
  | .negation clauses => occurrencesIn clauses
  | .alternatives branches => occurrencesInBranches branches

/-- The occurrences in a list of clauses. -/
def occurrencesIn : List Clause → List String
  | [] => []
  | clause :: clauses => clause.occurrences ++ occurrencesIn clauses

/-- The occurrences in a list of branches. -/
def occurrencesInBranches : List Branch → List String
  | [] => []
  | .mk _ clauses :: branches => occurrencesIn clauses ++ occurrencesInBranches branches

end

/-- The variables of a list of clauses, in the order of first occurrence. -/
def variablesOf (clauses : List Clause) : List String := distinct (occurrencesIn clauses)

/-- What a `select` hands out. -/
inductive Projection
  | var (name : String)
  | count (name : String)
  deriving DecidableEq, Repr

/-- A variable to sort by. -/
structure Ordering where
  name : String
  descending : Bool
  deriving DecidableEq, Repr

/-- Order and extent of the result. -/
structure Modifiers where
  orderBy : List Ordering
  limit : Option UInt64
  offset : Option UInt64
  deriving DecidableEq, Repr

/-- Results as they come, all of them. -/
def Modifiers.none : Modifiers := ⟨[], .none, .none⟩

/-- Topic map content of an `insert`, and the variables it mentions. -/
structure Content where
  mentioned : List String
  text : String
  deriving DecidableEq, Repr

/-- What a `delete` removes. -/
inductive Deletion
  | term (term : Term)
  | predicate (clause : Clause)

/-- What a query does. -/
inductive Statement
  | select (projection : List Projection) (clauses : List Clause) (modifiers : Modifiers)
  | insert (content : Content) (clauses : List Clause) (modifiers : Modifiers)
  | update (changes : List Clause) (clauses : List Clause) (modifiers : Modifiers)
  | delete (targets : List Deletion) (clauses : List Clause) (modifiers : Modifiers)
  | merge (first second : Term) (clauses : List Clause) (modifiers : Modifiers)
  | load (source : Iri) (into : List Iri)
  | drop (target : Iri)
  | create (target : Iri)

/-- The conditions of a statement. -/
def Statement.clauses : Statement → List Clause
  | .select _ clauses _ => clauses
  | .insert _ clauses _ => clauses
  | .update _ clauses _ => clauses
  | .delete _ clauses _ => clauses
  | .merge _ _ clauses _ => clauses
  | .load _ _ => []
  | .drop _ => []
  | .create _ => []

/-- A prefix and what it stands for. -/
structure Binding where
  identifier : String
  iri : Iri
  kind : ReferenceKind
  deriving DecidableEq, Repr

/-- A rule: its body holds of its parameters. -/
structure Rule where
  name : String
  parameters : List String
  body : List Clause

/-- The rules of an imported document. -/
structure Module where
  iri : Iri
  rules : List Rule

/-- A query, or a module if it has no statement, with the modules that were loaded for it. -/
structure Query where
  base : Iri
  bindings : List Binding
  rules : List Rule
  statement : Option Statement
  imported : List Module

namespace Query

/-- Directives and rules alone make a module. -/
def isModule (q : Query) : Bool := q.statement.isNone

/-- The first rule with the given name. -/
def rule? (q : Query) (name : String) : Option Rule := q.rules.find? (·.name == name)

/-- A rule of a loaded module. -/
def moduleRule? (q : Query) (module : Iri) (name : String) : Option Rule :=
  (q.imported.find? (·.iri == module)).bind fun m => m.rules.find? (·.name == name)

/-- The documents that a query imports. -/
def modules (q : Query) : List Iri :=
  (q.bindings.filter (·.kind == .module)).map (·.iri)

end Query

end TopicQuery
