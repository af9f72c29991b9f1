import TopicQuery.Json
import TopicQuery.Query

/-!
Queries as JSON: every part is an object whose members stand in a fixed order,
and a part that may be of several kinds names its kind first.
-/

namespace TopicQuery

/-- An object that names its kind. -/
def Json.ofKind (kind : String) (members : List (String × Json)) : Json :=
  .object (("kind", .string kind) :: members)

/-- An IRI as a string. -/
def Iri.json (iri : Iri) : Json := .string iri.text

/-- A term. -/
def Term.json : Term → Json
  | var name => valued "variable" (.string name)
  | parameter name => valued "parameter" (.string name)
  | identifier name => valued "identifier" (.string name)
  | objectId name => valued "object-id" (.string name)
  | reference kind iri =>
    valued "reference" (.object [("kind", .string kind.text), ("iri", iri.json)])
  | module iri name => valued "module" (.object [("module", iri.json), ("name", .string name)])
  | string value => valued "string" (.string value)
  | integer value => valued "integer" (.string value.text)
  | decimal value => valued "decimal" (.string value.text)
  | date value => valued "date" (.string value)
  | dateTime value => valued "date-time" (.string value)
  | literal value datatype =>
    valued "literal" (.object [("value", .string value), ("datatype", datatype.json)])
where
  /-- A kind of term and its value. -/
  valued (kind : String) (value : Json) : Json := Json.ofKind kind [("value", value)]

/-- Some terms. -/
def Term.jsonAll (terms : List Term) : Json := .array (terms.map Term.json)

/-- A role. -/
def Role.json (role : Role) : Json :=
  .object [("player", role.player.json), ("type", role.roleType.json)]

mutual

/-- A clause. -/
def Clause.json : Clause → Json
  | .call name arguments =>
    Json.ofKind "predicate" [("name", name.json), ("arguments", Term.jsonAll arguments)]
  | .builtin name hints arguments =>
    Json.ofKind "builtin"
      [("name", .string name), ("hints", .strings (hints.map Hint.text)),
        ("arguments", Term.jsonAll arguments)]
  | .internal name hints removed arguments =>
    Json.ofKind "internal"
      [("name", .string name), ("hints", .strings (hints.map Hint.text)),
        ("removed_variables", .strings removed), ("arguments", Term.jsonAll arguments)]
  | .comparison operator left right =>
    Json.ofKind "infix"
      [("op", .string operator.name), ("left", left.json), ("right", right.json)]
  | .association name roles =>
    Json.ofKind "association" [("name", name.json), ("roles", .array (roles.map Role.json))]
  | .dynamic name arguments =>
    Json.ofKind "dynamic" [("name", name.json), ("arguments", Term.jsonAll arguments)]
  | .negation clauses => Json.ofKind "not" [("clauses", .array (jsonClauses clauses))]
  | .alternatives branches => Json.ofKind "or" [("branches", .array (jsonBranches branches))]

/-- Each of some clauses. -/
def jsonClauses : List Clause → List Json
  | [] => []
  | clause :: clauses => clause.json :: jsonClauses clauses

/-- Each of some branches. -/
def jsonBranches : List Branch → List Json
  | [] => []
  | .mk shortCircuit clauses :: branches =>
    .object [("short_circuit", .bool shortCircuit), ("clauses", .array (jsonClauses clauses))] ::
      jsonBranches branches

end

/-- Some clauses. -/
def Clause.jsonAll (clauses : List Clause) : Json := .array (jsonClauses clauses)

/-- A projection. -/
def Projection.json : Projection → Json
  | .var name => Json.ofKind "variable" [("variable", .string name)]
  | .count name => Json.ofKind "count" [("variable", .string name)]

/-- A sort key. -/
def Ordering.json (ordering : Ordering) : Json :=
  .object [("variable", .string ordering.name), ("descending", .bool ordering.descending)]

/-- Order and extent of the result. -/
def Modifiers.json (m : Modifiers) : Json :=
  let number (n : UInt64) : Json := .nat n.toNat
  .object [("order_by", .array (m.orderBy.map Ordering.json)),
    ("limit", .ofOption number m.limit), ("offset", .ofOption number m.offset)]

/-- Inserted content. -/
def Content.json (content : Content) : Json :=
  .object [("variables", .strings content.mentioned), ("content", .string content.text)]

/-- What a `delete` removes. -/
def Deletion.json : Deletion → Json
  | .term t => .object [("term", t.json)]
  | .predicate clause => .object [("predicate", clause.json)]

/-- A statement. -/
def Statement.json : Statement → Json
  | .select projection clauses modifiers =>
    Json.ofKind "select" (("projection", .array (projection.map Projection.json)) ::
      conditioned clauses modifiers)
  | .insert content clauses modifiers =>
    Json.ofKind "insert" (("fragment", content.json) :: conditioned clauses modifiers)
  | .update changes clauses modifiers =>
    Json.ofKind "update" (("changes", Clause.jsonAll changes) :: conditioned clauses modifiers)
  | .delete targets clauses modifiers =>
    Json.ofKind "delete" (("targets", .array (targets.map Deletion.json)) ::
      conditioned clauses modifiers)
  | .merge first second clauses modifiers =>
    Json.ofKind "merge" (("first", first.json) :: ("second", second.json) ::
      conditioned clauses modifiers)
  | .load source into =>
    Json.ofKind "load" [("source", source.json), ("into", .array (into.map Iri.json))]
  | .drop target => Json.ofKind "drop" [("target", target.json)]
  | .create target => Json.ofKind "create" [("target", target.json)]
where
  /-- The members that statements with conditions share. -/
  conditioned (clauses : List Clause) (modifiers : Modifiers) : List (String × Json) :=
    [("clauses", Clause.jsonAll clauses), ("modifiers", modifiers.json)]

/-- A prefix. -/
def Binding.json (binding : Binding) : Json :=
  .object [("identifier", .string binding.identifier), ("iri", binding.iri.json),
    ("kind", .string binding.kind.text)]

/-- A rule. -/
def Rule.json (rule : Rule) : Json :=
  .object [("name", .string rule.name), ("parameters", .strings rule.parameters),
    ("body", Clause.jsonAll rule.body)]

/-- A module. -/
def Module.json (module : Module) : Json :=
  .object [("iri", module.iri.json), ("rules", .array (module.rules.map Rule.json))]

/-- A query; modules are left out if there are none. -/
def Query.json (q : Query) : Json :=
  .object ([("base", q.base.json), ("prefixes", .array (q.bindings.map Binding.json)),
    ("rules", .array (q.rules.map Rule.json)), ("statement", .ofOption Statement.json q.statement)] ++
    if q.imported.isEmpty then [] else [("imported", .array (q.imported.map Module.json))])

end TopicQuery
