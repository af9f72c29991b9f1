import TopicQuery.Query
import TopicQuery.Text.Quoted

/-!
How the parts of a query are shown in messages: the name of their kind, then
their own parts, in parentheses or, where these have names, in braces.
-/

namespace TopicQuery

namespace Display

/-- Items between square brackets. -/
def list (items : List String) : String := "[" ++ String.intercalate ", " items ++ "]"

/-- A kind and its unnamed parts. -/
def parts (kind : String) (items : List String) : String :=
  kind ++ "(" ++ String.intercalate ", " items ++ ")"

/-- A kind and its named parts. -/
def fields (kind : String) (items : List (String × String)) : String :=
  kind ++ " \x7b " ++ String.intercalate ", " (items.map fun (name, item) => name ++ ": " ++ item) ++
    " \x7d"

/-- A part that may be missing. -/
def option {α : Type} (f : α → String) : Option α → String
  | none => "None"
  | some a => parts "Some" [f a]

/-- A truth value. -/
def bool (b : Bool) : String := if b then "true" else "false"

/-- Strings between square brackets. -/
def strings (items : List String) : String := list (items.map Text.quotedString)

end Display

open Display Text

/-- The name of a kind of reference. -/
def ReferenceKind.shown : ReferenceKind → String
  | subjectIdentifier => "SubjectIdentifier"
  | subjectLocator => "SubjectLocator"
  | itemIdentifier => "ItemIdentifier"
  | module => "Module"

/-- The name of a kind of construct. -/
def Hint.shown : Hint → String
  | association => "Association"
  | role => "Role"
  | occurrence => "Occurrence"
  | name => "Name"
  | variant => "Variant"

/-- The name of an operator. -/
def Comparison.shown : Comparison → String
  | eq => "Eq"
  | ne => "Ne"
  | lt => "Lt"
  | le => "Le"
  | gt => "Gt"
  | ge => "Ge"

/-- An IRI by its written form. -/
def Iri.shown (iri : Iri) : String := parts "Iri" [quotedString iri.text]

/-- A term by its kind and value. -/
def Term.shown : Term → String
  | .var name => parts "Variable" [quotedString name]
  | .parameter name => parts "Parameter" [quotedString name]
  | .identifier name => parts "Identifier" [quotedString name]
  | .objectId name => parts "ObjectId" [quotedString name]
  | .reference kind iri => fields "Reference" [("kind", kind.shown), ("iri", iri.shown)]
  | .module iri name => fields "Module" [("module", iri.shown), ("name", quotedString name)]
  | .string value => parts "String" [quotedString value]
  | .integer value => parts "Integer" [value.text]
  | .decimal value => parts "Decimal" [value.text]
  | .date value => parts "Date" [quotedString value]
  | .dateTime value => parts "DateTime" [quotedString value]
  | .literal value datatype =>
    fields "Literal" [("value", quotedString value), ("datatype", datatype.shown)]

/-- Terms between square brackets. -/
def Term.shownAll (terms : List Term) : String := list (terms.map Term.shown)

/-- A role by its player and type. -/
def Role.shown (role : Role) : String :=
  fields "Role" [("player", role.player.shown), ("role_type", role.roleType.shown)]

mutual

/-- A clause by its kind and parts. -/
def Clause.shown : Clause → String
  | .call name arguments =>
    fields "Predicate" [("name", name.shown), ("arguments", Term.shownAll arguments)]
  | .builtin name hints arguments =>
    fields "Builtin"
      [("name", quotedString name), ("hints", list (hints.map Hint.shown)),
        ("arguments", Term.shownAll arguments)]
  | .internal name hints removed arguments =>
    fields "Internal"
      [("name", quotedString name), ("hints", list (hints.map Hint.shown)),
        ("removed_variables", strings removed), ("arguments", Term.shownAll arguments)]
  | .comparison operator left right =>
    fields "Infix" [("op", operator.shown), ("left", left.shown), ("right", right.shown)]
  | .association name roles =>
    fields "Association" [("name", name.shown), ("roles", list (roles.map Role.shown))]
  | .dynamic name arguments =>
    fields "Dynamic" [("name", name.shown), ("arguments", Term.shownAll arguments)]
  | .negation clauses => fields "Not" [("clauses", list (shownClauses clauses))]
  | .alternatives branches => fields "Or" [("branches", list (shownBranches branches))]

/-- Each of some clauses. -/
def shownClauses : List Clause → List String
  | [] => []
  | clause :: clauses => clause.shown :: shownClauses clauses

/-- A branch by its mark and clauses. -/
def Branch.shown : Branch → String
  | .mk shortCircuit clauses =>
    fields "Branch"
      [("short_circuit", bool shortCircuit), ("clauses", list (shownClauses clauses))]

/-- Each of some branches. -/
def shownBranches : List Branch → List String
  | [] => []
  | branch :: branches => branch.shown :: shownBranches branches

end

/-- Clauses between square brackets. -/
def Clause.shownAll (clauses : List Clause) : String := list (shownClauses clauses)

/-- A projection by its kind and variable. -/
def Projection.shown : Projection → String
  | .var name => parts "Variable" [quotedString name]
  | .count name => parts "Count" [quotedString name]

/-- A sort key by its variable and direction. -/
def Ordering.shown (ordering : Ordering) : String :=
  fields "Ordering"
    [("variable", quotedString ordering.name), ("descending", bool ordering.descending)]

/-- Inserted content by its variables and text. -/
def Content.shown (content : Content) : String :=
  fields "Fragment"
    [("variables", strings content.mentioned), ("content", quotedString content.text)]

/-- A number of results that may be missing. -/
def shownLimit (limit : Option UInt64) : String := option (fun n => numeral n.toNat) limit

end TopicQuery
