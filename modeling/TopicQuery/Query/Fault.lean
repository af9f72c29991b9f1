import TopicQuery.Event
import TopicQuery.Query.Operand

/-!
Why events do not make a query.
-/

namespace TopicQuery

/-- A reason to reject an event or the query it would complete. -/
inductive BuildFault
  -- Order of events.
  | afterEnd
  | nestedStart
  | beforeStart (opened : Tag)
  | unopened (closed : Tag)
  | crossed (closed opened : Tag)
  | outside (operand : Operand)
  | incomplete
  -- References and numbers.
  | unbound (qualifier : String)
  | unresolved (reference : String) (base : Iri) (fault : IriFault)
  | badInteger (text : String) (fault : DecimalFault)
  | badDecimal (text : String) (fault : DecimalFault)
  -- Parts of a container.
  | strayOperand (operand : Operand)
  | secondStatement
  | notOneIri (container : Tag)
  | notOneTerm (container : Tag) (found : Nat)
  | notOneName
  | notVariable (found : Term)
  | notSelectable (found : Term)
  | moduleArgument
  | moduleDeletion
  | missingContent
  | missingSide
  | missingName
  | missingRolePart
  -- Parts a factory insists on.
  | selectWithoutClauses
  | updateWithoutChanges
  | deleteWithoutTargets
  | mergeCount (found : Nat)
  | repeatedParameter (rule parameter : String)
  | unusedParameter (rule parameter : String)
  | unknownInternal (name : String)
  | associationWithoutRoles
  | alternativesWithoutBranches

/-- The description of a fault. -/
def BuildFault.message : BuildFault → String
  | afterEnd => "events after end"
  | nestedStart => "nested start"
  | beforeStart opened => "<" ++ opened.name ++ "> before start"
  | unopened closed => "</" ++ closed.name ++ "> without start"
  | crossed closed opened => "</" ++ closed.name ++ "> closes <" ++ opened.name ++ ">"
  | outside operand => operand.shown ++ " outside of start/end"
  | incomplete => "incomplete query"
  | unbound qualifier => "unbound prefix '" ++ qualifier ++ "'"
  | unresolved reference base fault =>
    "cannot resolve <" ++ reference ++ "> against <" ++ base.text ++ ">: " ++ fault.message
  | badInteger text fault => "invalid integer " ++ text ++ ": " ++ fault.message
  | badDecimal text fault => "invalid decimal " ++ text ++ ": " ++ fault.message
  | strayOperand operand => "unexpected top level operand " ++ operand.shown
  | secondStatement => "more than one statement"
  | notOneIri container => container.name ++ " expects a single IRI"
  | notOneTerm container found =>
    container.name ++ " expects one term, got " ++ Text.numeral found
  | notOneName => "a predicate needs exactly one name"
  | notVariable found => "expected a variable, got " ++ found.shown
  | notSelectable found => "cannot select " ++ found.shown
  | moduleArgument => "a module reference cannot be used as an argument"
  | moduleDeletion => "a module reference cannot be deleted"
  | missingContent => "insert without topic map content"
  | missingSide => "infix predicate needs a left and a right side"
  | missingName => "predicate without name"
  | missingRolePart => "role pair needs a player and a type"
  | selectWithoutClauses => "select without clauses"
  | updateWithoutChanges => "update without changes"
  | deleteWithoutTargets => "delete without targets"
  | mergeCount found => "merge expects two topics, got " ++ Text.numeral found
  | repeatedParameter rule parameter =>
    "rule " ++ rule ++ ": parameter $" ++ parameter ++ " declared twice"
  | unusedParameter rule parameter =>
    "rule " ++ rule ++ ": parameter $" ++ parameter ++ " is not used in the body"
  | unknownInternal name => "unknown internal predicate " ++ name
  | associationWithoutRoles => "association predicate without roles"
  | alternativesWithoutBranches => "or without branches"

end TopicQuery
