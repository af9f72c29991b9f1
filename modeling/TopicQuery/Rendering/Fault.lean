import TopicQuery.Vocabulary

/-!
Why a tree cannot be written as query text.
-/

namespace TopicQuery

/-- A construct that only tolog+ has. -/
inductive PlusConstruct
  | base
  | load
  | drop
  | create
  | comparison
  | marker
  | curie
  deriving DecidableEq, Repr

/-- The name of a construct in messages. -/
def PlusConstruct.text : PlusConstruct → String
  | base => "%base"
  | load => "load"
  | drop => "drop"
  | create => "create"
  | comparison => "infix predicates"
  | marker => "reference markers"
  | curie => "CURIEs"

/-- A reason why a tree cannot be written. -/
inductive RenderFault
  | notDocument (name : String)
  | plusOnly (construct : PlusConstruct)
  | lacksAttribute (element attr : String)
  | badPrefixKind (identifier : String)
  | badReferenceKind (name : QualifiedName)
  | unbound (qualifier : String)
  | missingContent
  | notStatement (name : String)
  | notClause (name : String)
  | notTerm (name : String)
  | missingName (element : String)
  | missingSide (side : String)
  | missingRolePart (part : String)
  | unknownInternal (name : String)
  | badOperator (name : String)
  deriving DecidableEq, Repr

/-- The description of a fault. -/
def RenderFault.message : RenderFault → String
  | notDocument name => "expected <tolog>, found <" ++ name ++ ">"
  | plusOnly construct => construct.text ++ " cannot be written in tolog 1.0"
  | lacksAttribute element attr => "<" ++ element ++ "> lacks the " ++ attr ++ " attribute"
  | badPrefixKind identifier => "unknown prefix kind for " ++ identifier
  | badReferenceKind name => "unknown reference kind for " ++ name.text
  | unbound qualifier => "unbound prefix '" ++ qualifier ++ "'"
  | missingContent => "insert without content"
  | notStatement name => "unexpected <" ++ name ++ ">"
  | notClause name => "<" ++ name ++ "> is not a clause"
  | notTerm name => "<" ++ name ++ "> is not a term"
  | missingName element => "<" ++ element ++ "> without name"
  | missingSide side => "infix predicate without " ++ side ++ " side"
  | missingRolePart part => "role without " ++ part
  | unknownInternal name => "unknown internal predicate " ++ name
  | badOperator name => "unknown infix operator " ++ name

end TopicQuery
