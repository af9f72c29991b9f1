import TopicQuery.Text.Blank

/-!
The words that every stage of a query shares: kinds of topic map constructs,
kinds of references, comparison operators, prefixed names, and the kinds of
term that are written as one token.
-/

namespace TopicQuery

/-- A kind of topic map construct that a predicate may range over. -/
inductive Hint
  | association
  | role
  | occurrence
  | name
  | variant
  deriving DecidableEq, Repr

namespace Hint

/-- Every kind, once. -/
def all : List Hint := [association, role, occurrence, name, variant]

/-- The written form of a kind. -/
def text : Hint → String
  | association => "association"
  | role => "role"
  | occurrence => "occurrence"
  | name => "name"
  | variant => "variant"

/-- The kind with the given written form. -/
def ofText? (s : String) : Option Hint := all.find? (·.text == s)

/-- A list of kinds with one blank between them. -/
def listText (hints : List Hint) : String := String.intercalate " " (hints.map text)

/-- Reads a list of kinds with any white space between them. -/
def ofListText? (s : String) : Option (List Hint) := (Text.wordsOf s).mapM ofText?

@[simp] theorem ofText?_text (h : Hint) : ofText? h.text = some h := by
  cases h <;> rfl

end Hint

/-- What a prefix or a marked reference points at. -/
inductive ReferenceKind
  | subjectIdentifier
  | subjectLocator
  | itemIdentifier
  | module
  deriving DecidableEq, Repr

namespace ReferenceKind

/-- The written form of a kind. -/
def text : ReferenceKind → String
  | subjectIdentifier => "subject-identifier"
  | subjectLocator => "subject-locator"
  | itemIdentifier => "item-identifier"
  | module => "module"

/-- The kind with the given written form. -/
def ofText? (s : String) : Option ReferenceKind :=
  [subjectIdentifier, subjectLocator, itemIdentifier, module].find? (·.text == s)

@[simp] theorem ofText?_text (k : ReferenceKind) : ofText? k.text = some k := by
  cases k <;> rfl

end ReferenceKind

/-- A comparison operator between two terms. -/
inductive Comparison
  | eq
  | ne
  | lt
  | le
  | gt
  | ge
  deriving DecidableEq, Repr

namespace Comparison

/-- Every operator, once. -/
def all : List Comparison := [eq, ne, lt, le, gt, ge]

/-- The short name of an operator. -/
def name : Comparison → String
  | eq => "eq"
  | ne => "ne"
  | lt => "lt"
  | le => "le"
  | gt => "gt"
  | ge => "ge"

/-- The operator as it stands between its operands. -/
def sign : Comparison → String
  | eq => "="
  | ne => "/="
  | lt => "<"
  | le => "<="
  | gt => ">"
  | ge => ">="

/-- The operator with the given short name. -/
def ofName? (s : String) : Option Comparison := all.find? (·.name == s)

@[simp] theorem ofName?_name (c : Comparison) : ofName? c.name = some c := by
  cases c <;> rfl

end Comparison

/-- A name behind a prefix, as in `prefix:local`. -/
structure QualifiedName where
  qualifier : String
  localPart : String
  deriving DecidableEq, Repr

/-- The written form of a prefixed name. -/
def QualifiedName.text (n : QualifiedName) : String := n.qualifier ++ ":" ++ n.localPart

/-- The datatype of a typed literal. -/
inductive Datatype
  | iri (text : String)
  | qname (name : QualifiedName)
  deriving DecidableEq, Repr

/-- The kinds of term that are one token with one text. -/
inductive AtomKind
  | var
  | parameter
  | identifier
  | objectId
  | subjectIdentifier
  | subjectLocator
  | itemIdentifier
  | iri
  | string
  | integer
  | decimal
  | date
  | dateTime
  deriving DecidableEq, Repr

namespace AtomKind

/-- Every kind, once. -/
def all : List AtomKind :=
  [var, parameter, identifier, objectId, subjectIdentifier, subjectLocator, itemIdentifier,
    iri, string, integer, decimal, date, dateTime]

/-- The name of the element that holds a term of this kind. -/
def name : AtomKind → String
  | var => "variable"
  | parameter => "parameter"
  | identifier => "identifier"
  | objectId => "objectid"
  | subjectIdentifier => "subjectidentifier"
  | subjectLocator => "subjectlocator"
  | itemIdentifier => "itemidentifier"
  | iri => "iri"
  | string => "string"
  | integer => "integer"
  | decimal => "decimal"
  | date => "date"
  | dateTime => "datetime"

/-- The kind with the given element name. -/
def ofName? (s : String) : Option AtomKind := all.find? (·.name == s)

@[simp] theorem ofName?_name (k : AtomKind) : ofName? k.name = some k := by
  cases k <;> rfl

end AtomKind

/-- A string between double quotes, a quote inside it written twice. -/
def quoted (s : String) : String :=
  String.ofList ('"' :: s.toList.flatMap (fun c => if c = '"' then ['"', '"'] else [c]) ++ ['"'])

/-- The written form of a one-token term. -/
def AtomKind.write (kind : AtomKind) (value : String) : String :=
  match kind with
  | var => "$" ++ value
  | parameter => "%" ++ value ++ "%"
  | objectId => "@" ++ value
  | subjectIdentifier => "i\"" ++ value ++ "\""
  | subjectLocator => "a\"" ++ value ++ "\""
  | itemIdentifier => "s\"" ++ value ++ "\""
  | iri => "<" ++ value ++ ">"
  | string => quoted value
  | identifier | integer | decimal | date | dateTime => value

end TopicQuery
