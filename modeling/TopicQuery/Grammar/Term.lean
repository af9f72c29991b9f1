import TopicQuery.Grammar.Basic

/-!
Terms: one-token terms, typed literals, and prefixed names with or without a
marker in front. In tolog+ the marker `=` makes a reference a subject locator,
and `^` an item identifier.
-/

namespace TopicQuery.Grammar

open TopicQuery.Grammar.Parser

/-- What a marker makes of the reference behind it. -/
def markedKind? : Token → Option ReferenceKind
  | .symbol .eq => some .subjectLocator
  | .symbol .hat => some .itemIdentifier
  | _ => none

/-- An IRI in angle brackets behind a marker, or without one. -/
def markedIri (marker : Option ReferenceKind) (value : String) : Leaf :=
  match marker with
  | some .subjectLocator => .atom .subjectLocator value
  | some .itemIdentifier => .atom .itemIdentifier value
  | _ => .atom .iri value

/-- What is said of a token that cannot stand behind a marker. -/
def markable : String := "a CURIE, QName or IRI after the marker"

/-- A prefixed name in brackets; a module prefix counts as one of subject identifiers. -/
def curieLeaf (t : PlacedToken) (name : QualifiedName) (marker : Option ReferenceKind) :
    Parser Leaf := do
  requirePlus t "CURIEs"
  let kind ← kindOf t name.qualifier
  let kind := if kind = .module then .subjectIdentifier else kind
  return .curie (marker.getD kind) name

/-- A prefixed name as a reference; the prefix of a module is refused. -/
def qnameLeaf (t : PlacedToken) (name : QualifiedName) (marker : Option ReferenceKind) :
    Parser Leaf := do
  let kind ← kindOf t name.qualifier
  if kind = .module then failAt t (.moduleReference name.qualifier)
  else return .qname (marker.getD kind) name

/-- The datatype behind `^^`. -/
def datatype : Parser Datatype := do
  let t ← take "a datatype"
  match t.token with
  | .atom .iri value => return .iri value
  | .qname name => do
    let _ ← kindOf t name.qualifier
    return .qname name
  | _ => failExpected t "a datatype IRI or QName"

/-- The reference behind a marker. -/
def marked (marker : ReferenceKind) : Parser Leaf := do
  let t ← take "a reference after the marker"
  match t.token with
  | .atom .iri value => return markedIri (some marker) value
  | .qname name => qnameLeaf t name (some marker)
  | .curie name => curieLeaf t name (some marker)
  | _ => failExpected t markable

/-- A term that begins with the given token. -/
def termLeaf (t : PlacedToken) : Parser Leaf := do
  match t.token with
  | .atom .string value =>
    if ← acceptMark .hatHat then return .literal value (← datatype)
    else return .atom .string value
  | .atom kind value => return .atom kind value
  | .qname name => qnameLeaf t name none
  | .curie name => curieLeaf t name none
  | token =>
    match markedKind? token with
    | some marker => do
      requirePlus t "reference markers"
      marked marker
    | none => failExpected t "a term"

/-- Takes a term and reports it. -/
def term : Parser Unit := do
  let t ← take "a term"
  emit (.leaf (← termLeaf t))

/-- Takes an IRI or a prefixed name and reports it. -/
def iriTerm : Parser Unit := do
  let t ← take "an IRI"
  match t.token with
  | .atom .iri value => emit (.leaf (.atom .iri value))
  | .qname name => emit (.leaf (← qnameLeaf t name none))
  | _ => failExpected t "an IRI"

/-- How many tokens the term at the front takes, if its first tokens can begin one. -/
def termSize : List PlacedToken → View (Option Nat)
  | [] => ⟨none, true⟩
  | t :: rest =>
    match t.token with
    | .atom .string _ =>
      match rest with
      | [] => ⟨some 1, true⟩
      | u :: _ => ⟨some (if u.token = .symbol .hatHat then 3 else 1), false⟩
    | .atom _ _ => ⟨some 1, false⟩
    | .qname _ => ⟨some 1, false⟩
    | .curie _ => ⟨some 1, false⟩
    | token =>
      if (markedKind? token).isSome then
        let inner := termSize rest
        ⟨inner.value.map (· + 1), inner.pastEnd⟩
      else ⟨none, false⟩

/-- The comparison operator behind the term at the front, if there is one. -/
def comparisonAhead : Parser (Option Comparison) := do
  match ← look termSize with
  | none => return none
  | some size =>
    match ← peekAt size with
    | some (.symbol mark) => return mark.comparison?
    | _ => return none

end TopicQuery.Grammar
