import TopicQuery.Rendering.Style

/-!
The written form of terms.
-/

namespace TopicQuery

/-- The mark in front of a reference whose kind is not that of its prefix. -/
def ReferenceKind.marker : ReferenceKind → String
  | subjectLocator => "="
  | itemIdentifier => "^"
  | subjectIdentifier => ""
  | module => ""

/-- The letter in front of a quoted reference of a kind. -/
def ReferenceKind.letter : ReferenceKind → String
  | subjectLocator => "a"
  | itemIdentifier => "s"
  | subjectIdentifier => "i"
  | module => "i"

namespace Style

/-- The written form of a prefixed reference, between brackets or not. -/
def prefixed (s : Style) (bracket : Bool) (e : Element) : Except RenderFault String := do
  let name : QualifiedName := ⟨← e.writtenAttr "prefix", ← e.writtenAttr "localpart"⟩
  match ReferenceKind.ofText? (← e.writtenAttr "kind") with
  | none => throw (.badReferenceKind name)
  | some kind =>
    match s.kind? name.qualifier with
    | none => throw (.unbound name.qualifier)
    | some bound =>
      let bound := if bound = .module ∧ bracket = true then .subjectIdentifier else bound
      let mark := if kind = bound then "" else kind.marker
      if mark ≠ "" then s.requirePlus .marker
      return mark ++ (if bracket then "[" ++ name.text ++ "]" else name.text)

/-- The written form of a typed literal. -/
def literal (e : Element) : Except RenderFault String := do
  let datatype ←
    match e.attr? "datatype-iri" with
    | some iri => pure ("<" ++ iri ++ ">")
    | none => do
      let name : QualifiedName :=
        ⟨← e.writtenAttr "datatype-prefix", ← e.writtenAttr "datatype-localpart"⟩
      pure name.text
  return quoted (← e.writtenValue) ++ "^^" ++ datatype

/-- The written form of a one-token term; quotes in a quoted reference are doubled. -/
def atom (kind : AtomKind) (value : String) : String :=
  match kind with
  | .subjectIdentifier => "i" ++ quoted value
  | .subjectLocator => "a" ++ quoted value
  | .itemIdentifier => "s" ++ quoted value
  | kind => kind.write value

/-- The written form of a term. -/
def term (s : Style) (e : Element) : Except RenderFault String :=
  match AtomKind.ofName? e.name with
  | some kind => do return atom kind (← e.writtenValue)
  | none =>
    match e.name with
    | "qname" => s.prefixed false e
    | "curie" => do
      s.requirePlus .curie
      s.prefixed true e
    | "literal" => literal e
    | name => .error (.notTerm name)

/-- The written forms of some terms. -/
def terms (s : Style) (es : List Element) : Except RenderFault (List String) := es.mapM s.term

end Style

end TopicQuery
