import TopicQuery.Source

/-!
Libraries: documents held in memory.
-/

namespace TopicQuery

/-- Some documents by their IRIs; of two with the same IRI the one in front counts. -/
structure Library where
  documents : List (Iri × String)
  deriving DecidableEq, Repr

namespace Library

/-- No document at all. -/
def empty : Library := ⟨[]⟩

/-- One document more, which takes the place of any other with its IRI. -/
def insert (library : Library) (iri : Iri) (text : String) : Library :=
  ⟨(iri, text) :: library.documents⟩

/-- The text of the document with an IRI. -/
def find? (library : Library) (iri : Iri) : Option String :=
  (library.documents.find? (·.1 == iri)).map (·.2)

/-- The document with an IRI as a source. -/
def source? (library : Library) (iri : Iri) : Option Source :=
  (library.find? iri).map fun text => ⟨.text text, iri⟩

end Library

end TopicQuery
