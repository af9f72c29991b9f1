import TopicQuery.Failure
import TopicQuery.Text.Utf8

/-!
Sources: the text of a document together with the IRI its relative references
are resolved against.
-/

namespace TopicQuery

/-- What is known of a document. Whether it can be read shows when it is. -/
inductive SourceContent
  | text (text : String)
  | bytes (bytes : List UInt8)
  | unreadable (fault : FileFault)
  deriving DecidableEq, Repr

/-- A document and its IRI. -/
structure Source where
  content : SourceContent
  base : Iri
  deriving DecidableEq, Repr

namespace Source

/-- The text of some bytes. A mistake stands where the text before it ends, in characters. -/
def decode (bytes : List UInt8) : Except Failure String :=
  match Text.Utf8.decode bytes with
  | .ok cs => .ok (String.ofList cs)
  | .error valid =>
    .error (.lexical .invalidUtf8 (valid.count '\n' + 1)
      ((valid.reverse.takeWhile (· != '\n')).length + 1))

/-- The text of a document. -/
def read (s : Source) : Except Failure String :=
  match s.content with
  | .text text => .ok text
  | .bytes bytes => decode bytes
  | .unreadable fault => .error (.source (.unreadable fault))

end Source

end TopicQuery
