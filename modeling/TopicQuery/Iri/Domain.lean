import TopicQuery.Iri.Domain.Direction
import TopicQuery.Iri.Domain.Joining
import TopicQuery.Iri.Domain.Reading
import TopicQuery.Iri.Label
import TopicQuery.Text.Composed
import TopicQuery.Text.Utf8

/-!
Domain names in their ASCII form. A name is read as its characters are folded and
composed; each label has to be one that can be told from others, and one that is
already encoded has to be the encoded form of such a label.
-/

namespace TopicQuery.Iri.Domain

/-- The text is in ASCII. -/
def isAscii (cs : List Char) : Bool := cs.all (·.toNat < 0x80)

/-- What a text in a domain is read as, none if one of its characters is refused. -/
def reading? (cs : List Char) : Option (List Char) :=
  if cs.any isRefused then none else some (Text.composed (cs.flatMap folded))

/-- A character that no domain may hold. -/
def isForbidden (c : Char) : Bool :=
  c.toNat ≤ 0x20 || c.toNat == 0x7F || "#/:<>?@[\\]^|%".toList.contains c

/-! ## Labels -/

/-- The greatest length of an encoded label that is decoded. -/
def longestCode : Nat := 2000

/-- The greatest length of a label that is encoded. -/
def longestLabel : Nat := 1000

/-- The characters that an encoded label stands for: not all in ASCII, and read as they are. -/
def decoded? (code : List Char) : Option (List Char) := do
  if longestCode < code.length || !isAscii code then none
  else
    let label ← Label.decode? code
    if isAscii label || reading? label != some label then none else some label

/-- The characters of a label, whether it is encoded or not. -/
def characters? (label : List Char) : Option (List Char) :=
  match Label.encoded? label with
  | some code => decoded? code
  | none => some label

/-- A label that shows its limits: it does not begin with a mark, and its joiners do something. -/
def isSound (label : List Char) : Bool :=
  isAscii label ||
    (label.length ≤ longestLabel && !label.head?.any Text.isMark && joinersStand [] label)

/-! ## Names -/

/-- A domain in lower-case ASCII. -/
def ascii? (bytes : List UInt8) : Option (List Char) := do
  let cs ← (Text.Utf8.decode bytes).toOption
  let domain ← reading? cs
  if domain.any isForbidden then none
  else
    let labels := Text.parts '.' domain
    let shown ← labels.mapM characters?
    if shown.all isSound && areOrdered shown then
      some (List.intercalate ['.'] (labels.map Label.ascii))
    else none

end TopicQuery.Iri.Domain
