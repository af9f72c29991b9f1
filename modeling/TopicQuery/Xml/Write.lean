import TopicQuery.Element
import TopicQuery.Xml.Escape

/-!
Elements as XML text, without any white space between tags. The outermost
element carries the namespace.
-/

namespace TopicQuery.Xml

/-- The namespace of the elements of a query. -/
def namespaceIri : String := "http://psi.semagia.com/tolog-xml/"

/-- One attribute in a tag. -/
def writeAttribute (item : String × String) : String :=
  " " ++ item.1 ++ "=\"" ++ escape item.2 ++ "\""

/-- An element with the given attributes, around what is written inside it. -/
def writeTags (name : String) (attributes : List (String × String)) (inner : Option String) :
    String :=
  let opening := "<" ++ name ++ String.join (attributes.map writeAttribute)
  match inner with
  | none => opening ++ "/>"
  | some inner => opening ++ ">" ++ inner ++ "</" ++ name ++ ">"

mutual

/-- An element with some attributes in front of its own. -/
def writeElement (extra : List (String × String)) : Element → String
  | ⟨name, attributes, text, children⟩ =>
    let inner :=
      match text, children with
      | none, [] => none
      | _, _ => some (((text.map escape).getD "") ++ writeElements children)
    writeTags name (extra ++ attributes) inner

/-- Some elements, one behind the other. -/
def writeElements : List Element → String
  | [] => ""
  | e :: es => writeElement [] e ++ writeElements es

end

/-- A tree as XML text. -/
def write (e : Element) : String := writeElement [("xmlns", namespaceIri)] e

end TopicQuery.Xml
