import TopicQuery.Element
import TopicQuery.Text.Blank
import TopicQuery.Xml.Markup

/-!
Reading XML text. Tags have to nest by their full names; the prefixes of names,
namespace declarations, comments, processing instructions and the document type
are dropped. Text belongs to `content` elements only, elsewhere there may be
white space.
-/

namespace TopicQuery

/-- Why a text is not the tree of a query. Offsets count bytes. -/
inductive XmlFault
  | malformed (offset : Nat) (fault : Xml.MarkupFault)
  | badAttribute (fault : Xml.EscapeFault)
  | badText (fault : Xml.EscapeFault)
  | textOutside
  | textIn (element : String)
  | secondRoot
  | unclosedRoot
  | noRoot
  deriving DecidableEq, Repr

/-- The description of a fault. -/
def XmlFault.message : XmlFault → String
  | malformed offset fault => "invalid XML at " ++ Text.numeral offset ++ ": " ++ fault.message
  | badAttribute fault => "invalid attribute value: " ++ fault.message
  | badText fault => "invalid text: " ++ fault.message
  | textOutside => "text outside of the root element"
  | textIn element => "unexpected text in <" ++ element ++ ">"
  | secondRoot => "more than one root element"
  | unclosedRoot => "unexpected end of XML"
  | noRoot => "no root element"

namespace Xml

open Text

/-- An attribute that declares a namespace. -/
def isDeclaration (name : List Char) : Bool :=
  name == "xmlns".toList || "xmlns:".toList.isPrefixOf name

/-- An attribute with its value read back. -/
def readAttribute (item : List Char × List Char) : Except XmlFault (String × String) :=
  match unescape item.2 with
  | .ok value => .ok (String.ofList (withoutPrefix item.1), value)
  | .error fault => .error (.badAttribute fault)

/-- The element that a tag opens. -/
def readTag (body : List Char) : Except XmlFault Element := do
  let name := tagName body
  let items := attributesFrom [] (body.drop name.length)
  let attributes ← (items.filter fun item => !isDeclaration item.1).mapM readAttribute
  return ⟨String.ofList (withoutPrefix name), attributes, none, []⟩

/-- A tree that is being read: the open elements with their full names, or else the root. -/
structure Reading where
  opened : List (List Char × Element)
  root : Option Element
  deriving DecidableEq, Repr

namespace Reading

/-- Nothing has been read yet. -/
def empty : Reading := ⟨[], none⟩

/-- Takes in an element that is complete. -/
def append (r : Reading) (e : Element) : Except XmlFault Reading :=
  match r.opened with
  | (name, parent) :: outer =>
    .ok { r with opened := (name, { parent with children := parent.children ++ [e] }) :: outer }
  | [] =>
    match r.root with
    | none => .ok { r with root := some e }
    | some _ => .error .secondRoot

/-- Takes in text between tags. -/
def addText (r : Reading) (text : String) : Except XmlFault Reading :=
  match r.opened with
  | (name, e) :: outer =>
    if e.name == "content" then
      .ok { r with opened := (name, { e with text := some (e.text.getD "" ++ text) }) :: outer }
    else if isBlankText text.toList then .ok r
    else .error (.textIn e.name)
  | [] => if isBlankText text.toList then .ok r else .error .textOutside

/-- Takes in text as it is written between tags. -/
def addRaw (r : Reading) (raw : List Char) : Except XmlFault Reading :=
  match unescape raw with
  | .ok text => r.addText text
  | .error fault => .error (.badText fault)

/-- Takes in a piece of markup that ends at an offset. -/
def addMarkup (r : Reading) (offset : Nat) : Markup → Except XmlFault Reading
  | .opening body => do
    let e ← readTag body
    return { r with opened := (tagName body, e) :: r.opened }
  | .empty body => do r.append (← readTag body)
  | .closing name =>
    match r.opened with
    | [] => .error (.malformed offset (.unmatched (String.ofList name)))
    | (expected, e) :: outer =>
      if name = expected then { r with opened := outer }.append e
      else
        .error (.malformed offset (.mismatched (String.ofList expected) (String.ofList name)))
  | .characters text => r.addText (String.ofList text)
  | .ignored => .ok r

/-- The root at the end of the text. -/
def finish (r : Reading) : Except XmlFault Element :=
  if r.opened ≠ [] then .error .unclosedRoot
  else
    match r.root with
    | some root => .ok root
    | none => .error .noRoot

end Reading

/-- Reads the text that begins at an offset. -/
def readFrom (r : Reading) (offset : Nat) (cs : List Char) : Except XmlFault Element :=
  match cs with
  | [] => r.finish
  | c :: rest =>
    if c = '<' then
      match Markup.read rest with
      | .error (fault, n) => .error (.malformed (offset + 1 + byteSize (rest.take n)) fault)
      | .ok (markup, n) =>
        let offset := offset + 1 + byteSize (rest.take n)
        match r.addMarkup offset markup with
        | .ok r => readFrom r offset (rest.drop n)
        | .error fault => .error fault
    else
      let tail := rest.takeWhile (· != '<')
      match r.addRaw (c :: tail) with
      | .ok r => readFrom r (offset + byteSize (c :: tail)) (rest.drop tail.length)
      | .error fault => .error fault
termination_by cs.length
decreasing_by all_goals simp; try omega

/-- Reads a tree from XML text; a byte order mark in front of it does not count. -/
def read (text : String) : Except XmlFault Element :=
  match text.toList with
  | c :: cs => readFrom .empty 0 (if c.toNat = 0xFEFF then cs else c :: cs)
  | [] => readFrom .empty 0 []

end Xml

end TopicQuery
