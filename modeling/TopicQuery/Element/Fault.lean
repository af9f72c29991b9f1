import TopicQuery.Event

/-!
Why events do not make a tree, and why a tree does not stand for events.
-/

namespace TopicQuery

/-- A reason why trees and events do not match. -/
inductive TreeFault
  -- Events that make no tree.
  | afterEnd (event : Event)
  | outside (leaf : Leaf)
  | unopened (closed : Tag)
  | crossed (closed : Tag) (opened : String)
  | incomplete
  -- Elements that stand for no event.
  | unknownElement (name : String)
  | lacksAttribute (element attr : String)
  | badKind (text : String)
  | badHints (text : String)
  | badNumber (element text : String)
  | badOperator (name : String)
  | leafWithChildren (name : String)
  deriving DecidableEq, Repr

/-- The description of a fault. -/
def TreeFault.message : TreeFault → String
  | afterEnd event => event.text ++ " after end"
  | outside leaf => "<" ++ leaf.name ++ "/> outside of start/end"
  | unopened closed => "</" ++ closed.name ++ "> without start"
  | crossed closed opened => "</" ++ closed.name ++ "> closes <" ++ opened ++ ">"
  | incomplete => "incomplete event stream"
  | unknownElement name => "unknown element <" ++ name ++ ">"
  | lacksAttribute element attr =>
    "<" ++ element ++ "> lacks the " ++ attr ++ " attribute"
  | badKind text => "unknown reference kind " ++ text
  | badHints text => "invalid hints '" ++ text ++ "'"
  | badNumber element text => "<" ++ element ++ "> value " ++ text ++ " is not a number"
  | badOperator name => "unknown infix operator " ++ name
  | leafWithChildren name => "leaf <" ++ name ++ "> has children"

end TopicQuery
