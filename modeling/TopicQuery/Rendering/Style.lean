import TopicQuery.Element
import TopicQuery.Rendering.Fault

/-!
How query text is written: in which dialect, with or without comments on what
was optimized, and with which prefixes bound.
-/

namespace TopicQuery

/-- A dialect of query text. -/
inductive Dialect
  | legacy
  | plus
  deriving DecidableEq, Repr

/-- What the written form of an element depends on besides the element. -/
structure Style where
  dialect : Dialect
  /-- Comments name the passes that changed an element. -/
  hints : Bool
  /-- The kinds of the prefixes, those bound last in front. -/
  kinds : List (String × ReferenceKind)
  deriving DecidableEq, Repr

namespace Style

/-- Insists on the tolog+ dialect. -/
def requirePlus (s : Style) (construct : PlusConstruct) : Except RenderFault Unit :=
  if s.dialect = .plus then .ok () else .error (.plusOnly construct)

/-- The comment in front of an element that was optimized. -/
def comment (s : Style) (e : Element) : String :=
  if s.hints && !e.optimizedBy.isEmpty then
    "/* optimized by " ++ String.intercalate ", " e.optimizedBy ++ " */ "
  else ""

/-- The kind of a prefix. -/
def kind? (s : Style) (qualifier : String) : Option ReferenceKind :=
  (s.kinds.find? (·.1 == qualifier)).map (·.2)

end Style

namespace Element

/-- The value of an attribute that has to be there for the element to be written. -/
def writtenAttr (e : Element) (attr : String) : Except RenderFault String :=
  match e.attr? attr with
  | some value => .ok value
  | none => .error (.lacksAttribute e.name attr)

/-- The `value` attribute. -/
def writtenValue (e : Element) : Except RenderFault String := e.writtenAttr "value"

end Element

/-- Items with a comma and a blank between them. -/
def commaList (items : List String) : String := String.intercalate ", " items

end TopicQuery
