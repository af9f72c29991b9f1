import TopicQuery.Text.Quoted
import TopicQuery.Text.Numeral

/-!
JSON values and their two written forms: on one line, and indented by two
blanks a level. Members of an object keep their order, numbers their text.
-/

namespace TopicQuery

/-- A JSON value. -/
inductive Json
  | null
  | bool (value : Bool)
  | number (text : String)
  | string (value : String)
  | array (items : List Json)
  | object (members : List (String × Json))
  deriving Inhabited, Repr

namespace Json

/-- The number of a natural number. -/
def nat (n : Nat) : Json := .number (Text.numeral n)

/-- An array of strings. -/
def strings (items : List String) : Json := .array (items.map .string)

/-- A value that may be missing, written as `null`. -/
def ofOption {α : Type} (f : α → Json) : Option α → Json
  | none => .null
  | some a => f a

/-- The first member with the given name. -/
def member? (name : String) : Json → Option Json
  | .object members => (members.find? (·.1 == name)).map (·.2)
  | _ => none

/-- The text of a string. -/
def string? : Json → Option String
  | .string s => some s
  | _ => none

/-- A truth value. -/
def bool? : Json → Option Bool
  | .bool b => some b
  | _ => none

/-- The items of an array. -/
def array? : Json → Option (List Json)
  | .array items => some items
  | _ => none

/-- The natural number a number stands for. -/
def nat? : Json → Option Nat
  | .number text => Text.number? text.toList
  | _ => none

/-- Two hexadecimal digits, as an escape of a control character ends. -/
def twoHexDigits (n : Nat) : List Char := [Nat.digitChar (n / 16), Nat.digitChar (n % 16)]

/-- One character inside a JSON string. -/
def escaped (c : Char) : List Char :=
  if c = '"' then ['\\', '"']
  else if c = '\\' then ['\\', '\\']
  else if c = '\n' then ['\\', 'n']
  else if c = '\r' then ['\\', 'r']
  else if c = '\t' then ['\\', 't']
  else if c.toNat = 8 then ['\\', 'b']
  else if c.toNat = 12 then ['\\', 'f']
  else if c.toNat < 0x20 then "\\u00".toList ++ twoHexDigits c.toNat
  else [c]

/-- A JSON string. -/
def quote (s : String) : String :=
  String.ofList ('"' :: s.toList.flatMap escaped ++ ['"'])

/-- A line break followed by the indentation of a level. -/
def indent (level : Nat) : String := String.ofList ('\n' :: List.replicate (2 * level) ' ')

mutual

/-- The value on one line. -/
def compact : Json → String
  | .null => "null"
  | .bool true => "true"
  | .bool false => "false"
  | .number text => text
  | .string s => quote s
  | .array items => "[" ++ String.intercalate "," (compactItems items) ++ "]"
  | .object members => "\x7b" ++ String.intercalate "," (compactMembers members) ++ "\x7d"

/-- Each item on one line. -/
def compactItems : List Json → List String
  | [] => []
  | item :: items => compact item :: compactItems items

/-- Each member on one line. -/
def compactMembers : List (String × Json) → List String
  | [] => []
  | (name, value) :: members => (quote name ++ ":" ++ compact value) :: compactMembers members

end

mutual

/-- The value over several lines, its first line unindented. -/
def pretty (level : Nat) : Json → String
  | .null => "null"
  | .bool true => "true"
  | .bool false => "false"
  | .number text => text
  | .string s => quote s
  | .array [] => "[]"
  | .array (item :: items) =>
    "[" ++ String.intercalate "," (prettyItems (level + 1) (item :: items)) ++ indent level ++ "]"
  | .object [] => "\x7b\x7d"
  | .object (m :: members) =>
    "\x7b" ++ String.intercalate "," (prettyMembers (level + 1) (m :: members)) ++
      indent level ++ "\x7d"

/-- Each item on its own lines. -/
def prettyItems (level : Nat) : List Json → List String
  | [] => []
  | item :: items => (indent level ++ pretty level item) :: prettyItems level items

/-- Each member on its own lines. -/
def prettyMembers (level : Nat) : List (String × Json) → List String
  | [] => []
  | (name, value) :: members =>
    (indent level ++ quote name ++ ": " ++ pretty level value) :: prettyMembers level members

end

end Json

end TopicQuery
