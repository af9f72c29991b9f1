import TopicQuery.Text.Binary64

/-!
Settings documents: tables of values by key, and the rules by which headers and
dotted keys add to a table without ever defining anything twice.
-/

namespace TopicQuery

/-- What brought a table about, which decides what may still be added to it. -/
inductive TableOrigin
  /-- It was only passed through by the header of an inner table. -/
  | passed
  /-- It was brought about by a dotted key. -/
  | dotted
  /-- It was defined by a header. -/
  | header
  /-- It was written in braces. -/
  | braces
  deriving DecidableEq, Repr

/-- A value of a settings document. -/
inductive Toml
  | string (value : String)
  | integer (value : Int)
  | float (value : Text.Binary64)
  | bool (value : Bool)
  | time (text : String)
  | array (items : List Toml)
  | tables (items : List (List (String × Toml)))
  | table (origin : TableOrigin) (members : List (String × Toml))
  deriving Repr, Inhabited

namespace Toml

/-- The members of a table. -/
abbrev Members : Type := List (String × Toml)

/-- The value of a key. -/
def get? (key : String) (members : Members) : Option Toml :=
  (members.find? (·.1 == key)).map (·.2)

/-- The members with a key given a new value. -/
def set (key : String) (value : Toml) : Members → Members
  | [] => [(key, value)]
  | (k, v) :: rest => if k == key then (k, value) :: rest else (k, v) :: set key value rest

/-- Adds a value under a dotted key. -/
def addDotted (value : Toml) (members : Members) : List String → Option Members
  | [] => none
  | [key] => if (get? key members).isSome then none else some (members ++ [(key, value)])
  | key :: path =>
    match get? key members with
    | none => (addDotted value [] path).map fun inner => members ++ [(key, .table .dotted inner)]
    | some (.table origin inner) =>
      if origin = .dotted ∨ origin = .passed then
        (addDotted value inner path).map fun inner => set key (.table origin inner) members
      else none
    | some _ => none

/-- Opens the table of a header. -/
def openTable (members : Members) : List String → Option Members
  | [] => none
  | [key] =>
    match get? key members with
    | none => some (members ++ [(key, .table .header [])])
    | some (.table .passed inner) => some (set key (.table .header inner) members)
    | some _ => none
  | key :: path =>
    match get? key members with
    | none => (openTable [] path).map fun inner => members ++ [(key, .table .passed inner)]
    | some (.table origin inner) =>
      if origin = .braces then none
      else (openTable inner path).map fun inner => set key (.table origin inner) members
    | some (.tables items) =>
      match items.reverse with
      | [] => none
      | last :: before =>
        (openTable last path).map fun last => set key (.tables (last :: before).reverse) members
    | some _ => none

/-- Opens one more table in the list of tables of a header. -/
def openItem (members : Members) : List String → Option Members
  | [] => none
  | [key] =>
    match get? key members with
    | none => some (members ++ [(key, .tables [[]])])
    | some (.tables items) => some (set key (.tables (items ++ [[]])) members)
    | some _ => none
  | key :: path =>
    match get? key members with
    | none => (openItem [] path).map fun inner => members ++ [(key, .table .passed inner)]
    | some (.table origin inner) =>
      if origin = .braces then none
      else (openItem inner path).map fun inner => set key (.table origin inner) members
    | some (.tables items) =>
      match items.reverse with
      | [] => none
      | last :: before =>
        (openItem last path).map fun last => set key (.tables (last :: before).reverse) members
    | some _ => none

/-- Adds a value under a dotted key to the table that a header opened. -/
def addUnder (key : List String) (value : Toml) (members : Members) : List String → Option Members
  | [] => addDotted value members key
  | k :: path =>
    match get? k members with
    | some (.table origin inner) =>
      (addUnder key value inner path).map fun inner => set k (.table origin inner) members
    | some (.tables items) =>
      match items.reverse with
      | [] => none
      | last :: before =>
        (addUnder key value last path).map fun last =>
          set k (.tables (last :: before).reverse) members
    | _ => none

end Toml

end TopicQuery
