import TopicQuery.Conversion
import TopicQuery.Json.Read
import TopicQuery.Text.Binary64

/-!
Requests to the service. A request is read from the front of its text to the
first mistake, and it matters of which sort the mistake is; what stands behind
the request is not read at all.
-/

namespace TopicQuery

/-- What a request asks for; what it leaves out is taken from the settings. -/
structure Request where
  query : String
  base : Option String
  plus : Option Bool
  optimizers : Option (List String)
  output : Option Output
  hints : Option Bool
  deriving DecidableEq, Repr

/-- The sort of a mistake: no JSON at all, or not what is asked for. -/
inductive RequestFault
  | syntactic
  | wrongData
  deriving DecidableEq, Repr

namespace Request

open Json.Read (skipGap)

/-- A value from the front of a text and what is left of the text. -/
abbrev Front (α : Type) : Type := α × List Char

/-- What is missing is a mistake in the form of the text. -/
def orSyntactic {α : Type} : Option α → Except RequestFault α
  | some a => .ok a
  | none => .error .syntactic

/-- A value of another type than is asked for. -/
def wrongType {α : Type} (cs : List Char) : Except RequestFault α := do
  match cs with
  | 'n' :: rest =>
    let _ ← orSyntactic (Json.Read.word? "ull" rest)
    throw .wrongData
  | 't' :: rest =>
    let _ ← orSyntactic (Json.Read.word? "rue" rest)
    throw .wrongData
  | 'f' :: rest =>
    let _ ← orSyntactic (Json.Read.word? "alse" rest)
    throw .wrongData
  | '"' :: rest =>
    let _ ← orSyntactic (Json.Read.string? rest)
    throw .wrongData
  | '[' :: _ => throw .wrongData
  | '{' :: _ => throw .wrongData
  | cs =>
    let (text, _) ← orSyntactic (Json.Read.number? cs)
    match Text.Binary64.read? text.toList with
    | some (.infinite _) => throw .syntactic
    | _ => throw .wrongData

/-- A string. -/
def string (cs : List Char) : Except RequestFault (Front String) :=
  match skipGap cs with
  | '"' :: rest => orSyntactic (Json.Read.string? rest)
  | cs => wrongType cs

/-- A truth value. -/
def bool (cs : List Char) : Except RequestFault (Front Bool) :=
  match skipGap cs with
  | 't' :: rest => (orSyntactic (Json.Read.word? "rue" rest)).map (true, ·)
  | 'f' :: rest => (orSyntactic (Json.Read.word? "alse" rest)).map (false, ·)
  | cs => wrongType cs

/-- Whether another item follows in a list that closes with the given bracket. -/
def another (close : Char) (isFirst : Bool) (cs : List Char) : Except RequestFault (Front Bool) :=
  match skipGap cs with
  | [] => .error .syntactic
  | c :: rest =>
    if c = close then .ok (false, c :: rest)
    else if isFirst then .ok (true, c :: rest)
    else if c = ',' then
      match skipGap rest with
      | [] => .error .syntactic
      | d :: rest => if d = close then .error .syntactic else .ok (true, d :: rest)
    else .error .syntactic

/-- The closing bracket of a list or an object. -/
def closing (close : Char) (cs : List Char) : Except RequestFault (List Char) :=
  match skipGap cs with
  | c :: rest => if c = close then .ok rest else .error .syntactic
  | [] => .error .syntactic

/-- The strings of a list behind its opening bracket. -/
def stringItems (isFirst : Bool) : Nat → List Char → Except RequestFault (Front (List String))
  | 0, _ => .error .syntactic
  | fuel + 1, cs => do
    let (more, cs) ← another ']' isFirst cs
    if !more then return ([], ← closing ']' cs)
    else
      let (item, cs) ← string cs
      let (items, cs) ← stringItems false fuel cs
      return (item :: items, cs)

/-- A list of strings. -/
def strings (cs : List Char) : Except RequestFault (Front (List String)) :=
  match skipGap cs with
  | '[' :: rest => stringItems true (rest.length + 1) rest
  | cs => wrongType cs

/-- A value or `null`. -/
def optional {α : Type} (read : List Char → Except RequestFault (Front α)) (cs : List Char) :
    Except RequestFault (Front (Option α)) :=
  match skipGap cs with
  | 'n' :: rest => (orSyntactic (Json.Read.word? "ull" rest)).map (none, ·)
  | cs => (read cs).map fun (a, cs) => (some a, cs)

/-- A written form with a known name. -/
def outputNamed (name : String) : Except RequestFault Output :=
  match Output.ofName? name with
  | some output => .ok output
  | none => .error .wrongData

/-- A written form: its name, or an object with that name and no value. -/
def outputValue (cs : List Char) : Except RequestFault (Front Output) := do
  match skipGap cs with
  | '"' :: rest =>
    let (name, cs) ← orSyntactic (Json.Read.string? rest)
    return (← outputNamed name, cs)
  | '{' :: rest =>
    let (name, cs) ← string rest
    let output ← outputNamed name
    let cs ← closing ':' cs
    match skipGap cs with
    | 'n' :: rest =>
      let cs ← orSyntactic (Json.Read.word? "ull" rest)
      return (output, ← closing '}' cs)
    | cs => wrongType cs
  | _ => throw .syntactic

/-! ## Values that are passed over -/

/-- A text behind a string that nobody looks at; its escapes need not stand for characters. -/
def skipString : Nat → List Char → Option (List Char)
  | 0, _ => none
  | _ + 1, [] => none
  | fuel + 1, c :: cs =>
    if c = '"' then some cs
    else if c = '\\' then
      match cs with
      | 'u' :: cs => (Json.Read.codeUnit? cs).bind fun (_, cs) => skipString fuel cs
      | e :: cs => (Json.Read.simpleEscape? e).bind fun _ => skipString fuel cs
      | [] => none
    else if c.toNat < 0x20 then none
    else skipString fuel cs

mutual

/-- A text behind a value that nobody looks at. -/
def skipValue : Nat → List Char → Option (List Char)
  | 0, _ => none
  | fuel + 1, cs =>
    match skipGap cs with
    | [] => none
    | c :: rest =>
      if c = '"' then skipString (rest.length + 1) rest
      else if c = 'n' then Json.Read.word? "ull" rest
      else if c = 't' then Json.Read.word? "rue" rest
      else if c = 'f' then Json.Read.word? "alse" rest
      else if c = '[' then
        match skipGap rest with
        | ']' :: cs => some cs
        | cs => skipItems fuel cs
      else if c = '{' then
        match skipGap rest with
        | '}' :: cs => some cs
        | cs => skipMembers fuel cs
      else (Json.Read.number? (c :: rest)).map (·.2)

/-- A text behind one or more items and the closing bracket. -/
def skipItems : Nat → List Char → Option (List Char)
  | 0, _ => none
  | fuel + 1, cs => do
    match skipGap (← skipValue fuel cs) with
    | ',' :: cs => skipItems fuel cs
    | ']' :: cs => some cs
    | _ => none

/-- A text behind one or more members and the closing brace. -/
def skipMembers : Nat → List Char → Option (List Char)
  | 0, _ => none
  | fuel + 1, cs => do
    match skipGap cs with
    | '"' :: cs =>
      match skipGap (← skipString (cs.length + 1) cs) with
      | ':' :: cs =>
        match skipGap (← skipValue fuel cs) with
        | ',' :: cs => skipMembers fuel cs
        | '}' :: cs => some cs
        | _ => none
      | _ => none
    | _ => none

end

/-! ## Members -/

/-- The members of a request that have been read. -/
structure Draft where
  query : Option String
  base : Option (Option String)
  plus : Option (Option Bool)
  optimizers : Option (Option (List String))
  output : Option (Option Output)
  hints : Option (Option Bool)
  deriving DecidableEq, Repr

namespace Draft

/-- Nothing has been read. -/
def empty : Draft := ⟨none, none, none, none, none, none⟩

/-- The request, if nothing is missing that has to be there. -/
def finish (d : Draft) : Except RequestFault Request :=
  match d.query with
  | none => .error .wrongData
  | some query =>
    .ok ⟨query, d.base.join, d.plus.join, d.optimizers.join, d.output.join, d.hints.join⟩

/-- The members of a request in the order they have in a list. -/
inductive Field
  | query
  | base
  | plus
  | optimizers
  | output
  | hints
  deriving DecidableEq, Repr

/-- The names of the members. -/
def fieldNames : List (String × Field) :=
  [("query", .query), ("base", .base), ("tolog_plus", .plus), ("optimizers", .optimizers),
    ("output", .output), ("hints", .hints)]

/-- The member has been read. -/
def has (d : Draft) : Field → Bool
  | .query => d.query.isSome
  | .base => d.base.isSome
  | .plus => d.plus.isSome
  | .optimizers => d.optimizers.isSome
  | .output => d.output.isSome
  | .hints => d.hints.isSome

/-- Reads the value of a member. -/
def read (d : Draft) (field : Field) (cs : List Char) : Except RequestFault (Front Draft) :=
  match field with
  | .query => (string cs).map fun (v, cs) => ({ d with query := some v }, cs)
  | .base => (optional string cs).map fun (v, cs) => ({ d with base := some v }, cs)
  | .plus => (optional bool cs).map fun (v, cs) => ({ d with plus := some v }, cs)
  | .optimizers => (optional strings cs).map fun (v, cs) => ({ d with optimizers := some v }, cs)
  | .output => (optional outputValue cs).map fun (v, cs) => ({ d with output := some v }, cs)
  | .hints => (optional bool cs).map fun (v, cs) => ({ d with hints := some v }, cs)

end Draft

/-- The members of an object behind its opening brace. -/
def members (isFirst : Bool) (d : Draft) : Nat → List Char → Except RequestFault (Front Draft)
  | 0, _ => .error .syntactic
  | fuel + 1, cs => do
    let (more, cs) ← another '}' isFirst cs
    match more, cs with
    | false, cs => return (d, cs)
    | true, '"' :: cs =>
      let (name, cs) ← orSyntactic (Json.Read.string? cs)
      match (Draft.fieldNames.find? (·.1 == name)).map (·.2) with
      | some field =>
        if d.has field then throw .wrongData
        let (d, cs) ← d.read field (← closing ':' cs)
        members false d fuel cs
      | none =>
        let cs ← closing ':' cs
        let cs ← orSyntactic (skipValue (2 * cs.length + 2) cs)
        members false d fuel cs
    | true, _ => throw .syntactic

/-- The items of a list behind its opening bracket, each the value of one member. -/
def items (isFirst : Bool) (d : Draft) :
    List Draft.Field → List Char → Except RequestFault (Front Draft)
  | [], cs => .ok (d, cs)
  | field :: fields, cs => do
    let (more, cs) ← another ']' isFirst cs
    if !more then return (d, cs)
    else
      let (d, cs) ← d.read field cs
      items false d fields cs

/-- The request at the front of a text. -/
def read (text : String) : Except RequestFault Request := do
  match skipGap text.toList with
  | '{' :: cs =>
    let (d, cs) ← members true .empty (cs.length + 1) cs
    let request ← d.finish
    let _ ← closing '}' cs
    return request
  | '[' :: cs =>
    let (d, cs) ← items true .empty (Draft.fieldNames.map (·.2)) cs
    let request ← d.finish
    let _ ← closing ']' cs
    return request
  | [] => throw .syntactic
  | cs => wrongType cs

end Request

end TopicQuery
