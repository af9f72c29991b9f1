import TopicQuery.Json

/-!
Reading of JSON text. A reader takes a value off the front of a text and hands
back what is left.
-/

namespace TopicQuery.Json.Read

/-- White space between the parts of a value. -/
def isGap (c : Char) : Bool := c == ' ' || c == '\t' || c == '\n' || c == '\r'

/-- A text without the white space at its front. -/
def skipGap (cs : List Char) : List Char := cs.dropWhile isGap

/-- The value of a hexadecimal digit. -/
def hexValue? (c : Char) : Option Nat :=
  if c.isDigit then some (c.toNat - 48)
  else if 'a' ≤ c && c ≤ 'f' then some (c.toNat - 87)
  else if 'A' ≤ c && c ≤ 'F' then some (c.toNat - 55)
  else none

/-- Four hexadecimal digits. -/
def codeUnit? : List Char → Option (Nat × List Char)
  | a :: b :: c :: d :: cs => do
    let a ← hexValue? a
    let b ← hexValue? b
    let c ← hexValue? c
    let d ← hexValue? d
    return (((a * 16 + b) * 16 + c) * 16 + d, cs)
  | _ => none

/-- The character of an escape behind `\u`; a pair of surrogates is one character. -/
def unicodeEscape? (cs : List Char) : Option (Char × List Char) := do
  let (n, cs) ← codeUnit? cs
  if 0xD800 ≤ n && n < 0xDC00 then
    match cs with
    | '\\' :: 'u' :: cs =>
      let (m, cs) ← codeUnit? cs
      if 0xDC00 ≤ m && m < 0xE000 then
        return (Char.ofNat (0x10000 + (n - 0xD800) * 0x400 + (m - 0xDC00)), cs)
      else none
    | _ => none
  else if 0xDC00 ≤ n && n < 0xE000 then none
  else return (Char.ofNat n, cs)

/-- The character a one-letter escape stands for. -/
def simpleEscape? : Char → Option Char
  | '"' => some '"'
  | '\\' => some '\\'
  | '/' => some '/'
  | 'b' => some '\x08'
  | 'f' => some '\x0c'
  | 'n' => some '\n'
  | 'r' => some '\r'
  | 't' => some '\t'
  | _ => none

/-- A string behind its opening quote. -/
def stringBody? : Nat → List Char → Option (List Char × List Char)
  | 0, _ => none
  | _ + 1, [] => none
  | fuel + 1, c :: cs =>
    if c = '"' then some ([], cs)
    else if c = '\\' then
      match cs with
      | [] => none
      | 'u' :: cs => do
        let (c, cs) ← unicodeEscape? cs
        let (body, cs) ← stringBody? fuel cs
        return (c :: body, cs)
      | e :: cs => do
        let c ← simpleEscape? e
        let (body, cs) ← stringBody? fuel cs
        return (c :: body, cs)
    else if c.toNat < 0x20 then none
    else do
      let (body, cs) ← stringBody? fuel cs
      return (c :: body, cs)

/-- A string behind its opening quote, as text. -/
def string? (cs : List Char) : Option (String × List Char) :=
  (stringBody? (cs.length + 1) cs).map fun (body, cs) => (String.ofList body, cs)

/-- A fraction or exponent, if its mark is there. -/
def numberTail? (isMark : Char → Bool) (signed : Bool) (cs : List Char) :
    Option (List Char × List Char) :=
  match cs with
  | [] => some ([], [])
  | c :: rest =>
    if isMark c then
      let (sign, rest) :=
        match signed, rest with
        | true, '+' :: rest => (['+'], rest)
        | true, '-' :: rest => (['-'], rest)
        | _, rest => ([], rest)
      let digits := rest.takeWhile Char.isDigit
      if digits.isEmpty then none else some (c :: sign ++ digits, rest.drop digits.length)
    else some ([], c :: rest)

/-- A number, as its text. -/
def number? (cs : List Char) : Option (String × List Char) := do
  let (sign, cs) :=
    match cs with
    | '-' :: cs => (['-'], cs)
    | cs => ([], cs)
  let digits :=
    match cs with
    | '0' :: _ => ['0']
    | cs => cs.takeWhile Char.isDigit
  if digits.isEmpty then none
  else
    let cs := cs.drop digits.length
    if digits == ['0'] && (cs.head?.map Char.isDigit).getD false then none
    else
      let (fraction, cs) ← numberTail? (· == '.') false cs
      let (exponent, cs) ← numberTail? (fun c => c == 'e' || c == 'E') true cs
      return (String.ofList (sign ++ digits ++ fraction ++ exponent), cs)

/-- A fixed word. -/
def word? (word : String) (cs : List Char) : Option (List Char) :=
  if word.toList.isPrefixOf cs then some (cs.drop word.length) else none

mutual

/-- A value, with white space in front of it allowed. -/
def value? : Nat → List Char → Option (Json × List Char)
  | 0, _ => none
  | fuel + 1, cs =>
    match skipGap cs with
    | [] => none
    | c :: rest =>
      if c = '"' then (string? rest).map fun (s, cs) => (.string s, cs)
      else if c = 'n' then (word? "ull" rest).map fun cs => (.null, cs)
      else if c = 't' then (word? "rue" rest).map fun cs => (.bool true, cs)
      else if c = 'f' then (word? "alse" rest).map fun cs => (.bool false, cs)
      else if c = '[' then
        match skipGap rest with
        | ']' :: cs => some (.array [], cs)
        | cs => (items? fuel cs).map fun (items, cs) => (.array items, cs)
      else if c = '{' then
        match skipGap rest with
        | '}' :: cs => some (.object [], cs)
        | cs => (members? fuel cs).map fun (members, cs) => (.object members, cs)
      else (number? (c :: rest)).map fun (text, cs) => (.number text, cs)

/-- One or more items and the closing bracket. -/
def items? : Nat → List Char → Option (List Json × List Char)
  | 0, _ => none
  | fuel + 1, cs => do
    let (item, cs) ← value? fuel cs
    match skipGap cs with
    | ',' :: cs => do
      let (items, cs) ← items? fuel cs
      return (item :: items, cs)
    | ']' :: cs => return ([item], cs)
    | _ => none

/-- One or more members and the closing brace. -/
def members? : Nat → List Char → Option (List (String × Json) × List Char)
  | 0, _ => none
  | fuel + 1, cs => do
    match skipGap cs with
    | '"' :: cs => do
      let (name, cs) ← string? cs
      match skipGap cs with
      | ':' :: cs => do
        let (value, cs) ← value? fuel cs
        match skipGap cs with
        | ',' :: cs => do
          let (members, cs) ← members? fuel cs
          return ((name, value) :: members, cs)
        | '}' :: cs => return ([(name, value)], cs)
        | _ => none
      | _ => none
    | _ => none

end

/-- A value at the front of a text. Every second step of the reader takes a character off. -/
def front? (cs : List Char) : Option (Json × List Char) := value? (2 * cs.length + 2) cs

end TopicQuery.Json.Read

namespace TopicQuery.Json

/-- The value a whole text stands for. -/
def read? (text : String) : Option Json :=
  match Read.front? text.toList with
  | some (value, rest) => if (Read.skipGap rest).isEmpty then some value else none
  | none => none

end TopicQuery.Json
