import TopicQuery.Toml.Scalar

/-!
Reading of settings documents. A reader takes a piece off the front of a text
and hands back what is left.
-/

namespace TopicQuery.Toml.Read

/-- White space within a line. -/
def isGap (c : Char) : Bool := c == ' ' || c == '\t'

/-- A text without the white space at its front. -/
def skipGap (cs : List Char) : List Char := cs.dropWhile isGap

/-- A control character that must not stand in a text or a comment. -/
def isControl (c : Char) : Bool := (c.toNat < 0x20 && c != '\t') || c.toNat == 0x7F

/-- A text behind the line break it begins with. -/
def newline? (cs : List Char) : Option (List Char) :=
  match cs with
  | '\n' :: rest => some rest
  | '\r' :: '\n' :: rest => some rest
  | _ => none

/-- A text behind the comment it may begin with. -/
def skipComment? (cs : List Char) : Option (List Char) :=
  match cs with
  | '#' :: rest =>
    let rest := rest.dropWhile fun c => !isControl c
    if rest.isEmpty || (newline? rest).isSome then some rest else none
  | _ => some cs

/-- A text behind white space, comments and line breaks. -/
def skipLines? : Nat → List Char → Option (List Char)
  | 0, _ => none
  | fuel + 1, cs => do
    let cs ← skipComment? (skipGap cs)
    match newline? cs with
    | some rest => skipLines? fuel rest
    | none => return cs

/-- Some hexadecimal digits as a character. -/
def codePoint? (size : Nat) (cs : List Char) : Option (Char × List Char) :=
  let digits := cs.take size
  if digits.length = size ∧ digits.all isHexDigit then
    let n := valueIn 16 digits
    if n.isValidChar then some (Char.ofNat n, cs.drop size) else none
  else none

/-- The character of an escape behind its backslash. -/
def escape? (cs : List Char) : Option (Char × List Char) :=
  match cs with
  | 'b' :: rest => some ('\x08', rest)
  | 't' :: rest => some ('\t', rest)
  | 'n' :: rest => some ('\n', rest)
  | 'f' :: rest => some ('\x0c', rest)
  | 'r' :: rest => some ('\r', rest)
  | '"' :: rest => some ('"', rest)
  | '\\' :: rest => some ('\\', rest)
  | 'u' :: rest => codePoint? 4 rest
  | 'U' :: rest => codePoint? 8 rest
  | _ => none

/-- A string of one line behind its opening quote; only double quotes allow escapes. -/
def line? (quote : Char) : Nat → List Char → Option (List Char × List Char)
  | 0, _ => none
  | _ + 1, [] => none
  | fuel + 1, c :: cs =>
    if c = quote then some ([], cs)
    else if isControl c then none
    else if c = '\\' ∧ quote = '"' then do
      let (c, cs) ← escape? cs
      let (body, cs) ← line? quote fuel cs
      return (c :: body, cs)
    else do
      let (body, cs) ← line? quote fuel cs
      return (c :: body, cs)

/-- White space and line breaks. -/
def skipBlank (cs : List Char) : List Char :=
  cs.dropWhile fun c => isGap c || c == '\n' || c == '\r'

/-- A string of several lines behind its opening quotes. -/
def lines? (quote : Char) : Nat → List Char → Option (List Char × List Char)
  | 0, _ => none
  | _ + 1, [] => none
  | fuel + 1, c :: cs =>
    if c = quote then
      let run := (c :: cs).takeWhile (· == quote)
      if 5 < run.length then none
      else if 3 ≤ run.length then some (run.drop 3, (c :: cs).drop run.length)
      else do
        let (body, cs) ← lines? quote fuel cs
        return (c :: body, cs)
    else if c = '\\' ∧ quote = '"' then
      match newline? (skipGap cs) with
      | some rest => lines? quote fuel (skipBlank rest)
      | none => do
        let (c, cs) ← escape? cs
        let (body, cs) ← lines? quote fuel cs
        return (c :: body, cs)
    else if c = '\r' then do
      let rest ← newline? (c :: cs)
      let (body, cs) ← lines? quote fuel rest
      return ('\n' :: body, cs)
    else if isControl c && c != '\n' then none
    else do
      let (body, cs) ← lines? quote fuel cs
      return (c :: body, cs)

/-- A string of one or several lines. -/
def string? (quote : Char) (cs : List Char) : Option (List Char × List Char) :=
  match cs with
  | a :: b :: rest =>
    if a = quote ∧ b = quote then
      lines? quote (rest.length + 1) ((newline? rest).getD rest)
    else line? quote (cs.length + 1) cs
  | _ => line? quote (cs.length + 1) cs

/-! ## Keys -/

/-- A character of a key without quotes. -/
def isBare (c : Char) : Bool := c.isAlphanum || c == '_' || c == '-'

/-- A key without dots. -/
def simpleKey? (cs : List Char) : Option (String × List Char) :=
  match cs with
  | [] => none
  | c :: rest =>
    if c = '"' ∨ c = '\'' then
      (line? c (rest.length + 1) rest).map fun (key, rest) => (String.ofList key, rest)
    else
      let key := cs.takeWhile isBare
      if key.isEmpty then none else some (String.ofList key, cs.drop key.length)

/-- Keys with dots between them. -/
def key? : Nat → List Char → Option (List String × List Char)
  | 0, _ => none
  | fuel + 1, cs => do
    let (key, cs) ← simpleKey? (skipGap cs)
    match skipGap cs with
    | '.' :: rest => do
      let (path, cs) ← key? fuel rest
      return (key :: path, cs)
    | cs => return ([key], cs)

/-! ## Values -/

/-- A character of a word. -/
def isWordPart (c : Char) : Bool := isBare c || c == '+' || c == '.' || c == ':'

/-- A word, or a date and a time with a blank between them. -/
def word? (cs : List Char) : Option (Toml × List Char) :=
  let word := cs.takeWhile isWordPart
  let rest := cs.drop word.length
  let word :=
    match date? word, rest with
    | some (_, []), ' ' :: c :: rest =>
      if c.isDigit then word ++ ' ' :: (c :: rest).takeWhile isWordPart else word
    | _, _ => word
  (scalar? word).map (·, cs.drop word.length)

mutual

/-- A value. -/
def value? : Nat → List Char → Option (Toml × List Char)
  | 0, _ => none
  | fuel + 1, cs =>
    match cs with
    | [] => none
    | c :: rest =>
      if c = '"' ∨ c = '\'' then
        (string? c rest).map fun (s, rest) => (.string (String.ofList s), rest)
      else if c = '[' then (items? fuel rest).map fun (items, rest) => (.array items, rest)
      else if c = '{' then
        match skipGap rest with
        | '}' :: rest => some (.table .braces [], rest)
        | rest => (members? fuel [] rest).map fun (members, rest) => (.table .braces members, rest)
      else word? cs

/-- Items up to the closing bracket; a comma may follow the last one. -/
def items? : Nat → List Char → Option (List Toml × List Char)
  | 0, _ => none
  | fuel + 1, cs => do
    match ← skipLines? (cs.length + 1) cs with
    | ']' :: rest => return ([], rest)
    | cs => do
      let (item, cs) ← value? fuel cs
      match ← skipLines? (cs.length + 1) cs with
      | ',' :: rest => do
        let (items, rest) ← items? fuel rest
        return (item :: items, rest)
      | ']' :: rest => return ([item], rest)
      | _ => none

/-- One or more members behind those read so far, up to the closing brace. -/
def members? : Nat → Members → List Char → Option (Members × List Char)
  | 0, _, _ => none
  | fuel + 1, members, cs => do
    let (key, cs) ← key? (cs.length + 1) cs
    match cs with
    | '=' :: rest => do
      let (value, cs) ← value? fuel (skipGap rest)
      let members ← addDotted value members key
      match skipGap cs with
      | ',' :: rest => members? fuel members rest
      | '}' :: rest => return (members, rest)
      | _ => none
    | _ => none

end

/-! ## Documents -/

/-- The end of a line, behind which the next one begins. -/
def lineEnd? (cs : List Char) : Option (List Char) := do
  let cs ← skipComment? (skipGap cs)
  if cs.isEmpty then return [] else newline? cs

/-- The lines of a document; `path` leads to the table that the last header opened. -/
def document? : Nat → Members → List String → List Char → Option Members
  | 0, _, _, _ => none
  | fuel + 1, members, path, cs => do
    match ← skipLines? (cs.length + 1) cs with
    | [] => return members
    | '[' :: '[' :: rest => do
      let (key, rest) ← key? (rest.length + 1) rest
      match rest with
      | ']' :: ']' :: rest => document? fuel (← openItem members key) key (← lineEnd? rest)
      | _ => none
    | '[' :: rest => do
      let (key, rest) ← key? (rest.length + 1) rest
      match rest with
      | ']' :: rest => document? fuel (← openTable members key) key (← lineEnd? rest)
      | _ => none
    | cs => do
      let (key, rest) ← key? (cs.length + 1) cs
      match rest with
      | '=' :: rest => do
        let (value, rest) ← value? (2 * rest.length + 2) (skipGap rest)
        document? fuel (← addUnder key value members path) path (← lineEnd? rest)
      | _ => none

end TopicQuery.Toml.Read

namespace TopicQuery.Toml

/-- The table that a document is, if it is well formed. -/
def read? (text : String) : Option Members :=
  let cs := text.toList
  let cs := match cs with | c :: rest => if c.toNat = 0xFEFF then rest else cs | [] => cs
  Read.document? (cs.length + 1) [] [] cs

end TopicQuery.Toml
