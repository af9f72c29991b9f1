import TopicQuery.Token
import TopicQuery.Token.Pattern
import TopicQuery.Fragment
import TopicQuery.Text.Quoted

/-!
Scanning: a text is cut into tokens from left to right. White space and comments
between tokens are passed over; behind `insert` the text is read as topic map
content up to its end; a question mark ends the query, and what follows it is
not read. The scan stops at the first mistake.
-/

namespace TopicQuery

open Text

/-- A mistake in the form of a token. -/
inductive LexicalFault
  | unterminatedComment
  | unterminatedString
  | badVariable
  | badObjectId
  | badParameter
  | badCurie
  | unexpected (found : Char)
  | noBlankAfterInsert (found : Char)
  | invalidUtf8
  deriving DecidableEq, Repr

/-- The description of a mistake. -/
def LexicalFault.message : LexicalFault → String
  | unterminatedComment => "unterminated comment"
  | unterminatedString => "unterminated string"
  | badVariable => "invalid variable name"
  | badObjectId => "invalid object id"
  | badParameter => "invalid parameter or directive"
  | badCurie => "invalid CURIE"
  | unexpected c => "unexpected character " ++ quotedChar c
  | noBlankAfterInsert c => "expected whitespace after INSERT, found " ++ quotedChar c
  | invalidUtf8 => "invalid UTF-8 sequence"

/-- A token at the front of a text, with the number of characters behind its first one. -/
structure Lexeme where
  token : Token
  extra : Nat
  deriving DecidableEq, Repr

namespace Lexeme

/-- The value of a string behind its opening quote, and the characters up to the closing one. -/
def stringBody : List Char → Option (List Char × Nat)
  | [] => none
  | '"' :: '"' :: cs => (stringBody cs).map fun (value, n) => ('"' :: value, n + 2)
  | '"' :: _ => some ([], 1)
  | c :: cs => (stringBody cs).map fun (value, n) => (c :: value, n + 1)

/-- A character that may stand between `<` and `>` in an IRI. -/
def isIriPart (c : Char) : Bool :=
  !(isBlank c) && !("<>\"\x7b\x7d`\\".toList.contains c)

/-- A name behind its sigil, and its length. -/
def nameBody (isFirst : Char → Bool) : List Char → Option (List Char)
  | [] => none
  | c :: cs => if isFirst c then some (c :: nameRun cs) else none

/-- An IRI in angle brackets, or a comparison. -/
def angle (rest : List Char) : Lexeme :=
  let body := rest.takeWhile isIriPart
  match rest.drop body.length with
  | '>' :: _ =>
    if body.isEmpty then ⟨.symbol .lt, 0⟩ else ⟨.atom .iri (String.ofList body), body.length + 1⟩
  | _ =>
    match rest with
    | '=' :: _ => ⟨.symbol .le, 1⟩
    | _ => ⟨.symbol .lt, 0⟩

/-- A parameter between percent signs, or a directive. -/
def percent (rest : List Char) : Option Lexeme :=
  (nameBody isNameStart rest).map fun name =>
    match rest.drop name.length with
    | '%' :: _ => ⟨.atom .parameter (String.ofList name), name.length + 1⟩
    | _ => ⟨.directive (String.ofList name), name.length⟩

/-- A prefixed name in square brackets. -/
def bracket (rest : List Char) : Option Lexeme := do
  let name ← nameBody isNameStart rest
  match rest.drop name.length with
  | ':' :: rest =>
    let body := rest.takeWhile fun c => c != ']' && !isBlank c
    match rest.drop body.length with
    | ']' :: _ =>
      some ⟨.curie ⟨String.ofList name, String.ofList body⟩, name.length + body.length + 2⟩
    | _ => none
  | _ => none

/-- The kind of reference a letter in front of a quoted IRI announces. -/
def referenceKind? : Char → Option AtomKind
  | 'i' => some .subjectIdentifier
  | 'a' => some .subjectLocator
  | 's' => some .itemIdentifier
  | _ => none

/-- A quoted reference behind its letter. -/
def reference? (c : Char) (rest : List Char) : Option Lexeme := do
  let kind ← referenceKind? c
  match rest with
  | '"' :: rest =>
    let body := rest.takeWhile (· != '"')
    match body, rest.drop body.length with
    | _ :: _, '"' :: _ => some ⟨.atom kind (String.ofList body), body.length + 2⟩
    | _, _ => none
  | _ => none

/-- A prefixed name without brackets. -/
def qname? (c : Char) (rest : List Char) : Option Lexeme :=
  let name := nameRun rest
  match rest.drop name.length with
  | ':' :: rest =>
    let body := nameRun rest
    if body.isEmpty then none
    else some ⟨.qname ⟨String.ofList (c :: name), String.ofList body⟩, name.length + body.length + 1⟩
  | _ => none

/-- A token that begins with a letter or an underscore. -/
def word (c : Char) (rest : List Char) : Lexeme :=
  ((reference? c rest).or (qname? c rest)).getD <|
    let name := nameRun rest
    let text := String.ofList (c :: name)
    match Keyword.ofText? text with
    | some keyword => ⟨.keyword keyword, name.length⟩
    | none => ⟨.atom .identifier text, name.length⟩

/-- A literal of the given kind, if the text begins with its form. -/
def literal? (kind : AtomKind) (pattern : Pattern) (cs : List Char) : Option Lexeme :=
  (pattern cs).map fun n => ⟨.atom kind (String.ofList (cs.take n)), n - 1⟩

/-- A date, a time or a number. -/
def number? (cs : List Char) : Option Lexeme :=
  ((literal? .dateTime .dateTime cs).or (literal? .date .date cs)).or
    ((literal? .decimal .decimal cs).or (literal? .integer .integer cs))

/-- The marks that are recognized by their text alone, the longer ones first. -/
def marks : List Symbol :=
  [.barBar, .hatHat, .ne, .ge, .implies, .lparen, .rparen, .lbrace, .rbrace, .bar, .hat, .eq, .gt,
    .comma, .colon, .dot]

/-- A punctuation mark. -/
def mark? (cs : List Char) : Option Lexeme :=
  (marks.find? fun m => m.text.toList.isPrefixOf cs).map fun m => ⟨.symbol m, m.text.length - 1⟩

/-- The token that begins with a character. -/
def read (c : Char) (rest : List Char) : Except LexicalFault Lexeme :=
  if c = '?' then .ok ⟨.symbol .question, 0⟩
  else if c = '"' then
    match stringBody rest with
    | some (value, n) => .ok ⟨.atom .string (String.ofList value), n⟩
    | none => .error .unterminatedString
  else if c = '<' then .ok (angle rest)
  else if c = '$' then
    match nameBody isNameStart rest with
    | some name => .ok ⟨.atom .var (String.ofList name), name.length⟩
    | none => .error .badVariable
  else if c = '@' then
    match nameBody isWord rest with
    | some name => .ok ⟨.atom .objectId (String.ofList name), name.length⟩
    | none => .error .badObjectId
  else if c = '%' then
    match percent rest with
    | some lexeme => .ok lexeme
    | none => .error .badParameter
  else if c = '[' then
    match bracket rest with
    | some lexeme => .ok lexeme
    | none => .error .badCurie
  else if isNameStart c then .ok (word c rest)
  else if c.isDigit || c == '-' || c == '+' || c == '.' then
    match number? (c :: rest) with
    | some lexeme => .ok lexeme
    | none => if c = '.' then .ok ⟨.symbol .dot, 0⟩ else .error (.unexpected c)
  else
    match mark? (c :: rest) with
    | some lexeme => .ok lexeme
    | none => .error (.unexpected c)

end Lexeme

/-- The length of a comment behind its opening mark, if it is closed. -/
def commentSize : List Char → Option Nat
  | [] => none
  | '*' :: '/' :: _ => some 2
  | _ :: cs => (commentSize cs).map (· + 1)

/-- How many characters of white space and closed comments a text begins with. -/
def ignorableSize (cs : List Char) : Nat :=
  match cs with
  | [] => 0
  | '/' :: '*' :: rest =>
    match commentSize rest with
    | some n => n + 2 + ignorableSize (rest.drop n)
    | none => 0
  | c :: rest => if isBlank c then 1 + ignorableSize rest else 0
termination_by cs.length
decreasing_by all_goals simp; try omega

/-- What the next token is read as. -/
inductive ScanMode
  | query
  | content
  deriving DecidableEq, Repr

/-- Behind `insert` stands topic map content. -/
def ScanMode.behind (token : Token) : ScanMode :=
  if token = .keyword .insert then .content else .query

/-- The tokens of a text, and the mistake that ended the scan, if one did. -/
structure Scan where
  tokens : List PlacedToken
  fault : Option (LexicalFault × Position)
  deriving DecidableEq, Repr

namespace Scan

/-- A scan that ended at the end of the text. -/
def done : Scan := ⟨[], none⟩

/-- A scan that ended with a mistake. -/
def broken (fault : LexicalFault) (place : Position) : Scan := ⟨[], some (fault, place)⟩

/-- One more token in front of a scan. -/
def cons (token : PlacedToken) (scan : Scan) : Scan := ⟨token :: scan.tokens, scan.fault⟩

/-- Scans the text that begins at a place. -/
def ofText (mode : ScanMode) (place : Position) (cs : List Char) : Scan :=
  match mode with
  | .query =>
    let skipped := ignorableSize cs
    let place := place.advance (cs.take skipped)
    match _h : cs.drop skipped with
    | [] => done
    | '/' :: '*' :: _ => broken .unterminatedComment place
    | c :: rest =>
      match Lexeme.read c rest with
      | .error fault => broken fault place
      | .ok lexeme =>
        if lexeme.token = .symbol .question then cons ⟨lexeme.token, place⟩ done
        else
          cons ⟨lexeme.token, place⟩
            (ofText (.behind lexeme.token) (place.advance (c :: rest.take lexeme.extra))
              (rest.drop lexeme.extra))
  | .content =>
    match cs with
    | [] => done
    | c :: rest =>
      if isBlank c then
        let blanks := blankRun rest
        let place := place.advance (c :: blanks)
        let content := rest.drop blanks.length
        let (size, gap) := Fragment.split content
        cons ⟨.fragment (String.ofList (content.take size)), place⟩
          (ofText .query (place.advance (content.take (size + gap))) (content.drop (size + gap)))
      else broken (.noBlankAfterInsert c) place
termination_by cs.length
decreasing_by
  · have := congrArg List.length _h
    simp only [List.length_drop, List.length_cons] at this ⊢
    omega
  · simp only [List.length_drop, List.length_cons]
    omega

end Scan

/-- Scans a whole text. -/
def scan (text : String) : Scan := Scan.ofText .query .start text.toList

end TopicQuery
