import TopicQuery.Event
import TopicQuery.Token.Scan

/-!
Recognizing queries token by token. A recognizer looks at the tokens that are
left, takes some of them, and reports events; what it reported before a mistake
is kept. The rest of the grammar is built from the steps given here.

Tokens behind a mistake in the text do not exist: looking past the last token
that was scanned is an error if the scan ended with one.
-/

namespace TopicQuery

/-- A mistake in the order or the meaning of tokens. -/
inductive GrammarFault
  | expected (what : String) (found : Token)
  | expectedBeforeEnd (what : String)
  | unexpected (found : Token)
  | plusOnly (what : String)
  | baseNotFirst
  | unknownVersion (version : String)
  | unknownDirective (name : String)
  | rebound (identifier iri : String) (kind : ReferenceKind)
  | unbound (qualifier : String)
  | markedModule (qualifier : String)
  | moduleReference (qualifier : String)
  | statementInModule (iri : String)
  deriving DecidableEq, Repr

/-- The description of a mistake. -/
def GrammarFault.message : GrammarFault → String
  | expected what found => "expected " ++ what ++ ", found '" ++ found.text ++ "'"
  | expectedBeforeEnd what => "expected " ++ what ++ ", found end of input"
  | unexpected found => "unexpected '" ++ found.text ++ "'"
  | plusOnly what => what ++ " requires tolog+ (%version 1.1 or later)"
  | baseNotFirst => "%base must be the first directive"
  | unknownVersion version => "unsupported tolog version " ++ version
  | unknownDirective name => "unknown directive %" ++ name
  | rebound identifier iri kind =>
    "prefix '" ++ identifier ++ "' is already bound to <" ++ iri ++ "> (" ++ kind.text ++ ")"
  | unbound qualifier => "unbound prefix '" ++ qualifier ++ "'"
  | markedModule qualifier => "module prefix '" ++ qualifier ++ "' cannot be marked"
  | moduleReference qualifier =>
    "module prefix '" ++ qualifier ++ "' cannot be used as a reference"
  | statementInModule iri => "module <" ++ iri ++ "> contains a query statement"

/-- A mistake in a query text and the line and column it is reported at. -/
inductive ParseFault
  | lexical (fault : LexicalFault) (line column : Nat)
  | grammar (fault : GrammarFault) (line column : Nat)
  deriving DecidableEq, Repr

namespace Grammar

/-- What a prefix was bound to. -/
structure Prefixed where
  identifier : String
  iri : String
  kind : ReferenceKind
  deriving DecidableEq, Repr

/-- What a recognizer knows: the tokens left, and what the text so far has settled. -/
structure State where
  tokens : List PlacedToken
  fault : Option (LexicalFault × Text.Position)
  rules : List String
  plus : Bool
  bindings : List Prefixed
  directives : Nat
  line : Nat
  column : Nat
  deriving DecidableEq, Repr

/-- The events reported by a recognizer, and its value or the mistake that ended it. -/
structure Reply (α : Type) where
  events : List Event
  result : Except ParseFault (α × State)

/-- A recognizer of a part of a query. -/
def Parser (α : Type) : Type := State → Reply α

namespace Parser

/-- Takes nothing and reports nothing. -/
def value {α : Type} (a : α) : Parser α := fun s => ⟨[], .ok (a, s)⟩

/-- One recognizer behind another. -/
def next {α β : Type} (p : Parser α) (f : α → Parser β) : Parser β := fun s =>
  match p s with
  | ⟨events, .error fault⟩ => ⟨events, .error fault⟩
  | ⟨events, .ok (a, s)⟩ =>
    let reply := f a s
    ⟨events ++ reply.events, reply.result⟩

instance : Monad Parser where
  pure := value
  bind := next

/-- Ends with a mistake. -/
def fail {α : Type} (fault : ParseFault) : Parser α := fun _ => ⟨[], .error fault⟩

/-- The current state. -/
def state : Parser State := fun s => ⟨[], .ok (s, s)⟩

/-- Changes the state. -/
def change (f : State → State) : Parser Unit := fun s => ⟨[], .ok ((), f s)⟩

/-- Reports an event. -/
def emit (event : Event) : Parser Unit := fun s => ⟨[event], .ok ((), s)⟩

end Parser

open TopicQuery.Grammar.Parser

/-! ## Tokens -/

/-- What was seen among the tokens left, and whether the view went past the last of them. -/
structure View (α : Type) where
  value : α
  pastEnd : Bool

/-- Looks at the tokens left without taking any. -/
def look {α : Type} (view : List PlacedToken → View α) : Parser α := do
  let s ← state
  let seen := view s.tokens
  match seen.pastEnd, s.fault with
  | true, some (fault, place) => fail (.lexical fault place.line place.column)
  | _, _ => return seen.value

/-- The token at a distance, if there is one. -/
def peekAt (n : Nat) : Parser (Option Token) :=
  look fun tokens => ⟨tokens[n]?.map (·.token), tokens.length ≤ n⟩

/-- The next token, if there is one. -/
def peek : Parser (Option Token) := peekAt 0

/-- Takes the next token, if there is one. -/
def take? : Parser (Option PlacedToken) := do
  let first ← look fun tokens => ⟨tokens.head?, tokens.isEmpty⟩
  match first with
  | none => return none
  | some t => do
    change fun s =>
      { s with tokens := s.tokens.tail, line := t.place.line, column := t.place.column }
    return some t

/-- A mistake at the place of a token. -/
def failAt {α : Type} (t : PlacedToken) (fault : GrammarFault) : Parser α :=
  fail (.grammar fault t.place.line t.place.column)

/-- The text ended too early; reported at the last token taken. -/
def failAtEnd {α : Type} (what : String) : Parser α := do
  let s ← state
  fail (.grammar (.expectedBeforeEnd what) s.line s.column)

/-- Takes a token; `what` says what it is needed for. -/
def take (what : String) : Parser PlacedToken := do
  match ← take? with
  | some t => return t
  | none => failAtEnd what

/-- Another token stands where `what` is needed. -/
def failExpected {α : Type} (t : PlacedToken) (what : String) : Parser α :=
  failAt t (.expected what t.token)

/-- Takes the next token if it is the given one. -/
def accept (token : Token) : Parser Bool := do
  if (← peek) = some token then
    let _ ← take?
    return true
  else return false

/-- Takes the given token. -/
def expect (token : Token) : Parser Unit := do
  let what := "'" ++ token.text ++ "'"
  let t ← take what
  if t.token = token then return () else failExpected t what

/-- Takes the given mark, if it is next. -/
def acceptMark (mark : Symbol) : Parser Bool := accept (.symbol mark)

/-- Takes the given mark. -/
def expectMark (mark : Symbol) : Parser Unit := expect (.symbol mark)

/-- Takes the given word, if it is next. -/
def acceptWord (word : Keyword) : Parser Bool := accept (.keyword word)

/-- Takes the given word. -/
def expectWord (word : Keyword) : Parser Unit := expect (.keyword word)

/-- Takes a one-token term of the given kind and hands out its text. -/
def takeAtom (kind : AtomKind) (what : String) : Parser String := do
  let t ← take what
  match t.token with
  | .atom k value => if k = kind then return value else failExpected t what
  | _ => failExpected t what

/-- Reports a container around what a recognizer reports. -/
def within (container : Container) (inner : Parser Unit) : Parser Unit := do
  emit (.enter container)
  inner
  emit (.leave container.tag)

/-- Items with a comma between them; the number bounds how many more may come. -/
def itemsUpTo (item : Parser Unit) : Nat → Parser Unit
  | 0 => item
  | n + 1 => do
    item
    if ← acceptMark .comma then itemsUpTo item n

/-- One or more items with a comma between them. There are no more commas than tokens. -/
def items (item : Parser Unit) : Parser Unit := do
  let s ← state
  itemsUpTo item s.tokens.length

/-- Insists on the tolog+ dialect. -/
def requirePlus (t : PlacedToken) (what : String) : Parser Unit := do
  let s ← state
  if s.plus then return () else failAt t (.plusOnly what)

/-- What a prefix was bound to. -/
def kindOf (t : PlacedToken) (qualifier : String) : Parser ReferenceKind := do
  let s ← state
  match s.bindings.find? (·.identifier == qualifier) with
  | some binding => return binding.kind
  | none => failAt t (.unbound qualifier)

end Grammar

end TopicQuery
