import TopicQuery.Grammar.Statement

/-!
Documents: directives, then rules, then at most one statement. A text is
recognized as a whole, and the events it is reported as are those up to the
first mistake.
-/

namespace TopicQuery.Grammar

open TopicQuery.Grammar.Parser

/-! ## Directives -/

/-- The versions of the language; every one above the first switches on tolog+. -/
def versions : List String := ["1.0", "1.1", "1.2"]

/-- Counts a directive. -/
def countDirective : Parser Unit := change fun s => { s with directives := s.directives + 1 }

/-- Binds a prefix. Binding it to the same thing again changes nothing. -/
def bind (t : PlacedToken) (binding : Prefixed) : Parser Unit := do
  countDirective
  let s ← state
  match s.bindings.find? (·.identifier == binding.identifier) with
  | some old =>
    if old = binding then return () else failAt t (.rebound old.identifier old.iri old.kind)
  | none => do
    change fun s => { s with bindings := binding :: s.bindings }
    emit (.leaf (.binding binding.identifier binding.iri binding.kind))

/-- The directive `%base`. -/
def baseDirective (t : PlacedToken) : Parser Unit := do
  let s ← state
  if 0 < s.directives then failAt t .baseNotFirst
  else
    let iri ← takeAtom .iri "an IRI after %base"
    countDirective
    emit (.leaf (.base iri))

/-- The number behind `%version`. -/
def versionText (t : PlacedToken) (what : String) : Parser String :=
  match t.token with
  | .atom .decimal value => return value
  | .atom .integer value => return value
  | _ => failExpected t what

/-- The directive `%version`. -/
def versionDirective : Parser Unit := do
  let what := "a version number"
  let t ← take what
  let version ← versionText t what
  if versions.contains version then
    change fun s => { s with plus := s.plus || version != "1.0" }
    countDirective
  else failAt t (.unknownVersion version)

/-- A directive that binds a prefix to an IRI in angle brackets. -/
def bindingDirective (t : PlacedToken) (what : String) (kind : ReferenceKind) : Parser Unit := do
  let identifier ← takeAtom .identifier what
  let iri ← takeAtom .iri "an IRI"
  bind t ⟨identifier, iri, kind⟩

/-- A directive that begins with a percent sign. -/
def percentDirective (t : PlacedToken) (name : String) : Parser Unit :=
  if name = "base" then baseDirective t
  else if name = "version" then versionDirective
  else if name = "prefix" then bindingDirective t "a prefix identifier" .subjectIdentifier
  else if name = "import" then bindingDirective t "a module identifier" .module
  else failAt t (.unknownDirective name)

/-- The kind of prefix that a quoted reference declares. -/
def declaredKind? : AtomKind → Option ReferenceKind
  | .subjectIdentifier => some .subjectIdentifier
  | .subjectLocator => some .subjectLocator
  | .itemIdentifier => some .itemIdentifier
  | _ => none

/-- The directive `using ... for`. -/
def usingDirective : Parser Unit := do
  let t ← take "using"
  let identifier ← takeAtom .identifier "a prefix identifier"
  expectWord .forWord
  let reference ← take "a reference"
  let what := "i\"...\", a\"...\" or s\"...\""
  match reference.token with
  | .atom atomKind iri =>
    match declaredKind? atomKind with
    | some kind => bind t ⟨identifier, iri, kind⟩
    | none => failExpected reference what
  | _ => failExpected reference what

/-- The text of a module location. -/
def locationText (t : PlacedToken) (what : String) : Parser String :=
  match t.token with
  | .atom .string value => return value
  | .atom .iri value => return value
  | _ => failExpected t what

/-- The directive `import ... as`. -/
def importDirective : Parser Unit := do
  let t ← take "import"
  let what := "a module location"
  let location ← take what
  let iri ← locationText location what
  expectWord .asWord
  let identifier ← takeAtom .identifier "a module identifier"
  bind t ⟨identifier, iri, .module⟩

/-- Directives up to the first token that begins none, at most as many as the number. -/
def directives : Nat → Parser Unit
  | 0 => return ()
  | n + 1 => do
    match ← peek with
    | some (.directive name) => do
      let t ← take "a directive"
      percentDirective t name
      directives n
    | some (.keyword .usingWord) => do
      usingDirective
      directives n
    | some (.keyword .importWord) => do
      importDirective
      directives n
    | _ => return ()

/-! ## Rules -/

/-- A parameter of a rule. -/
def parameter : Parser Unit := do
  let t ← take "a rule parameter"
  match t.token with
  | .atom .var name => emit (.leaf (.atom .var name))
  | _ => failExpected t "a variable as rule parameter"

/-- The parameters of a rule behind the opening parenthesis. -/
def parameters : Parser Unit := do
  if ← acceptMark .rparen then return ()
  items parameter
  expectMark .rparen

/-- A rule. -/
def rule : Parser Unit := do
  let name ← takeAtom .identifier "a rule name"
  expectMark .lparen
  within (.rule name) do
    parameters
    expectMark .implies
    within .body clauses
    expectMark .dot

/-- A rule is next: a name with an argument list and `:-` behind it. -/
def atRule : Parser Bool := do
  match ← peek with
  | some (.atom .identifier _) =>
    match ← look (callShape 1) with
    | some shape => return decide (shape.next = some (.symbol .implies))
    | none => return false
  | _ => return false

/-- Rules up to the first token that begins none, at most as many as the number. -/
def rules : Nat → Parser Unit
  | 0 => return ()
  | n + 1 => do
    if ← atRule then
      rule
      rules n

/-- The names of the rules that a text defines, wherever a definition stands. -/
def definedRules : List Token → List String
  | [] => []
  | .atom .identifier name :: rest =>
    match rest with
    | .symbol .lparen :: inside =>
      match inside.dropWhile (· != .symbol .rparen) with
      | _ :: .symbol .implies :: _ => name :: definedRules rest
      | _ => definedRules rest
    | _ => definedRules rest
  | _ :: rest => definedRules rest

/-! ## Documents -/

/-- The statement, if there is one. -/
def optionalStatement : Parser Unit := do
  match ← peek with
  | none => return ()
  | some (.symbol .question) => return ()
  | some _ => statement

/-- The statement, if there is one, and the question mark. -/
def ending : Parser Unit := do
  optionalStatement
  let _ ← acceptMark .question
  match ← take? with
  | some t => failAt t (.unexpected t.token)
  | none => return ()

/-- A whole text. -/
def document : Parser Unit := do
  let s ← state
  within .document do
    directives s.tokens.length
    rules s.tokens.length
    ending

/-- What is known before the first token is taken. -/
def initial (scan : Scan) (plus : Bool) : State where
  tokens := scan.tokens
  fault := scan.fault
  rules := definedRules (scan.tokens.map (·.token))
  plus := plus
  bindings := []
  directives := 0
  line := 1
  column := 1

end TopicQuery.Grammar

namespace TopicQuery

/-- The events of a text, up to the mistake if there is one. -/
structure Parsed where
  events : List Event
  fault : Option ParseFault
  deriving DecidableEq, Repr

/-- Recognizes a text, in tolog+ from the start if `plus`. -/
def parse (text : String) (plus : Bool) : Parsed :=
  let reply := Grammar.document (Grammar.initial (scan text) plus)
  match reply.result with
  | .ok _ => ⟨reply.events, none⟩
  | .error fault => ⟨reply.events, some fault⟩

end TopicQuery
