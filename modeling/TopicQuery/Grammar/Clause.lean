import TopicQuery.Builtin
import TopicQuery.Grammar.Term

/-!
Clauses: negations, alternatives, comparisons and calls. How a call is reported
depends on how its name is written, on the number and form of its arguments, and
on the rules that the text defines.
-/

namespace TopicQuery.Grammar

open TopicQuery.Grammar.Parser

/-- The argument list of a call: how many arguments, whether they are pairs, and what follows. -/
structure CallShape where
  arity : Nat
  pairs : Bool
  next : Option Token
  deriving DecidableEq, Repr

/--
Reads an argument list up to its closing parenthesis, with the given number of
parentheses open and of commas and pairs seen so far.
-/
def shapeFrom (depth commas : Nat) (pairs : Bool) : List PlacedToken → View (Option CallShape)
  | [] => ⟨none, true⟩
  | t :: rest =>
    match t.token with
    | .symbol .lparen => shapeFrom (depth + 1) commas pairs rest
    | .symbol .rparen =>
      if depth ≤ 1 then ⟨some ⟨commas + 1, pairs, rest.head?.map (·.token)⟩, rest.isEmpty⟩
      else shapeFrom (depth - 1) commas pairs rest
    | .symbol .comma => shapeFrom depth (if depth = 1 then commas + 1 else commas) pairs rest
    | .symbol .colon => shapeFrom depth commas (pairs || depth = 1) rest
    | .symbol .question => ⟨none, false⟩
    | _ => shapeFrom depth commas pairs rest

/-- The argument list behind the given number of tokens, if one begins there and is closed. -/
def callShape (distance : Nat) (tokens : List PlacedToken) : View (Option CallShape) :=
  match tokens.drop distance with
  | [] => ⟨none, true⟩
  | t :: rest =>
    if t.token = .symbol .lparen then
      let seen := shapeFrom 1 0 false rest
      let isEmpty := rest.head?.map (·.token) = some (.symbol .rparen)
      ⟨seen.value.map fun shape => if isEmpty then { shape with arity := 0 } else shape,
        seen.pastEnd⟩
    else ⟨none, false⟩

/-- How the name of a predicate is written. -/
inductive NameForm
  | plain (name : String)
  | module
  | reference
  | dynamic
  deriving DecidableEq, Repr

/-- A name that no marker may stand in front of. -/
def unmarked (t : PlacedToken) (marker : Option ReferenceKind) : Parser Unit :=
  match marker with
  | some _ => failExpected t markable
  | none => return ()

/-- The name of a predicate and the form it is written in. -/
def calleeOf (t : PlacedToken) (marker : Option ReferenceKind) : Parser (Leaf × NameForm) := do
  match t.token with
  | .atom .identifier name => do
    unmarked t marker
    return (.atom .identifier name, .plain name)
  | .qname name => do
    let kind ← kindOf t name.qualifier
    match kind, marker with
    | .module, some _ => failAt t (.markedModule name.qualifier)
    | .module, none => return (.qname .module name, .module)
    | _, some marker => return (.qname marker name, .dynamic)
    | kind, none => return (.qname kind name, .reference)
  | .curie name => return (← curieLeaf t name marker, .dynamic)
  | .atom .iri value => return (markedIri marker value, .dynamic)
  | .atom kind value =>
    if kind = .subjectIdentifier ∨ kind = .subjectLocator ∨ kind = .itemIdentifier then do
      unmarked t marker
      return (.atom kind value, .dynamic)
    else failExpected t "a predicate name"
  | _ => failExpected t "a predicate name"

/-- The arguments of a call in parentheses, or none. -/
def arguments : Parser Unit := do
  expectMark .lparen
  if ← acceptMark .rparen then return ()
  items term
  expectMark .rparen

/-- Reports the name of a predicate. -/
def callee (name : Leaf) : Parser Unit := within .callee (emit (.leaf name))

/-- A call whose arguments are the players of an association with their types. -/
def associationCall (name : Leaf) : Parser Unit :=
  within .association do
    callee name
    expectMark .lparen
    items <| within .pair do
      within .player term
      expectMark .colon
      within .roleType term
    expectMark .rparen

/-- A call of a predicate that is not built in. -/
def plainCall (container : Container) (name : Leaf) : Parser Unit :=
  within container do
    callee name
    arguments

/-- The container of a call without pairs. -/
def callContainer (rules : List String) (form : NameForm) (arity : Nat) : Container :=
  match form with
  | .plain name =>
    if rules.contains name then .call
    else
      match Builtin.find? name with
      | some builtin => .builtin name builtin.hints
      | none => if arity = 2 then .dynamic else .call
  | .module => .call
  | .reference => if arity = 2 then .dynamic else .call
  | .dynamic => .dynamic

/-- The marker in front of a predicate name, if there is one. -/
def calleeMarker : Parser (Option ReferenceKind) := do
  match (← peek).bind markedKind? with
  | none => return none
  | some marker => do
    let t ← take "a marker"
    requirePlus t "reference markers"
    return some marker

/-- A call of a predicate. -/
def predicate : Parser Unit := do
  let marker ← calleeMarker
  let t ← take "a predicate name"
  match ← look (callShape 0) with
  | none => do
    let what := "'(' after the predicate name"
    match ← take? with
    | some found => failExpected found what
    | none => failAtEnd what
  | some shape => do
    let (name, form) ← calleeOf t marker
    if shape.pairs then associationCall name
    else
      let s ← state
      match callContainer s.rules form shape.arity with
      | .builtin name hints => within (.builtin name hints) arguments
      | container => plainCall container name

/-- Two terms with an operator between them. -/
def comparison (operator : Comparison) : Parser Unit :=
  within (.comparison operator) do
    within .left term
    let t ← take "an operator"
    requirePlus t "infix predicates"
    within .right term

/-- Branches up to the one that no bar follows; the number bounds how many more may come. -/
def branchesUpTo (clauses : Parser Unit) (shortCircuit : Bool) : Nat → Parser Unit
  | 0 => within (.branch shortCircuit) clauses
  | n + 1 => do
    within (.branch shortCircuit) clauses
    match ← peek with
    | some (.symbol .bar) => do
      let _ ← take?
      branchesUpTo clauses false n
    | some (.symbol .barBar) => do
      let _ ← take?
      branchesUpTo clauses true n
    | _ => return ()

/-- A clause; `clauses` recognizes the lists inside it. -/
def clause (clauses : Parser Unit) : Parser Unit := do
  match ← peek with
  | none => failAtEnd "a clause"
  | some (.keyword .not) => do
    let _ ← take?
    within .negation do
      expectMark .lparen
      clauses
      expectMark .rparen
  | some (.symbol .lbrace) => do
    let _ ← take?
    within .alternatives do
      let s ← state
      branchesUpTo clauses false s.tokens.length
      expectMark .rbrace
  | some _ =>
    match ← comparisonAhead with
    | some operator => comparison operator
    | none => predicate

/-- A list of clauses that are nested no deeper than the number. -/
def clausesWithin : Nat → Parser Unit
  | 0 => failAtEnd "a clause"
  | depth + 1 => items (clause (clausesWithin depth))

/-- A list of clauses. Every level of nesting takes a token of its own. -/
def clauses : Parser Unit := do
  let s ← state
  clausesWithin (s.tokens.length + 1)

end TopicQuery.Grammar
