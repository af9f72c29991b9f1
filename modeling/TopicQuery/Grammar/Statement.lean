import TopicQuery.Grammar.Clause

/-!
Statements: what a query selects or changes, the condition under which it does
so, and the order and extent of the result.
-/

namespace TopicQuery.Grammar

open TopicQuery.Grammar.Parser

/-- An unsigned number of 64 bits. -/
def unsigned (what : String) : Parser UInt64 := do
  let t ← take what
  match t.token with
  | .atom .integer value =>
    match (Text.number? (value.toList.dropWhile (· == '+'))).bind Text.word64? with
    | some n => return n
    | none => failExpected t what
  | _ => failExpected t what

/-- A variable to sort by. -/
def sortKey : Parser Unit := do
  let name ← takeAtom .var "a variable"
  if ← acceptWord .desc then emit (.leaf (.order name true))
  else
    let _ ← acceptWord .asc
    emit (.leaf (.order name false))

/-- A number behind the given word, if that word is next. -/
def bound (word : Keyword) (what : String) : Parser (Option UInt64) := do
  if ← acceptWord word then return some (← unsigned what) else return none

/-- Reports a number, if there is one. -/
def emitBound (leaf : UInt64 → Leaf) : Option UInt64 → Parser Unit
  | some n => emit (.leaf (leaf n))
  | none => return ()

/-- The sort order, if one is given. -/
def sorting : Parser Unit := do
  if ← acceptWord .order then
    expectWord .byWord
    within .ordering (items sortKey)

/-- The extent, if one is given. -/
def extent : Parser Unit := do
  let limit ← bound .limit "a limit"
  let offset ← bound .offset "an offset"
  if limit.isSome || offset.isSome then
    within .pagination do
      emitBound .limit limit
      emitBound .offset offset

/-- The condition of a statement. -/
def condition : Parser Unit := within .condition clauses

/-- A condition with sort order and extent. -/
def conditionAndTail : Parser Unit := do
  condition
  sorting
  extent

/-- A condition behind `from` or `where`, if one is given. -/
def optionalCondition : Parser Unit := do
  if ← acceptWord .fromWord then conditionAndTail
  else if ← acceptWord .whereWord then conditionAndTail

/-- A variable, or the count of one. -/
def projection : Parser Unit := do
  let what := "a variable or count(...)"
  let t ← take what
  match t.token with
  | .atom .var name => emit (.leaf (.atom .var name))
  | .keyword .count => do
    expectMark .lparen
    let name ← takeAtom .var "a variable"
    expectMark .rparen
    emit (.leaf (.count name))
  | _ => failExpected t what

/-- A `select` with a projection. -/
def select : Parser Unit := do
  let _ ← take?
  within .select do
    items projection
    let t ← take "'from'"
    if t.token = .keyword .fromWord ∨ t.token = .keyword .whereWord then conditionAndTail
    else failExpected t "'from'"

/-- A condition alone selects every variable of it. -/
def bareQuery : Parser Unit := within .select conditionAndTail

/-- An `insert` of topic map content. -/
def insert : Parser Unit := do
  let _ ← take?
  within .insert do
    let t ← take "topic map content"
    match t.token with
    | .fragment content =>
      within .fragment do
        (Fragment.mentioned content).forM fun name => emit (.leaf (.atom .var name))
        emit (.leaf (.content content))
    | _ => failExpected t "topic map content"
    optionalCondition

/-- An `update` by the given predicates. -/
def update : Parser Unit := do
  let _ ← take?
  within .update do
    items predicate
    optionalCondition

/-- A call or a term that is deleted; a parenthesis behind its first token tells which. -/
def deletion : Parser Unit := do
  if (← peekAt 1) = some (.symbol .lparen) then predicate else term

/-- A `delete` of terms and predicates. -/
def delete : Parser Unit := do
  let _ ← take?
  within .delete do
    items deletion
    optionalCondition

/-- A `merge` of two topics. -/
def merge : Parser Unit := do
  let _ ← take?
  within .merge do
    term
    expectMark .comma
    term
    optionalCondition

/-- A `load` of a document, into topic maps if any are named. -/
def load : Parser Unit := do
  let t ← take "load"
  requirePlus t "load"
  within .load do
    iriTerm
    if ← acceptWord .into then within .into (items iriTerm)

/-- A statement about one topic map. -/
def singleIri (what : String) (container : Container) : Parser Unit := do
  let t ← take what
  requirePlus t what
  within container iriTerm

/-- A statement. -/
def statement : Parser Unit := do
  match ← peek with
  | some (.keyword .select) => select
  | some (.keyword .insert) => insert
  | some (.keyword .update) => update
  | some (.keyword .delete) => delete
  | some (.keyword .merge) => merge
  | some (.keyword .load) => load
  | some (.keyword .drop) => singleIri "drop" .drop
  | some (.keyword .create) => singleIri "create" .create
  | _ => bareQuery

end TopicQuery.Grammar
