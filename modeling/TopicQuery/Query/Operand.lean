import TopicQuery.Query.Display

/-!
Operands: what the inside of a container amounts to for the container around it.
A container hands over one operand when it is left; a leaf is one by itself.
-/

namespace TopicQuery

/-- A finished part of a query, marked with the container it came from. -/
inductive Operand
  | term (term : Term)
  | clause (clause : Clause)
  | projection (projection : Projection)
  | ordering (ordering : Ordering)
  | limit (number : UInt64)
  | offset (number : UInt64)
  | text (text : String)
  | statement (statement : Statement)
  | rule (rule : Rule)
  | condition (clauses : List Clause)
  | orderBy (orderings : List Ordering)
  | pagination (limit offset : Option UInt64)
  | content (content : Content)
  | into (terms : List Term)
  | body (clauses : List Clause)
  | branch (branch : Branch)
  | name (term : Term)
  | role (role : Role)
  | player (term : Term)
  | roleType (term : Term)
  | left (term : Term)
  | right (term : Term)

namespace Operand

open Display

/-- An operand by its kind and parts; a statement or a rule is only named. -/
def shown : Operand → String
  | term t => parts "Term" [t.shown]
  | clause c => parts "Clause" [c.shown]
  | projection p => parts "Projection" [p.shown]
  | ordering o => parts "Ordering" [o.shown]
  | limit n => parts "Limit" [Text.numeral n.toNat]
  | offset n => parts "Offset" [Text.numeral n.toNat]
  | text s => parts "Content" [Text.quotedString s]
  | statement _ => "Statement"
  | rule r => parts "Rule" [Text.quotedString r.name]
  | condition clauses => parts "Where" [Clause.shownAll clauses]
  | orderBy orderings => parts "OrderBy" [list (orderings.map Ordering.shown)]
  | pagination l o => parts "Pagination" [shownLimit l, shownLimit o]
  | content c => parts "Fragment" [c.shown]
  | into terms => parts "Into" [Term.shownAll terms]
  | body clauses => parts "Body" [Clause.shownAll clauses]
  | branch b => parts "Branch" [b.shown]
  | name t => parts "Name" [t.shown]
  | role r => parts "Role" [r.shown]
  | player t => parts "Player" [t.shown]
  | roleType t => parts "Type" [t.shown]
  | left t => parts "Left" [t.shown]
  | right t => parts "Right" [t.shown]

/-! ## The operands of one kind -/

/-- The term of an operand that is one. -/
def term? : Operand → Option Term
  | term t => some t
  | _ => none

/-- The clause of an operand that is one. -/
def clause? : Operand → Option Clause
  | clause c => some c
  | _ => none

/-- The sort key of an operand that is one. -/
def ordering? : Operand → Option Ordering
  | ordering o => some o
  | _ => none

/-- The number of an operand that is a limit. -/
def limit? : Operand → Option UInt64
  | limit n => some n
  | _ => none

/-- The number of an operand that is an offset. -/
def offset? : Operand → Option UInt64
  | offset n => some n
  | _ => none

/-- The text of an operand that is topic map content. -/
def text? : Operand → Option String
  | text s => some s
  | _ => none

/-- The clauses of an operand that is a condition. -/
def condition? : Operand → Option (List Clause)
  | condition clauses => some clauses
  | _ => none

/-- The sort keys of an operand that is a list of them. -/
def orderBy? : Operand → Option (List Ordering)
  | orderBy orderings => some orderings
  | _ => none

/-- The extent of an operand that is one. -/
def pagination? : Operand → Option (Option UInt64 × Option UInt64)
  | pagination l o => some (l, o)
  | _ => none

/-- The inserted content of an operand that is one. -/
def content? : Operand → Option Content
  | content c => some c
  | _ => none

/-- The terms of an operand that is the target of a load. -/
def into? : Operand → Option (List Term)
  | into terms => some terms
  | _ => none

/-- The clauses of an operand that is the body of a rule. -/
def body? : Operand → Option (List Clause)
  | body clauses => some clauses
  | _ => none

/-- The branch of an operand that is one. -/
def branch? : Operand → Option Branch
  | branch b => some b
  | _ => none

/-- The term of an operand that is the name of a predicate. -/
def name? : Operand → Option Term
  | name t => some t
  | _ => none

/-- The role of an operand that is one. -/
def role? : Operand → Option Role
  | role r => some r
  | _ => none

/-- The term of an operand that is a player. -/
def player? : Operand → Option Term
  | player t => some t
  | _ => none

/-- The term of an operand that is the type of a role. -/
def roleType? : Operand → Option Term
  | roleType t => some t
  | _ => none

/-- The term of an operand that is the left side of a comparison. -/
def left? : Operand → Option Term
  | left t => some t
  | _ => none

/-- The term of an operand that is the right side of a comparison. -/
def right? : Operand → Option Term
  | right t => some t
  | _ => none

end Operand

end TopicQuery
