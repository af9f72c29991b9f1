import TopicQuery.Builtin
import TopicQuery.Rendering.Term
import TopicQuery.Text.Blank

/-!
The written form of clauses.
-/

namespace TopicQuery.Style

/-- The element is a clause. -/
def isClause (e : Element) : Bool :=
  ["predicate", "builtin-predicate", "internal-predicate", "infix-predicate",
    "association-predicate", "dynamic-predicate", "not", "or"].contains e.name

/-- A predicate and its arguments. -/
def application (name : String) (arguments : List String) : String :=
  name ++ "(" ++ commaList arguments ++ ")"

/-- The first child of a child with the given name. -/
def inner? (e : Element) (name : String) : Option Element :=
  (e.child? name).bind (·.children.head?)

/-- The name a predicate is called by. -/
def callee (s : Style) (e : Element) : Except RenderFault String :=
  match inner? e "name" with
  | some name => s.term name
  | none => .error (.missingName e.name)

/-- One side of a comparison. -/
def side (s : Style) (e : Element) (name : String) : Except RenderFault String :=
  match inner? e name with
  | some side => s.term side
  | none => .error (.missingSide name)

/-- The player or the type of a role. -/
def rolePart (s : Style) (e : Element) (name : String) : Except RenderFault String :=
  match inner? e name with
  | some part => s.term part
  | none => .error (.missingRolePart name)

/-- A player and the type of its role. -/
def role (s : Style) (e : Element) : Except RenderFault String := do
  return (← s.rolePart e "player") ++ " : " ++ (← s.rolePart e "type")

/-- An internal predicate, written as the built-in one it stands for. -/
def internal (s : Style) (e : Element) : Except RenderFault String := do
  let name ← e.writtenAttr "name"
  let arguments ← s.terms e.children
  let removed := (Text.wordsOf ((e.attr? "removed-variables").getD "")).map ("$" ++ ·)
  match Internal.restore? name arguments removed with
  | some (builtin, arguments) => return application builtin arguments
  | none => throw (.unknownInternal name)

/-- A comparison. -/
def comparison (s : Style) (e : Element) : Except RenderFault String := do
  s.requirePlus .comparison
  let name ← e.writtenAttr "name"
  match Comparison.ofName? name with
  | some operator =>
    return (← s.side e "left") ++ " " ++ operator.sign ++ " " ++ (← s.side e "right")
  | none => throw (.badOperator name)

/-- A clause without clauses inside it. -/
def plainClause (s : Style) (e : Element) : Except RenderFault String :=
  match e.name with
  | "predicate" => call
  | "dynamic-predicate" => call
  | "builtin-predicate" => do
    let arguments ← s.terms e.children
    return application (← e.writtenAttr "name") arguments
  | "internal-predicate" => s.internal e
  | "infix-predicate" => s.comparison e
  | "association-predicate" => do
    let name ← s.callee e
    return application name (← (e.children.filter (·.name == "pair")).mapM s.role)
  | name => .error (.notClause name)
where
  /-- A predicate called by name. -/
  call : Except RenderFault String := do
    let name ← s.callee e
    return application name (← s.terms (e.children.filter (·.name != "name")))

mutual

/-- The written form of a clause. -/
def clause (s : Style) : Element → Except RenderFault String
  | ⟨name, attributes, text, children⟩ =>
    let e : Element := ⟨name, attributes, text, children⟩
    if name == "not" then do
      return s.comment e ++ "not(" ++ s.comment e ++ commaList (← s.clauses children) ++ ")"
    else if name == "or" then do
      return s.comment e ++ "\x7b " ++ String.join (← s.branches true children) ++ " \x7d"
    else do return s.comment e ++ (← s.plainClause e)

/-- The written forms of the clauses among some elements. -/
def clauses (s : Style) : List Element → Except RenderFault (List String)
  | [] => .ok []
  | e :: es =>
    if isClause e then do
      let first ← s.clause e
      return first :: (← s.clauses es)
    else s.clauses es

/-- The written forms of branches, each but the first behind the bar that separates it. -/
def branches (s : Style) (isFirst : Bool) : List Element → Except RenderFault (List String)
  | [] => .ok []
  | ⟨name, attributes, text, children⟩ :: es => do
    let e : Element := ⟨name, attributes, text, children⟩
    let bar :=
      if isFirst then ""
      else if e.attr? "short-circuit" == some "true" then " || "
      else " | "
    let branch := bar ++ s.comment e ++ commaList (← s.clauses children)
    return branch :: (← s.branches false es)

end

/-- The clauses of a list, behind the comment on the list itself. -/
def clauseList (s : Style) (e : Element) : Except RenderFault String := do
  return s.comment e ++ commaList (← s.clauses e.children)

end TopicQuery.Style
