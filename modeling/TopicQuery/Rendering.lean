import TopicQuery.Rendering.Clause

/-!
Writing a tree as query text: a header of directives, then each rule and
statement on a line of its own.
-/

namespace TopicQuery

namespace Style

/-- A variable. -/
def variableText (e : Element) : Except RenderFault String := do
  return "$" ++ (← e.writtenValue)

/-! ## Directives and rules -/

/-- The directive that binds a prefix. -/
def directive (s : Style) (identifier iri : String) (kind : ReferenceKind) : String :=
  match kind, s.dialect with
  | .subjectIdentifier, .plus => "%prefix " ++ identifier ++ " <" ++ iri ++ ">"
  | .module, .plus => "%import " ++ identifier ++ " <" ++ iri ++ ">"
  | .module, .legacy => "import " ++ quoted iri ++ " as " ++ identifier
  | kind, _ => "using " ++ identifier ++ " for " ++ kind.letter ++ quoted iri

/-- A binding and the kind it gives its prefix. -/
def binding (s : Style) (e : Element) : Except RenderFault (String × String × ReferenceKind) := do
  let identifier ← e.writtenAttr "identifier"
  let iri ← e.writtenAttr "iri"
  match ReferenceKind.ofText? (← e.writtenAttr "kind") with
  | some kind => return (s.directive identifier iri kind ++ "\n", identifier, kind)
  | none => throw (.badPrefixKind identifier)

/-- The base directive, if the document has a base. -/
def baseDirective (s : Style) (tree : Element) : Except RenderFault String :=
  match tree.child? "base" with
  | none => .ok ""
  | some base => do
    s.requirePlus .base
    return "%base <" ++ (← base.writtenAttr "iri") ++ ">\n"

/-- A rule. -/
def rule (s : Style) (e : Element) : Except RenderFault String := do
  let name ← e.writtenAttr "name"
  let parameters ← (e.children.filter (·.name == "variable")).mapM variableText
  let body ←
    match e.child? "body" with
    | some body => s.clauseList body
    | none => pure ""
  return s.comment e ++ application name parameters ++ " :- " ++ body ++ " .\n"

/-! ## Statements -/

/-- What an element adds to a projection. -/
def projected (e : Element) : Except RenderFault (List String) :=
  match e.name with
  | "variable" => do return [← variableText e]
  | "count" => do return ["count(" ++ (← variableText e) ++ ")"]
  | _ => .ok []

/-- The order of the result. -/
def sortKey (e : Element) : Except RenderFault String := do
  let v ← variableText e
  return if e.name == "descending" then v ++ " desc" else v

/-- What follows the clauses of a statement. -/
def tail (e : Element) : Except RenderFault String := do
  let order ←
    match e.child? "orderby" with
    | some order => do pure (" order by " ++ commaList (← order.children.mapM sortKey))
    | none => pure ""
  let extent ←
    match e.child? "pagination" with
    | some pagination =>
      pagination.children.mapM fun part => do
        pure (" " ++ part.name ++ " " ++ (← part.writtenValue))
    | none => pure []
  return order ++ String.join extent

/-- A part of a statement that follows what the statement is about. -/
def isTail (e : Element) : Bool := ["where", "orderby", "pagination"].contains e.name

/-- The topic map content of an `insert`. -/
def content (e : Element) : Except RenderFault String :=
  match ((e.child? "fragment").bind (·.child? "content")).bind (·.text) with
  | some text => .ok text
  | none => .error .missingContent

/-- What a statement with conditions says in front of them. -/
def head (s : Style) (e : Element) : Except RenderFault String :=
  match e.name with
  | "select" => do
    let projection := (← e.children.mapM projected).flatten
    return if projection.isEmpty then "" else "select " ++ commaList projection ++ " from "
  | "insert" => do
    let text ← content e
    return if (e.child? "where").isSome then "insert " ++ text ++ " from \n" else "insert " ++ text
  | "update" => do return "update " ++ commaList (← s.clauses e.children) ++ " from "
  | "delete" => do
    let targets ← (e.children.filter (!isTail ·)).mapM fun target =>
      if isClause target then s.clause target else s.term target
    return "delete " ++ commaList targets ++ " from "
  | "merge" => do
    let topics ← s.terms (e.children.filter fun c => !isTail c && c.name != "into")
    return "merge " ++ commaList topics ++ " from "
  | name => .error (.notStatement name)

/-- A text without as many `from` as stand at its end, each with a blank behind it. -/
def withoutFinalFrom (cs : List Char) : List Char :=
  let shorter := cs.take (cs.length - 5)
  if 5 ≤ cs.length ∧ cs.drop (cs.length - 5) = "from ".toList then withoutFinalFrom shorter
  else cs
termination_by cs.length
decreasing_by simp; omega

/-- A statement with conditions, or one that could have them. -/
def conditional (s : Style) (e : Element) : Except RenderFault String := do
  let head ← s.head e
  let body ←
    match e.child? "where" with
    | some condition => do pure (head ++ (← s.clauseList condition))
    | none => pure (String.ofList (withoutFinalFrom head.toList))
  let tail ← tail e
  return s.comment e ++ body ++ tail ++ (if e.name == "select" then "?" else "") ++ "\n"

/-- A statement about one whole topic map. -/
def whole (s : Style) (construct : PlusConstruct) (e : Element) : Except RenderFault String := do
  s.requirePlus construct
  return s.comment e ++ e.name ++ " " ++ commaList (← s.terms e.children) ++ "\n"

/-- A statement. -/
def statement (s : Style) (e : Element) : Except RenderFault String :=
  match e.name with
  | "load" => do
    s.requirePlus .load
    let source ← s.terms (e.children.filter (·.name != "into"))
    let target ←
      match e.child? "into" with
      | some into => do pure (" into " ++ commaList (← s.terms into.children))
      | none => pure ""
    return s.comment e ++ "load " ++ commaList source ++ target ++ "\n"
  | "drop" => s.whole .drop e
  | "create" => s.whole .create e
  | _ => s.conditional e

/-! ## Documents -/

/-- What an element adds behind the header. -/
def part (s : Style) (e : Element) : Except RenderFault String :=
  match e.name with
  | "base" => .ok ""
  | "namespace" => .ok ""
  | "rule" => s.rule e
  | _ => s.statement e

end Style

/-- Writes a tree as query text. -/
def render (dialect : Dialect) (hints : Bool) (tree : Element) : Except RenderFault String := do
  if tree.name ≠ "tolog" then throw (.notDocument tree.name)
  let style : Style := ⟨dialect, hints, []⟩
  let base ← style.baseDirective tree
  let version := if dialect = .plus then "%version 1.2\n" else ""
  let bindings ← (tree.children.filter (·.name == "namespace")).mapM style.binding
  let style := { style with kinds := (bindings.map Prod.snd).reverse }
  let parts ← tree.children.mapM style.part
  return base ++ version ++ String.join (bindings.map Prod.fst) ++ String.join parts

end TopicQuery
