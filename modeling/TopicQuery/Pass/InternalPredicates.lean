import TopicQuery.Builtin
import TopicQuery.Fragment
import TopicQuery.Pass.ClauseList

/-!
Replacing a built-in predicate by an internal one that leaves an argument out,
where that argument is a variable nothing else in the rule or statement mentions.
-/

namespace TopicQuery.InternalPredicates

/-- The variables an element mentions by itself. -/
def mentioned (e : Element) : List String :=
  if ["variable", "count", "ascending", "descending"].contains e.name then
    (e.attr? "value").toList
  else if e.name == "content" then Fragment.mentioned (e.text.getD "")
  else []

/-- The variables mentioned in a tree, as often as they are. -/
def mentions (scope : Element) : List String := scope.descendants.flatMap mentioned

/-- The variable at an argument position that is mentioned only there. -/
def lone? (counted : List String) (clause : Element) (n : Nat) : Option String :=
  (clause.arguments[n]?.bind Element.variableName?).filter fun v => counted.count v == 1

/-- The children of a clause without the argument at a position. -/
def withoutArgument : Nat → List Element → List Element
  | _, [] => []
  | n, e :: es =>
    if e.name == "name" then e :: withoutArgument n es
    else
      match n with
      | 0 => es
      | n + 1 => e :: withoutArgument n es

/-- The name of the pass. -/
def name : String := "internal-predicates"

/-- The clause for an internal predicate that takes the place of another clause. -/
def replacement (clause : Element) (internal : Internal) (removed : String) : Element :=
  let hints := ((clause.attr? "hints").map fun hints => ("hints", hints)).toList
  Element.annotate
    ⟨"internal-predicate", ("name", internal.name) :: hints ++ [("removed-variables", removed)], none,
      withoutArgument internal.removedAt clause.children⟩
    name

/-- The first argument position of a clause whose variable is mentioned only there. -/
def loneArgument? (counted : List String) (clause : Element) : Option (Nat × String) :=
  [0, 1].findSome? fun n => (lone? counted clause n).map (n, ·)

/-- The clause with its lone argument left out, if it has one and there is a predicate for that. -/
def replace (counted : List String) (clause : Element) : Element :=
  if clause.name == "builtin-predicate" && clause.arguments.length == 2 then
    match clause.attr? "name", loneArgument? counted clause with
    | some builtin, some (n, v) =>
      match Internal.findFor? builtin n with
      | some internal => replacement clause internal v
      | none => clause
    | _, _ => clause
  else clause

mutual

/-- Replaces the clauses below an element. -/
def replaceBelow (counted : List String) : Element → Element
  | ⟨name, attributes, text, children⟩ =>
    let e : Element := ⟨name, attributes, text, children⟩
    ⟨name, attributes, text, replaceIn counted e.isClauseList children⟩

/-- Replaces clauses among and below some elements, among them only if they are a list. -/
def replaceIn (counted : List String) (isList : Bool) : List Element → List Element
  | [] => []
  | e :: es =>
    let e := replaceBelow counted e
    (if isList then replace counted e else e) :: replaceIn counted isList es

end

/-- Replaces the clauses of a rule or statement. -/
def replaceScope (scope : Element) : Element :=
  if scope.name == "base" || scope.name == "namespace" then scope
  else replaceBelow (mentions scope) scope

/-- Replaces the clauses of every rule and statement. -/
def apply (tree : Element) : Element :=
  { tree with children := tree.children.map replaceScope }

end TopicQuery.InternalPredicates
