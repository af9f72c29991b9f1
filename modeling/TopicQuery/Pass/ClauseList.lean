import TopicQuery.Element

/-!
Clause lists: the elements whose children are conditions that hold together. The
passes work on them, and mark those they change.
-/

namespace TopicQuery.Element

/-- The children of the element are a list of clauses. -/
def isClauseList (e : Element) : Bool := ["where", "body", "branch", "not"].contains e.name

/-- A clause that only rejects bindings others have made. -/
def isFilter (e : Element) : Bool := e.name == "infix-predicate" || e.name == "not"

/-- The children of a clause without its name. -/
def arguments (e : Element) : List Element := e.children.filter (·.name != "name")

/-- The name of the variable that an element stands for. -/
def variableName? (e : Element) : Option String :=
  if e.name == "variable" then e.attr? "value" else none

/-- The element with its clauses changed, and marked, if it is a clause list that changes. -/
def changeList (pass : String) (f : List Element → Option (List Element)) (e : Element) : Element :=
  if e.isClauseList then
    match f e.children with
    | some clauses => { e with children := clauses }.annotate pass
    | none => e
  else e

mutual

/-- Changes every clause list of a tree, inner lists before those they stand in. -/
def changeLists (pass : String) (f : List Element → Option (List Element)) : Element → Element
  | ⟨name, attributes, text, children⟩ =>
    changeList pass f ⟨name, attributes, text, changeListsIn pass f children⟩

/-- Changes every clause list of some trees. -/
def changeListsIn (pass : String) (f : List Element → Option (List Element)) :
    List Element → List Element
  | [] => []
  | e :: es => changeLists pass f e :: changeListsIn pass f es

end

end TopicQuery.Element
