import TopicQuery.Pass.ClauseList
import TopicQuery.Vocabulary

/-!
Narrowing the kinds of construct that a built-in predicate ranges over: a kind
stays only if some other clause implies it for the predicate's first argument.
What a negated clause implies does not count, and a clause sees the lists
around it but not those beside it.
-/

namespace TopicQuery.NarrowHints

/-- A kind of construct that a clause implies for a variable. -/
abbrev Evidence : Type := String × Hint

/-- The kinds that the built-in predicate with a name implies for its arguments, by position. -/
def positions (name : String) : List (Nat × Hint) :=
  match name with
  | "association" => [(0, .association)]
  | "association-role" => [(0, .association), (1, .role)]
  | "role-player" => [(0, .role)]
  | "occurrence" => [(1, .occurrence)]
  | "topic-name" => [(1, .name)]
  | "variant" => [(0, .name), (1, .variant)]
  | _ => []

/-- The kinds that a clause implies for its variables. -/
def implied (clause : Element) : List Evidence :=
  if clause.name == "builtin-predicate" then
    (positions ((clause.attr? "name").getD "")).filterMap fun (i, hint) =>
      (clause.arguments[i]?.bind Element.variableName?).map (·, hint)
  else []

/-- The name of the pass. -/
def name : String := "narrow-hints"

/-- The clause with only the kinds that there is evidence for, if there is for some of them. -/
def narrow (evidence : List Evidence) (clause : Element) : Element :=
  if clause.name != "builtin-predicate" then clause
  else
    match (clause.attr? "hints").bind Hint.ofListText?,
      clause.arguments.head?.bind Element.variableName? with
    | some hints, some v =>
      let left := hints.filter fun h => evidence.contains (v, h)
      if !left.isEmpty && left.length < hints.length then
        (clause.setAttr "hints" (Hint.listText left)).annotate name
      else clause
    | _, _ => clause

/-- The kinds implied by the members of a list. -/
def impliedIn (negated : Bool) (clauses : List Element) : List Evidence :=
  if negated then [] else clauses.flatMap implied

mutual

/-- Narrows the clauses below an element; `outer` is implied by the lists around it. -/
def narrowBelow (outer : List Evidence) : Element → Element
  | ⟨name, attributes, text, children⟩ =>
    let e : Element := ⟨name, attributes, text, children⟩
    if e.isClauseList then
      let negated := name == "not"
      ⟨name, attributes, text,
        narrowMembers negated outer (outer ++ impliedIn negated children) [] children⟩
    else ⟨name, attributes, text, narrowEach outer children⟩

/-- Narrows below each of some elements that are not the members of a list. -/
def narrowEach (outer : List Evidence) : List Element → List Element
  | [] => []
  | e :: es => narrowBelow outer e :: narrowEach outer es

/--
Narrows the members of a list by what the others imply, and below them by what
all of them imply (`inner`). The members in front have implied `before`.
-/
def narrowMembers (negated : Bool) (outer inner before : List Evidence) :
    List Element → List Element
  | [] => []
  | e :: es =>
    narrow (outer ++ before ++ impliedIn negated es) (narrowBelow inner e) ::
      narrowMembers negated outer inner (before ++ impliedIn negated [e]) es

end

/-- Narrows the built-in predicates of every rule and statement. -/
def apply (tree : Element) : Element :=
  { tree with children := narrowEach [] tree.children }

end TopicQuery.NarrowHints
