import TopicQuery.Pass.ClauseList

/-!
Dropping clauses that repeat an earlier clause of their list.
-/

namespace TopicQuery.RemoveDuplicates

/-- The clauses that are the same as none of those kept and none before them. -/
def firsts (kept : List Element) : List Element → List Element
  | [] => []
  | clause :: clauses =>
    if kept.any (·.sameAs clause) then firsts kept clauses
    else clause :: firsts (clause :: kept) clauses

/-- A list without its repetitions, if there are any. -/
def shorten? (clauses : List Element) : Option (List Element) :=
  let kept := firsts [] clauses
  if kept.length = clauses.length then none else some kept

/-- The name of the pass. -/
def name : String := "remove-duplicates"

/-- Drops the repetitions in every clause list. -/
def apply (tree : Element) : Element := tree.changeLists name shorten?

end TopicQuery.RemoveDuplicates
