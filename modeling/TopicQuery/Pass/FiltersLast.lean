import TopicQuery.Pass.ClauseList

/-!
Moving comparisons and negations behind the clauses that bind variables.
-/

namespace TopicQuery.FiltersLast

/-- The clauses with the filters behind the others, if some clause stands behind a filter. -/
def reorder? (clauses : List Element) : Option (List Element) :=
  if (clauses.dropWhile (!·.isFilter)).all (·.isFilter) then none
  else some (clauses.filter (!·.isFilter) ++ clauses.filter (·.isFilter))

/-- The name of the pass. -/
def name : String := "filters-last"

/-- Moves the filters of every clause list to its end. -/
def apply (tree : Element) : Element := tree.changeLists name reorder?

end TopicQuery.FiltersLast
