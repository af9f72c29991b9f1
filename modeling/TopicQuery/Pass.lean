import TopicQuery.Pass.FiltersLast
import TopicQuery.Pass.InternalPredicates
import TopicQuery.Pass.NarrowHints
import TopicQuery.Pass.RemoveDuplicates

/-!
Passes: changes of a tree that keep its meaning, known by their names and made
in a given order.
-/

namespace TopicQuery

/-- A way to change a tree without changing its meaning. -/
inductive Pass
  | removeDuplicates
  | narrowHints
  | internalPredicates
  | filtersLast
  deriving DecidableEq, Repr

namespace Pass

/-- Every pass, once. -/
def all : List Pass := [removeDuplicates, narrowHints, internalPredicates, filtersLast]

/-- The passes that are run when none are named. -/
def standard : List Pass := [removeDuplicates, narrowHints, internalPredicates, filtersLast]

/-- The name of a pass. -/
def name : Pass → String
  | removeDuplicates => RemoveDuplicates.name
  | narrowHints => NarrowHints.name
  | internalPredicates => InternalPredicates.name
  | filtersLast => FiltersLast.name

/-- What a pass does. -/
def description : Pass → String
  | removeDuplicates => "drops clauses equal to an earlier clause of the same list"
  | narrowHints => "narrows built-in predicate hints using the kinds implied by other clauses"
  | internalPredicates =>
    "replaces instance-of with an internal predicate when a variable is used once"
  | filtersLast => "moves comparisons and negations behind the other clauses"

/-- The pass with the given name. -/
def ofName? (s : String) : Option Pass := all.find? (·.name == s)

@[simp] theorem ofName?_name (p : Pass) : ofName? p.name = some p := by
  cases p <;> decide +kernel

/-- The tree behind a pass. -/
def apply : Pass → Element → Element
  | removeDuplicates => RemoveDuplicates.apply
  | narrowHints => NarrowHints.apply
  | internalPredicates => InternalPredicates.apply
  | filtersLast => FiltersLast.apply

end Pass

/-- Runs passes one after the other. -/
def optimize (passes : List Pass) (tree : Element) : Element :=
  passes.foldl (fun tree pass => pass.apply tree) tree

end TopicQuery
