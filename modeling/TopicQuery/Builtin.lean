import TopicQuery.Vocabulary

/-!
The built-in predicates with the kinds of construct their first argument may
range over, and the internal predicates that stand for some of them when an
argument is left out.
-/

namespace TopicQuery

/-- A built-in predicate. -/
structure Builtin where
  name : String
  hints : List Hint
  deriving DecidableEq, Repr

namespace Builtin

/-- The table of built-in predicates. -/
def table : List Builtin := [
  ⟨"association", [.association]⟩,
  ⟨"association-role", [.association, .role]⟩,
  ⟨"base-locator", []⟩,
  ⟨"datatype", [.occurrence, .variant]⟩,
  ⟨"direct-instance-of", []⟩,
  ⟨"instance-of", []⟩,
  ⟨"item-identifier", []⟩,
  ⟨"literal", []⟩,
  ⟨"object-id", []⟩,
  ⟨"occurrence", [.occurrence]⟩,
  ⟨"reifies", [.association, .role, .name, .occurrence, .variant]⟩,
  ⟨"resource", [.occurrence, .variant]⟩,
  ⟨"role-player", [.role]⟩,
  ⟨"scope", [.association, .name, .occurrence, .variant]⟩,
  ⟨"source-locator", []⟩,
  ⟨"subject-identifier", []⟩,
  ⟨"subject-locator", []⟩,
  ⟨"topic", []⟩,
  ⟨"topic-name", [.name]⟩,
  ⟨"topicmap", []⟩,
  ⟨"type", [.association, .role, .name, .occurrence]⟩,
  ⟨"value", [.name, .occurrence, .variant]⟩,
  ⟨"value-like", [.name, .occurrence, .variant]⟩,
  ⟨"variant", [.name, .variant]⟩]

/-- The built-in predicate with the given name. -/
def find? (name : String) : Option Builtin := table.find? (·.name == name)

end Builtin

/-- A built-in predicate without the argument at one position. -/
structure Internal where
  name : String
  builtin : String
  removedAt : Nat
  deriving DecidableEq, Repr

namespace Internal

/-- The table of internal predicates. -/
def table : List Internal := [
  ⟨"types", "instance-of", 0⟩,
  ⟨"typed", "instance-of", 1⟩,
  ⟨"direct-types", "direct-instance-of", 0⟩,
  ⟨"direct-typed", "direct-instance-of", 1⟩]

/-- The internal predicate with the given name. -/
def find? (name : String) : Option Internal := table.find? (·.name == name)

/-- The internal predicate for a built-in one without the argument at a position. -/
def findFor? (builtin : String) (removedAt : Nat) : Option Internal :=
  table.find? fun i => i.builtin == builtin && i.removedAt == removedAt

/--
The built-in predicate an internal one stands for, and its arguments: those
removed are put back where they were, or at the end of a list that is too short.
-/
def restore? {α : Type} (name : String) (arguments removed : List α) :
    Option (String × List α) :=
  (find? name).map fun i =>
    (i.builtin, arguments.take i.removedAt ++ removed ++ arguments.drop i.removedAt)

end Internal

end TopicQuery
