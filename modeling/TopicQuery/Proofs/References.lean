import TopicQuery.Proofs.Phrase.Clause

/-!
Prefixed names, as the tokens of a text refer to them and as its events do. What a
prefixed name refers to is told by its prefix and by the token in front of it: a mark,
`^^`, or neither. The equals sign is a mark unless an operand stands in front of it,
because it is an operator then. Of the events behind the directives a scope allows those
whose prefixes are bound, a module prefix only in the name of a predicate, and no call as a
builtin or a dynamic one if the text has a rule of its name.
-/

namespace TopicQuery

open Phrase

/-! ## References among events -/

/-- What a prefixed name refers to. -/
inductive Reference where
  | qname (kind : ReferenceKind) (name : QualifiedName)
  | curie (kind : ReferenceKind) (name : QualifiedName)
  | datatype (name : QualifiedName)
  deriving DecidableEq, Repr

namespace Reference

/-- The name of a reference. -/
def name : Reference → QualifiedName
  | qname _ name => name
  | curie _ name => name
  | datatype name => name

end Reference

/-- The prefixed name in a leaf. -/
def Leaf.reference? : Leaf → Option Reference
  | .qname kind name => some (.qname kind name)
  | .curie kind name => some (.curie kind name)
  | .literal _ (.qname name) => some (.datatype name)
  | _ => none

/-- The prefixed name that an event reports. -/
def Event.reference? : Event → Option Reference
  | .leaf item => item.reference?
  | _ => none

/-- The prefixed names that events report, in order. -/
def references (events : List Event) : List Reference := events.filterMap Event.reference?

section Events

variable {e : Event} {es fs : List Event}

@[simp] theorem references_nil : references [] = [] := rfl

theorem references_cons : references (e :: es) = e.reference?.toList ++ references es := by
  cases h : e.reference? <;> simp [references, h]

@[simp] theorem references_enter {c : Container} :
    references (.enter c :: es) = references es := rfl

@[simp] theorem references_leave {tag : Tag} : references (.leave tag :: es) = references es := rfl

@[simp] theorem references_leaf {item : Leaf} :
    references (.leaf item :: es) = item.reference?.toList ++ references es := references_cons

@[simp] theorem references_append : references (es ++ fs) = references es ++ references fs :=
  List.filterMap_append

end Events

/-! ## References among tokens -/

/-- What the tokens in front of a token make of it. -/
inductive Before where
  | nothing
  | operand
  | marker (m : Marker)
  | typed
  deriving DecidableEq, Repr

namespace Before

/-- What a token makes of the one behind it. -/
def next (b : Before) : Token → Before
  | .symbol .eq => if b = operand then nothing else marker .locator
  | .symbol .hat => marker .item
  | .symbol .hatHat => typed
  | .atom _ _ => operand
  | .qname _ => operand
  | .curie _ => operand
  | _ => nothing

/-- What some tokens make of the one behind them. -/
def after (b : Before) (ts : List Token) : Before := ts.foldl next b

/-- The mark in front of a token. -/
def marker? : Before → Option Marker
  | marker m => some m
  | _ => none

/--
The reference that a token is, if it is a prefixed name: it is of the kind that a mark says, or
else of the kind that its prefix declares.
-/
def reference? (c : Scope) (b : Before) : Token → Option Reference
  | .qname name =>
    if b = typed then some (.datatype name)
    else some (.qname (Marker.kindOr b.marker? (c.kind name.qualifier)) name)
  | .curie name =>
    some (.curie (Marker.kindOr b.marker? (bracketKind (c.kind name.qualifier))) name)
  | _ => none

/-- The references that tokens are, in order. -/
def named (c : Scope) (b : Before) : List Token → List Reference
  | [] => []
  | t :: ts => (b.reference? c t).toList ++ named c (b.next t) ts

section Tokens

variable {c : Scope} {b : Before} {t : Token} {ts us : List Token}

@[simp] theorem after_nil : b.after [] = b := rfl

@[simp] theorem after_cons : b.after (t :: ts) = (b.next t).after ts := rfl

@[simp] theorem after_append : b.after (ts ++ us) = (b.after ts).after us := List.foldl_append

@[simp] theorem named_nil : named c b [] = [] := rfl

theorem named_append : named c b (ts ++ us) = named c b ts ++ named c (b.after ts) us := by
  induction ts generalizing b with
  | nil => rfl
  | cons t ts ih => simp [named, ih, List.append_assoc]

/-- A term is the reference that its leaf reports, and it is an operand for what follows. -/
theorem named_term (x : Phrase.Term) :
    named c .nothing x.tokens = (x.leaf c).reference?.toList ∧
      Before.nothing.after x.tokens = .operand := by
  match x with
  | .atom kind value => exact ⟨rfl, rfl⟩
  | .literal value (.iri text) => exact ⟨rfl, rfl⟩
  | .literal value (.qname name) => exact ⟨rfl, rfl⟩
  | .qname none name => exact ⟨rfl, rfl⟩
  | .qname (some m) name => cases m <;> exact ⟨rfl, rfl⟩
  | .curie none name => exact ⟨rfl, rfl⟩
  | .curie (some m) name => cases m <;> exact ⟨rfl, rfl⟩
  | .iri m value => cases m <;> exact ⟨rfl, rfl⟩

end Tokens

end Before

/-! ## What a scope allows -/

/-- The prefix of the reference is bound. -/
def Leaf.Bound (c : Scope) (item : Leaf) : Prop :=
  ∀ r, item.reference? = some r → c.Binds r.name.qualifier

namespace Event

/--
What the event needs on its own. The name of a predicate is told by its call, and the
names of rules are reported outside of clauses and statements only.
-/
def Ordinary (c : Scope) (outside : Bool) : Event → Prop
  | .enter .callee => False
  | .enter .dynamic => False
  | .enter (.builtin name _) => name ∉ c.rules
  | .enter (.rule _) => outside = true
  | .leaf (.base _) => False
  | .leaf (.binding _ _ _) => False
  | .leaf (.qname kind name) => kind ≠ .module ∧ c.Binds name.qualifier
  | .leaf item => item.Bound c
  | _ => True

end Event

/-- What the name of a call needs in its container. -/
structure Callable (c : Scope) (k : Container) (item : Leaf) : Prop where
  container : k ∈ [.association, .call, .dynamic]
  bound : item.Bound c
  module : ∀ name, item = .qname .module name → c.kind name.qualifier = .module
  plain : ∀ name, item = .atom .identifier name → k = .dynamic → name ∉ c.rules
  base : ∀ iri, item ≠ .base iri
  binding : ∀ identifier iri kind, item ≠ .binding identifier iri kind

/-- The name of a call with what it opens and closes. -/
def calleeEvents (k : Container) (item : Leaf) : List Event :=
  [.enter k, .enter .callee, .leaf item, .leave .callee]

/-- The scope allows the events one behind the other. -/
inductive Allowed (c : Scope) (outside : Bool) : List Event → Prop where
  | nil : Allowed c outside []
  | cons {e : Event} {es : List Event} (he : e.Ordinary c outside) (hes : Allowed c outside es) :
    Allowed c outside (e :: es)
  | call {k : Container} {item : Leaf} {es : List Event} (hcall : Callable c k item)
    (hes : Allowed c outside es) : Allowed c outside (calleeEvents k item ++ es)

variable {c : Scope} {outside : Bool} {e : Event} {es fs before after : List Event}

theorem Event.Ordinary.outer (h : e.Ordinary c false) : e.Ordinary c outside := by
  match e with
  | .enter k => cases k <;> first | exact h | cases h
  | .leave _ => trivial
  | .leaf item => cases item <;> exact h

namespace Allowed

theorem append (h : Allowed c outside es) (h' : Allowed c outside fs) :
    Allowed c outside (es ++ fs) := by
  induction h with
  | nil => exact h'
  | cons he _ ih => exact .cons he ih
  | call hcall _ ih =>
      rw [List.append_assoc]
      exact .call hcall ih

/-- What is allowed in a clause or a statement is allowed outside as well. -/
theorem outer (h : Allowed c false es) : Allowed c outside es := by
  induction h with
  | nil => exact .nil
  | cons he _ ih => exact .cons he.outer ih
  | call hcall _ ih => exact .call hcall ih

/-! ## What allowed events say -/

theorem mem_cases (h : Allowed c outside es) (he : e ∈ es) :
    e.Ordinary c outside ∨ ∃ k item, Callable c k item ∧ e ∈ calleeEvents k item := by
  induction h with
  | nil => cases he
  | cons hfirst _ ih =>
      obtain rfl | he := List.mem_cons.mp he
      · exact .inl hfirst
      · exact ih he
  | call hcall _ ih =>
      obtain he | he := List.mem_append.mp he
      · exact .inr ⟨_, _, hcall, he⟩
      · exact ih he

/-- A leaf is ordinary, or it is the name of a call. -/
theorem leaf_cases (h : Allowed c outside es) {item : Leaf} (he : .leaf item ∈ es) :
    (Event.leaf item).Ordinary c outside ∨ ∃ k, Callable c k item := by
  obtain he | ⟨k, name, hcall, he⟩ := h.mem_cases he
  · exact .inl he
  · obtain rfl : item = name := by simpa [calleeEvents] using he
    exact .inr ⟨k, hcall⟩

/-- A container is ordinary unless it is that of a call or of a name. -/
theorem enter_cases (h : Allowed c outside es) {k : Container} (he : .enter k ∈ es) :
    (Event.enter k).Ordinary c outside ∨ k ∈ [.association, .call, .dynamic, .callee] := by
  obtain he | ⟨container, item, hcall, he⟩ := h.mem_cases he
  · exact .inl he
  · right
    obtain rfl | rfl : k = container ∨ k = .callee := by simpa [calleeEvents] using he
    · exact List.mem_append_left [.callee] hcall.container
    · decide

/-- Every prefix is bound. -/
theorem binds (h : Allowed c outside es) (he : e ∈ es) {r : Reference}
    (hr : e.reference? = some r) : c.Binds r.name.qualifier := by
  cases e with
  | leaf item =>
      obtain hitem | ⟨k, hcall⟩ := h.leaf_cases he
      · cases item with
        | qname kind name =>
            obtain rfl := Option.some.inj hr
            exact hitem.2
        | base _ => cases hitem
        | binding _ _ _ => cases hitem
        | _ => exact hitem r hr
      · exact hcall.bound r hr
  | _ => cases hr

/-- Neither a base nor the binding of a prefix is reported. -/
theorem not_header (h : Allowed c outside es) :
    (∀ iri, .leaf (.base iri) ∉ es) ∧
      ∀ identifier iri kind, .leaf (.binding identifier iri kind) ∉ es := by
  constructor
  · intro iri he
    obtain hitem | ⟨k, hcall⟩ := h.leaf_cases he
    · exact hitem
    · exact hcall.base iri rfl
  · intro identifier iri kind he
    obtain hitem | ⟨k, hcall⟩ := h.leaf_cases he
    · exact hitem
    · exact hcall.binding identifier iri kind rfl

/-- A builtin predicate has a name that no rule has. -/
theorem builtin (h : Allowed c outside es) {name : String} {hints : List Hint}
    (he : .enter (.builtin name hints) ∈ es) : name ∉ c.rules := by
  obtain hordinary | hmem := h.enter_cases he
  · exact hordinary
  · simp at hmem

/-- A module prefix stands in the name of a predicate, and it is bound to a module. -/
theorem module (h : Allowed c outside es) {name : QualifiedName}
    (hes : es = before ++ .leaf (.qname .module name) :: after) :
    before.getLast? = some (.enter .callee) ∧ c.kind name.qualifier = .module := by
  induction h generalizing before with
  | nil => simp at hes
  | cons he _ ih =>
      cases before with
      | nil =>
          obtain ⟨rfl, -⟩ := List.cons.inj hes
          exact absurd rfl he.1
      | cons e before =>
          obtain ⟨hlast, hkind⟩ := ih (List.cons.inj hes).2
          exact ⟨by rw [List.getLast?_cons, hlast, Option.getD_some], hkind⟩
  | call hcall _ ih =>
      match before with
      | [] => simp [calleeEvents] at hes
      | [_] => simp [calleeEvents] at hes
      | [first, second] =>
          obtain ⟨rfl, rfl, hitem, -⟩ : .enter _ = first ∧ .enter .callee = second ∧ _ ∧ _ := by
            simpa [calleeEvents] using hes
          exact ⟨rfl, hcall.module name hitem⟩
      | [_, _, _] => simp [calleeEvents] at hes
      | _ :: _ :: _ :: _ :: before =>
          obtain ⟨-, -, -, -, hrest⟩ : _ ∧ _ ∧ _ ∧ _ ∧ _ := by simpa [calleeEvents] using hes
          obtain ⟨hlast, hkind⟩ := ih hrest
          exact ⟨by simp [List.getLast?_cons, hlast], hkind⟩

/-- A dynamic predicate that is called by a plain name has a name that no rule has. -/
theorem dynamic (h : Allowed c outside es) {name : String}
    (he : [.enter .dynamic, .enter .callee, .leaf (.atom .identifier name)] <:+: es) :
    name ∉ c.rules := by
  induction h with
  | nil => simp at he
  | cons hfirst _ ih =>
      obtain hprefix | hinfix := List.infix_cons_iff.mp he
      · obtain ⟨rfl, -⟩ := List.cons_prefix_cons.mp hprefix
        exact hfirst.elim
      · exact ih hinfix
  | call hcall _ ih =>
      -- the three events stand at the name of the call, or behind it
      simp only [calleeEvents, List.cons_append, List.nil_append, List.infix_cons_iff,
        List.cons_prefix_cons, reduceCtorEq, false_and, and_false, false_or] at he
      obtain ⟨hk, -, hitem, -⟩ | hinfix := he
      · exact hcall.plain name (Event.leaf.inj hitem).symm (Event.enter.inj hk).symm
      · exact ih hinfix

end Allowed

end TopicQuery
