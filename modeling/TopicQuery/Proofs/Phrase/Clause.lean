import TopicQuery.Grammar.Clause
import TopicQuery.Proofs.Outline

/-!
Phrases: what the tokens of a query say, taken apart along the grammar down to
its terms. A phrase knows its tokens, the outline it is reported as, and what has
to be settled before it for it to be accepted.
-/

namespace TopicQuery.Phrase

open Grammar

/-- What the names in a phrase refer to: the rules of the text and its prefixes. -/
structure Scope where
  rules : List String
  bindings : List Prefixed

/-- The kind of a prefix, if it is bound. -/
def Scope.kind? (c : Scope) (qualifier : String) : Option ReferenceKind :=
  (c.bindings.find? (·.identifier == qualifier)).map (·.kind)

/-- The kind of a bound prefix. -/
def Scope.kind (c : Scope) (qualifier : String) : ReferenceKind :=
  (c.kind? qualifier).getD .module

/-- The prefix is bound. -/
def Scope.Binds (c : Scope) (qualifier : String) : Prop := (c.kind? qualifier).isSome = true

/-- Phrases with a comma between them. -/
def listed {α : Type} (tokens : α → List Token) : List α → List Token
  | [] => []
  | [x] => tokens x
  | x :: y :: rest => tokens x ++ .symbol .comma :: listed tokens (y :: rest)

theorem mem_listed_of_mem {α : Type} {tokens : α → List Token} {xs : List α} {x : α} {u : Token}
    (hx : x ∈ xs) (hu : u ∈ tokens x) : u ∈ listed tokens xs := by
  match xs with
  | [] => simp at hx
  | [y] =>
      obtain rfl : x = y := by simpa using hx
      exact hu
  | y :: z :: ys =>
      obtain rfl | hx := List.mem_cons.mp hx
      · exact List.mem_append_left _ hu
      · exact List.mem_append_right _ (List.mem_cons_of_mem _ (mem_listed_of_mem hx hu))

/-! ## Terms -/

/-- A mark in front of a reference that says what it points at. -/
inductive Marker where
  | locator
  | item
  deriving DecidableEq, Repr

namespace Marker

/-- The mark as it is written. -/
def symbol : Marker → Symbol
  | locator => .eq
  | item => .hat

/-- What a marked reference points at. -/
def kind : Marker → ReferenceKind
  | locator => .subjectLocator
  | item => .itemIdentifier

/-- The kind of term that a marked IRI is. -/
def atomKind : Marker → AtomKind
  | locator => .subjectLocator
  | item => .itemIdentifier

/-- The tokens of a mark that may be missing. -/
def tokens : Option Marker → List Token
  | none => []
  | some m => [.symbol m.symbol]

/-- The kind of a reference: that of its mark, or else the one given. -/
def kindOr (m : Option Marker) (kind : ReferenceKind) : ReferenceKind :=
  (m.map Marker.kind).getD kind

end Marker

/-- A term, or the name of a predicate. -/
inductive Term where
  | atom (kind : AtomKind) (value : String)
  | literal (value : String) (datatype : Datatype)
  | qname (marker : Option Marker) (name : QualifiedName)
  | curie (marker : Option Marker) (name : QualifiedName)
  | iri (marker : Marker) (value : String)
  deriving DecidableEq, Repr

/-- The token of a datatype. -/
def datatypeToken : Datatype → Token
  | .iri text => .atom .iri text
  | .qname name => .qname name

/-- In a name between brackets a module prefix counts as one of subject identifiers. -/
def bracketKind (kind : ReferenceKind) : ReferenceKind :=
  if kind = .module then .subjectIdentifier else kind

namespace Term

/-- The tokens of a term. -/
def tokens : Term → List Token
  | atom kind value => [.atom kind value]
  | literal value datatype => [.atom .string value, .symbol .hatHat, datatypeToken datatype]
  | qname marker name => Marker.tokens marker ++ [.qname name]
  | curie marker name => Marker.tokens marker ++ [.curie name]
  | iri marker value => [.symbol marker.symbol, .atom .iri value]

theorem tokens_ne_nil (t : Term) : t.tokens ≠ [] := by
  cases t <;> simp [tokens]

/-- What a term is reported as. -/
def leaf (c : Scope) : Term → Leaf
  | atom kind value => .atom kind value
  | literal value datatype => .literal value datatype
  | qname marker name => .qname (Marker.kindOr marker (c.kind name.qualifier)) name
  | curie marker name => .curie (Marker.kindOr marker (bracketKind (c.kind name.qualifier))) name
  | iri marker value => .atom marker.atomKind value

/-- The term needs nothing that only tolog+ has. -/
def IsPlain : Term → Prop
  | atom _ _ => True
  | literal _ _ => True
  | qname marker _ => marker = none
  | curie _ _ => False
  | iri _ _ => False

/-- The term can be an argument: its prefix is bound, and not to a module unless brackets say so. -/
def Refers (c : Scope) : Term → Prop
  | atom _ _ => True
  | literal _ (.iri _) => True
  | literal _ (.qname name) => c.Binds name.qualifier
  | qname _ name => c.Binds name.qualifier ∧ c.kind name.qualifier ≠ .module
  | curie _ name => c.Binds name.qualifier
  | iri _ _ => True

/-- The term can be the name of a predicate. -/
def Names (c : Scope) : Term → Prop
  | atom kind _ =>
    kind = .identifier ∨ kind = .iri ∨ kind = .subjectIdentifier ∨ kind = .subjectLocator ∨
      kind = .itemIdentifier
  | literal _ _ => False
  | qname marker name =>
    c.Binds name.qualifier ∧ (c.kind name.qualifier = .module → marker = none)
  | curie _ name => c.Binds name.qualifier
  | iri _ _ => True

/-- The term is over in front of these tokens: a string that is not typed has no `^^` behind it. -/
def Ends (rest : List Token) : Term → Prop
  | atom .string _ => rest.head? ≠ some (.symbol .hatHat)
  | _ => True

/-- How a predicate name is written. -/
def form (c : Scope) : Term → NameForm
  | atom .identifier name => .plain name
  | qname none name => if c.kind name.qualifier = .module then .module else .reference
  | _ => .dynamic

end Term

/-! ## Calls -/

/-- A player and the type of its role. -/
structure Role where
  player : Term
  type : Term
  deriving DecidableEq, Repr

namespace Role

/-- The tokens of a role. -/
def tokens (r : Role) : List Token := r.player.tokens ++ .symbol .colon :: r.type.tokens

/-- The outline of a role. -/
def outline (c : Scope) (r : Role) : Outline :=
  .within .pair [.within .player [.leaf (r.player.leaf c)], .within .roleType [.leaf (r.type.leaf c)]]

end Role

/-- A call of a predicate, with arguments or with roles. -/
inductive Call where
  | plain (name : Term) (arguments : List Term)
  | association (name : Term) (roles : List Role)
  deriving DecidableEq, Repr

namespace Call

/-- The name that is called. -/
def name : Call → Term
  | plain name _ => name
  | association name _ => name

/-- The terms of a call behind its name. -/
def terms : Call → List Term
  | plain _ arguments => arguments
  | association _ roles => roles.flatMap fun r => [r.player, r.type]

/-- The tokens of a call. -/
def tokens : Call → List Token
  | plain name arguments =>
    name.tokens ++ .symbol .lparen :: (listed Term.tokens arguments ++ [.symbol .rparen])
  | association name roles =>
    name.tokens ++ .symbol .lparen :: (listed Role.tokens roles ++ [.symbol .rparen])

/-- The outline of a name. -/
def calleeOutline (c : Scope) (name : Term) : Outline := .within .callee [.leaf (name.leaf c)]

/-- The outline of a call. -/
def outline (c : Scope) : Call → Outline
  | plain name arguments =>
    let items := arguments.map fun a => Outline.leaf (a.leaf c)
    match callContainer c.rules (name.form c) arguments.length with
    | .builtin builtin hints => .within (.builtin builtin hints) items
    | container => .within container (calleeOutline c name :: items)
  | association name roles => .within .association (calleeOutline c name :: roles.map (Role.outline c))

theorem outline_builtin {c : Scope} {name : Term} {arguments : List Term} {builtin : String}
    {hints : List Hint}
    (h : callContainer c.rules (name.form c) arguments.length = .builtin builtin hints) :
    (plain name arguments).outline c =
      .within (.builtin builtin hints) (arguments.map fun a => .leaf (a.leaf c)) := by
  simp [outline, h]

theorem outline_called {c : Scope} {name : Term} {arguments : List Term}
    (h : ∀ builtin hints,
      callContainer c.rules (name.form c) arguments.length ≠ .builtin builtin hints) :
    (plain name arguments).outline c =
      .within (callContainer c.rules (name.form c) arguments.length)
        (calleeOutline c name :: arguments.map fun a => .leaf (a.leaf c)) := by
  unfold outline
  dsimp only
  split
  · next builtin hints hbuiltin => exact absurd hbuiltin (h builtin hints)
  · rfl

/-- How the container of a call is settled. -/
theorem callContainer_cases (rules : List String) (form : NameForm) (arity : Nat) :
    (∃ name hints, form = .plain name ∧ callContainer rules form arity = .builtin name hints) ∨
      callContainer rules form arity = .call ∨ callContainer rules form arity = .dynamic := by
  unfold callContainer
  split
  · next name =>
    split
    · exact .inr (.inl rfl)
    · split
      · exact .inl ⟨_, _, rfl, rfl⟩
      · split <;> simp
  · exact .inr (.inl rfl)
  · split <;> simp
  · exact .inr (.inr rfl)

/-- The call needs nothing that only tolog+ has. -/
def IsPlain (call : Call) : Prop := call.name.IsPlain ∧ ∀ t ∈ call.terms, t.IsPlain

/-- Every name in the call refers to something, and an association has roles. -/
def Refers (c : Scope) (call : Call) : Prop :=
  call.name.Names c ∧ (∀ t ∈ call.terms, t.Refers c) ∧
    ∀ name, call ≠ association name []

end Call

/-! ## Clauses -/

mutual

/-- A clause. -/
inductive Clause where
  | negation (inner : Clauses)
  | alternatives (branches : Branches)
  | comparison (operator : Comparison) (left right : Term)
  | call (call : Call)

/-- One or more clauses. -/
inductive Clauses where
  | last (clause : Clause)
  | cons (clause : Clause) (rest : Clauses)

/-- One or more branches; between two of them a bar says whether the later one is cut short. -/
inductive Branches where
  | last (inner : Clauses)
  | cons (inner : Clauses) (shortCircuit : Bool) (rest : Branches)

end

/-- The mark of a comparison operator. -/
def operatorSymbol : Comparison → Symbol
  | .eq => .eq
  | .ne => .ne
  | .lt => .lt
  | .le => .le
  | .gt => .gt
  | .ge => .ge

/-- The bar in front of a branch. -/
def barSymbol (shortCircuit : Bool) : Symbol := if shortCircuit then .barBar else .bar

mutual

/-- The tokens of a clause. -/
def Clause.tokens : Clause → List Token
  | .negation inner =>
    .keyword .not :: .symbol .lparen :: (inner.tokens ++ [.symbol .rparen])
  | .alternatives branches => .symbol .lbrace :: (branches.tokens ++ [.symbol .rbrace])
  | .comparison operator left right =>
    left.tokens ++ .symbol (operatorSymbol operator) :: right.tokens
  | .call call => call.tokens

/-- The tokens of clauses. -/
def Clauses.tokens : Clauses → List Token
  | .last clause => clause.tokens
  | .cons clause rest => clause.tokens ++ .symbol .comma :: rest.tokens

/-- The tokens of branches. -/
def Branches.tokens : Branches → List Token
  | .last inner => inner.tokens
  | .cons inner shortCircuit rest =>
    inner.tokens ++ .symbol (barSymbol shortCircuit) :: rest.tokens

end

mutual

/-- The outline of a clause. -/
def Clause.outline (c : Scope) : Clause → Outline
  | .negation inner => .within .negation (inner.outlines c)
  | .alternatives branches => .within .alternatives (branches.outlines c false)
  | .comparison operator left right =>
    .within (.comparison operator)
      [.within .left [.leaf (left.leaf c)], .within .right [.leaf (right.leaf c)]]
  | .call call => call.outline c

/-- The outlines of clauses. -/
def Clauses.outlines (c : Scope) : Clauses → List Outline
  | .last clause => [clause.outline c]
  | .cons clause rest => clause.outline c :: rest.outlines c

/-- The outlines of branches, the first of which is cut short or not. -/
def Branches.outlines (c : Scope) (shortCircuit : Bool) : Branches → List Outline
  | .last inner => [.within (.branch shortCircuit) (inner.outlines c)]
  | .cons inner next rest =>
    .within (.branch shortCircuit) (inner.outlines c) :: rest.outlines c next

end

mutual

/-- The clause needs nothing that only tolog+ has. -/
def Clause.IsPlain : Clause → Prop
  | .negation inner => inner.IsPlain
  | .alternatives branches => branches.IsPlain
  | .comparison _ _ _ => False
  | .call call => call.IsPlain

/-- The clauses need nothing that only tolog+ has. -/
def Clauses.IsPlain : Clauses → Prop
  | .last clause => clause.IsPlain
  | .cons clause rest => clause.IsPlain ∧ rest.IsPlain

/-- The branches need nothing that only tolog+ has. -/
def Branches.IsPlain : Branches → Prop
  | .last inner => inner.IsPlain
  | .cons inner _ rest => inner.IsPlain ∧ rest.IsPlain

end

mutual

/-- Every name in the clause refers to something. -/
def Clause.Refers (c : Scope) : Clause → Prop
  | .negation inner => inner.Refers c
  | .alternatives branches => branches.Refers c
  | .comparison _ left right => left.Refers c ∧ right.Refers c
  | .call call => call.Refers c

/-- Every name in the clauses refers to something. -/
def Clauses.Refers (c : Scope) : Clauses → Prop
  | .last clause => clause.Refers c
  | .cons clause rest => clause.Refers c ∧ rest.Refers c

/-- Every name in the branches refers to something. -/
def Branches.Refers (c : Scope) : Branches → Prop
  | .last inner => inner.Refers c
  | .cons inner _ rest => inner.Refers c ∧ rest.Refers c

end

mutual

/-- How deep clauses are nested in the clause. -/
def Clause.depth : Clause → Nat
  | .negation inner => inner.depth + 1
  | .alternatives branches => branches.depth + 1
  | .comparison _ _ _ => 0
  | .call _ => 0

/-- How deep clauses are nested in the clauses. -/
def Clauses.depth : Clauses → Nat
  | .last clause => clause.depth
  | .cons clause rest => max clause.depth rest.depth

/-- How deep clauses are nested in the branches. -/
def Branches.depth : Branches → Nat
  | .last inner => inner.depth
  | .cons inner _ rest => max inner.depth rest.depth

end

/-- How many clauses there are. -/
def Clauses.length : Clauses → Nat
  | .last _ => 1
  | .cons _ rest => rest.length + 1

/-- How many branches there are. -/
def Branches.length : Branches → Nat
  | .last _ => 1
  | .cons _ _ rest => rest.length + 1

mutual

theorem Clause.depth_le : ∀ x : Clause, x.depth ≤ x.tokens.length
  | .negation inner => by
    have := inner.depth_le
    simp only [Clause.depth, Clause.tokens, List.length_cons, List.length_append]
    omega
  | .alternatives branches => by
    have := branches.depth_le
    simp only [Clause.depth, Clause.tokens, List.length_cons, List.length_append]
    omega
  | .comparison _ _ _ => by simp [Clause.depth]
  | .call _ => by simp [Clause.depth]

theorem Clauses.depth_le : ∀ xs : Clauses, xs.depth ≤ xs.tokens.length
  | .last clause => clause.depth_le
  | .cons clause rest => by
    have := clause.depth_le
    have := rest.depth_le
    simp only [Clauses.depth, Clauses.tokens, List.length_cons, List.length_append]
    omega

theorem Branches.depth_le : ∀ bs : Branches, bs.depth ≤ bs.tokens.length
  | .last inner => inner.depth_le
  | .cons inner _ rest => by
    have := inner.depth_le
    have := rest.depth_le
    simp only [Branches.depth, Branches.tokens, List.length_cons, List.length_append]
    omega

end

theorem Clauses.length_pos (xs : Clauses) : 0 < xs.length := by
  cases xs <;> simp [length]

theorem Branches.length_pos (bs : Branches) : 0 < bs.length := by
  cases bs <;> simp [length]

theorem Clauses.length_le : ∀ xs : Clauses, xs.length ≤ xs.tokens.length + 1
  | .last _ => by simp [length]
  | .cons _ rest => by
    have := rest.length_le
    simp only [length, tokens, List.length_cons, List.length_append]
    omega

theorem Branches.length_le : ∀ bs : Branches, bs.length ≤ bs.tokens.length + 1
  | .last _ => by simp [length]
  | .cons _ _ rest => by
    have := rest.length_le
    simp only [length, tokens, List.length_cons, List.length_append]
    omega

/-! ## Categories -/

/-- What is known of the phrases of one category. -/
structure Category (α : Type) where
  tokens : α → List Token
  outlines : Scope → α → List Outline
  Refers : Scope → α → Prop
  IsPlain : α → Prop

namespace Category

/-- What a phrase is reported as. -/
def events {α : Type} (k : Category α) (c : Scope) (x : α) : List Event :=
  Outline.eventsAll (k.outlines c x)

/-- Phrases of a category with a comma between them. -/
def list {α : Type} (k : Category α) : Category (List α) where
  tokens := listed k.tokens
  outlines c xs := xs.flatMap (k.outlines c)
  Refers c xs := xs ≠ [] ∧ ∀ x ∈ xs, k.Refers c x
  IsPlain xs := ∀ x ∈ xs, k.IsPlain x

/-- Phrases of a category inside a container. -/
def inside {α : Type} (k : Category α) (container : Container) : Category α where
  tokens := k.tokens
  outlines c x := [.within container (k.outlines c x)]
  Refers := k.Refers
  IsPlain := k.IsPlain

/-- Terms as arguments. -/
def term : Category Term where
  tokens := Term.tokens
  outlines c t := [.leaf (t.leaf c)]
  Refers := Term.Refers
  IsPlain := Term.IsPlain

/-- The roles of an association. -/
def role : Category Role where
  tokens := Role.tokens
  outlines c r := [r.outline c]
  Refers c r := r.player.Refers c ∧ r.type.Refers c
  IsPlain r := r.player.IsPlain ∧ r.type.IsPlain

/-- Calls. -/
def call : Category Call where
  tokens := Call.tokens
  outlines c call := [call.outline c]
  Refers := Call.Refers
  IsPlain := Call.IsPlain

/-- Single clauses. -/
def clause : Category Clause where
  tokens := Clause.tokens
  outlines c clause := [clause.outline c]
  Refers := Clause.Refers
  IsPlain := Clause.IsPlain

/-- Lists of clauses. -/
def clauses : Category Clauses where
  tokens := Clauses.tokens
  outlines c clauses := clauses.outlines c
  Refers := Clauses.Refers
  IsPlain := Clauses.IsPlain

/-- Branches, the first of which is cut short or not. -/
def branches (shortCircuit : Bool) : Category Branches where
  tokens := Branches.tokens
  outlines c branches := branches.outlines c shortCircuit
  Refers := Branches.Refers
  IsPlain := Branches.IsPlain

end Category

end TopicQuery.Phrase
