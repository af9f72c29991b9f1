import TopicQuery.Grammar.Document

/-!
Properties that all recognizers of the grammar have because its steps have them
and putting steps together keeps them. The recognizers of the grammar are gone
through here once, from tokens to documents; a property only has to be checked on
the steps.
-/

namespace TopicQuery.Grammar

open Parser

/-- The state with tolog+ switched on. -/
def State.extended (s : State) : State := { s with plus := true }

/--
A property of recognizers that the steps without events have and that is kept when they are
put together. Only `requirePlus` may ask for the dialect; other looks at the state and
changes of it do not depend on it.
-/
structure Quiet (P : ∀ {α : Type}, Parser α → Prop) : Prop where
  value : ∀ {α : Type} (a : α), P (pure a)
  fail : ∀ {α : Type} (fault : ParseFault), P (fail fault : Parser α)
  bind : ∀ {α β : Type} {p : Parser α} {f : α → Parser β}, P p → (∀ a, P (f a)) → P (p >>= f)
  read : ∀ {α : Type} {f : State → Parser α}, (∀ s, P (f s)) → (∀ s, f s.extended = f s) →
    P (state >>= f)
  change : ∀ {f : State → State}, (∀ s, f s.extended = (f s).extended) → P (change f)
  requirePlus : ∀ t what, P (requirePlus t what)

/-- A quiet property that the steps with events have as well. -/
structure Compositional (P : ∀ {α : Type}, Parser α → Prop) : Prop extends Quiet @P where
  leaf : ∀ item, P (emit (.leaf item))
  within : ∀ c {p : Parser Unit}, P p → P (within c p)

/-! ## Recognizers that report nothing -/

namespace Quiet

variable {P : ∀ {α : Type}, Parser α → Prop} (h : Quiet P)

include h

/-! ### Tokens -/

theorem look {α : Type} (view : List PlacedToken → View α) : P (look view) := by
  refine h.read (fun s => ?_) fun s => rfl
  dsimp only
  split
  · exact h.fail _
  · exact h.value _

theorem peekAt (n : Nat) : P (peekAt n) := h.look _

theorem peek : P peek := h.peekAt _

theorem take? : P take? := by
  refine h.bind (h.look _) fun first => ?_
  split
  · exact h.value _
  · exact h.bind (h.change fun _ => rfl) fun _ => h.value _

theorem failAt {α : Type} (t : PlacedToken) (fault : GrammarFault) :
    P (failAt t fault : Parser α) := h.fail _

theorem failExpected {α : Type} (t : PlacedToken) (what : String) :
    P (failExpected t what : Parser α) := h.fail _

theorem failAtEnd {α : Type} (what : String) : P (failAtEnd what : Parser α) :=
  h.read (fun _ => h.fail _) fun _ => rfl

theorem take (what : String) : P (take what) := by
  refine h.bind h.take? fun first => ?_
  split
  · exact h.value _
  · exact h.failAtEnd _

theorem accept (token : Token) : P (accept token) := by
  refine h.bind h.peek fun first => ?_
  split
  · exact h.bind h.take? fun _ => h.value _
  · exact h.value _

theorem expect (token : Token) : P (expect token) := by
  refine h.bind (h.take _) fun t => ?_
  split
  · exact h.value _
  · exact h.failExpected _ _

theorem takeAtom (kind : AtomKind) (what : String) : P (takeAtom kind what) := by
  refine h.bind (h.take _) fun t => ?_
  split
  · split
    · exact h.value _
    · exact h.failExpected _ _
  · exact h.failExpected _ _

theorem kindOf (t : PlacedToken) (qualifier : String) : P (kindOf t qualifier) := by
  refine h.read (fun s => ?_) fun s => rfl
  split
  · exact h.value _
  · exact h.failAt _ _

/-! ### Terms -/

theorem curieLeaf (t : PlacedToken) (name : QualifiedName) (marker : Option ReferenceKind) :
    P (curieLeaf t name marker) :=
  h.bind (h.requirePlus _ _) fun _ => h.bind (h.kindOf _ _) fun _ => h.value _

theorem qnameLeaf (t : PlacedToken) (name : QualifiedName) (marker : Option ReferenceKind) :
    P (qnameLeaf t name marker) := by
  refine h.bind (h.kindOf _ _) fun kind => ?_
  split
  · exact h.failAt _ _
  · exact h.value _

theorem datatype : P datatype := by
  refine h.bind (h.take _) fun t => ?_
  split
  · exact h.value _
  · exact h.bind (h.kindOf _ _) fun _ => h.value _
  · exact h.failExpected _ _

theorem marked (marker : ReferenceKind) : P (marked marker) := by
  refine h.bind (h.take _) fun t => ?_
  split
  · exact h.value _
  · exact h.qnameLeaf _ _ _
  · exact h.curieLeaf _ _ _
  · exact h.failExpected _ _

theorem termLeaf (t : PlacedToken) : P (termLeaf t) := by
  unfold Grammar.termLeaf
  split
  · refine h.bind (h.accept _) fun typed => ?_
    split
    · exact h.bind h.datatype fun _ => h.value _
    · exact h.value _
  · exact h.value _
  · exact h.qnameLeaf _ _ _
  · exact h.curieLeaf _ _ _
  · split
    · exact h.bind (h.requirePlus _ _) fun _ => h.marked _
    · exact h.failExpected _ _

theorem comparisonAhead : P comparisonAhead := by
  refine h.bind (h.look _) fun size => ?_
  split
  · exact h.value _
  · refine h.bind (h.peekAt _) fun mark => ?_
    split
    · exact h.value _
    · exact h.value _

/-! ### Clauses -/

theorem unmarked (t : PlacedToken) (marker : Option ReferenceKind) : P (unmarked t marker) := by
  unfold Grammar.unmarked
  split
  · exact h.failExpected _ _
  · exact h.value _

theorem calleeOf (t : PlacedToken) (marker : Option ReferenceKind) : P (calleeOf t marker) := by
  unfold Grammar.calleeOf
  split
  · exact h.bind (h.unmarked _ _) fun _ => h.value _
  · refine h.bind (h.kindOf _ _) fun kind => ?_
    split
    · exact h.failAt _ _
    · exact h.value _
    · exact h.value _
    · exact h.value _
  · exact h.bind (h.curieLeaf _ _ _) fun _ => h.value _
  · exact h.value _
  · split
    · exact h.bind (h.unmarked _ _) fun _ => h.value _
    · exact h.failExpected _ _
  · exact h.failExpected _ _

theorem calleeMarker : P calleeMarker := by
  refine h.bind h.peek fun first => ?_
  split
  · exact h.value _
  · exact h.bind (h.take _) fun _ => h.bind (h.requirePlus _ _) fun _ => h.value _

/-! ### Statements -/

theorem unsigned (what : String) : P (unsigned what) := by
  refine h.bind (h.take _) fun t => ?_
  split
  · split
    · exact h.value _
    · exact h.failExpected _ _
  · exact h.failExpected _ _

theorem bound (word : Keyword) (what : String) : P (bound word what) := by
  refine h.bind (h.accept _) fun present => ?_
  split
  · exact h.bind (h.unsigned _) fun _ => h.value _
  · exact h.value _

/-! ### Directives, rules and documents -/

theorem versionText (t : PlacedToken) (what : String) : P (versionText t what) := by
  unfold Grammar.versionText
  split
  · exact h.value _
  · exact h.value _
  · exact h.failExpected _ _

/-- A version switches tolog+ on or leaves the dialect as it is, so it keeps tolog+ on. -/
theorem versionDirective : P versionDirective := by
  refine h.bind (h.take _) fun t => h.bind (h.versionText _ _) fun version => ?_
  split
  · exact h.bind (h.change fun _ => rfl) fun _ => h.change fun _ => rfl
  · exact h.failAt _ _

theorem locationText (t : PlacedToken) (what : String) : P (locationText t what) := by
  unfold Grammar.locationText
  split
  · exact h.value _
  · exact h.value _
  · exact h.failExpected _ _

theorem atRule : P atRule := by
  refine h.bind h.peek fun first => ?_
  split
  · refine h.bind (h.look _) fun shape => ?_
    split
    · exact h.value _
    · exact h.value _
  · exact h.value _

end Quiet

/-! ## Recognizers that report events -/

namespace Compositional

variable {P : ∀ {α : Type}, Parser α → Prop} (h : Compositional P)

include h

/-! ### Tokens -/

theorem itemsUpTo {item : Parser Unit} (hitem : P item) (n : Nat) : P (itemsUpTo item n) := by
  induction n with
  | zero => exact hitem
  | succ n ih =>
      refine h.bind hitem fun _ => h.bind (h.accept _) fun more => ?_
      split
      · exact ih
      · exact h.value _

theorem items {item : Parser Unit} (hitem : P item) : P (items item) :=
  h.read (fun _ => h.itemsUpTo hitem _) fun _ => rfl

/-! ### Terms -/

theorem term : P term := h.bind (h.take _) fun t => h.bind (h.termLeaf t) fun _ => h.leaf _

theorem iriTerm : P iriTerm := by
  refine h.bind (h.take _) fun t => ?_
  split
  · exact h.leaf _
  · exact h.bind (h.qnameLeaf _ _ _) fun _ => h.leaf _
  · exact h.failExpected _ _

/-! ### Clauses -/

theorem arguments : P arguments := by
  refine h.bind (h.expect _) fun _ => h.bind (h.accept _) fun closed => ?_
  split
  · exact h.value _
  · exact h.bind (h.items h.term) fun _ => h.expect _

theorem callee (name : Leaf) : P (callee name) := h.within _ (h.leaf _)

theorem associationCall (name : Leaf) : P (associationCall name) := by
  refine h.within _ (h.bind (h.callee _) fun _ => h.bind (h.expect _) fun _ => ?_)
  refine h.bind (h.items (h.within _ ?_)) fun _ => h.expect _
  exact h.bind (h.within _ h.term) fun _ => h.bind (h.expect _) fun _ => h.within _ h.term

theorem plainCall (container : Container) (name : Leaf) : P (plainCall container name) :=
  h.within _ (h.bind (h.callee _) fun _ => h.arguments)

theorem predicate : P predicate := by
  refine h.bind h.calleeMarker fun marker => h.bind (h.take _) fun t =>
    h.bind (h.look _) fun shape => ?_
  split
  · refine h.bind h.take? fun found => ?_
    split
    · exact h.failExpected _ _
    · exact h.failAtEnd _
  · refine h.bind (h.calleeOf _ _) fun callee => ?_
    dsimp only
    split
    · exact h.associationCall _
    · refine h.read (fun s => ?_) fun s => rfl
      split
      · exact h.within _ h.arguments
      · exact h.plainCall _ _

theorem comparison (operator : Comparison) : P (comparison operator) :=
  h.within _ (h.bind (h.within _ h.term) fun _ => h.bind (h.take _) fun _ =>
    h.bind (h.requirePlus _ _) fun _ => h.within _ h.term)

theorem branchesUpTo {clauses : Parser Unit} (hclauses : P clauses) (n : Nat) :
    ∀ shortCircuit, P (branchesUpTo clauses shortCircuit n) := by
  induction n with
  | zero => exact fun _ => h.within _ hclauses
  | succ n ih =>
      intro shortCircuit
      refine h.bind (h.within _ hclauses) fun _ => h.bind h.peek fun bar => ?_
      split
      · exact h.bind h.take? fun _ => ih _
      · exact h.bind h.take? fun _ => ih _
      · exact h.value _

theorem clause {clauses : Parser Unit} (hclauses : P clauses) : P (clause clauses) := by
  refine h.bind h.peek fun first => ?_
  split
  · exact h.failAtEnd _
  · exact h.bind h.take? fun _ => h.within _ (h.bind (h.expect _) fun _ =>
      h.bind hclauses fun _ => h.expect _)
  · refine h.bind h.take? fun _ => h.within _ (h.read (fun s => ?_) fun s => rfl)
    exact h.bind (h.branchesUpTo hclauses _ _) fun _ => h.expect _
  · refine h.bind h.comparisonAhead fun operator => ?_
    split
    · exact h.comparison _
    · exact h.predicate

theorem clausesWithin (depth : Nat) : P (clausesWithin depth) := by
  induction depth with
  | zero => exact h.failAtEnd _
  | succ depth ih => exact h.items (h.clause ih)

theorem clauses : P clauses := h.read (fun _ => h.clausesWithin _) fun _ => rfl

/-! ### Statements -/

theorem sortKey : P sortKey := by
  refine h.bind (h.takeAtom _ _) fun name => h.bind (h.accept _) fun descending => ?_
  split
  · exact h.leaf _
  · exact h.bind (h.accept _) fun _ => h.leaf _

theorem emitBound (item : UInt64 → Leaf) (n : Option UInt64) : P (emitBound item n) := by
  unfold Grammar.emitBound
  split
  · exact h.leaf _
  · exact h.value _

theorem sorting : P sorting := by
  refine h.bind (h.accept _) fun present => ?_
  split
  · exact h.bind (h.expect _) fun _ => h.within _ (h.items h.sortKey)
  · exact h.value _

theorem extent : P extent := by
  refine h.bind (h.bound _ _) fun limit => h.bind (h.bound _ _) fun offset => ?_
  split
  · exact h.within _ (h.bind (h.emitBound _ _) fun _ => h.emitBound _ _)
  · exact h.value _

theorem conditionAndTail : P conditionAndTail :=
  h.bind (h.within _ h.clauses) fun _ => h.bind h.sorting fun _ => h.extent

theorem optionalCondition : P optionalCondition := by
  refine h.bind (h.accept _) fun present => ?_
  split
  · exact h.conditionAndTail
  · refine h.bind (h.accept _) fun present => ?_
    split
    · exact h.conditionAndTail
    · exact h.value _

theorem projection : P projection := by
  refine h.bind (h.take _) fun t => ?_
  split
  · exact h.leaf _
  · exact h.bind (h.expect _) fun _ => h.bind (h.takeAtom _ _) fun _ =>
      h.bind (h.expect _) fun _ => h.leaf _
  · exact h.failExpected _ _

theorem select : P select := by
  refine h.bind h.take? fun _ => h.within _ ?_
  refine h.bind (h.items h.projection) fun _ => h.bind (h.take _) fun t => ?_
  split
  · exact h.conditionAndTail
  · exact h.failExpected _ _

theorem mentioned (names : List String) :
    P (names.forM fun name => emit (.leaf (.atom .var name))) := by
  induction names with
  | nil => exact h.value _
  | cons name names ih => exact h.bind (h.leaf _) fun _ => ih

theorem insert : P insert := by
  refine h.bind h.take? fun _ => h.within _ (h.bind (h.take _) fun t => ?_)
  split
  · exact h.bind (h.within _ (h.bind (h.mentioned _) fun _ => h.leaf _)) fun _ =>
      h.optionalCondition
  · exact h.bind (h.failExpected _ _) fun _ => h.optionalCondition

theorem update : P update :=
  h.bind h.take? fun _ => h.within _ (h.bind (h.items h.predicate) fun _ => h.optionalCondition)

theorem deletion : P deletion := by
  refine h.bind (h.peekAt _) fun second => ?_
  split
  · exact h.predicate
  · exact h.term

theorem delete : P delete :=
  h.bind h.take? fun _ => h.within _ (h.bind (h.items h.deletion) fun _ => h.optionalCondition)

theorem merge : P merge :=
  h.bind h.take? fun _ => h.within _ (h.bind h.term fun _ => h.bind (h.expect _) fun _ =>
    h.bind h.term fun _ => h.optionalCondition)

theorem load : P load := by
  refine h.bind (h.take _) fun _ => h.bind (h.requirePlus _ _) fun _ =>
    h.within _ (h.bind h.iriTerm fun _ => h.bind (h.accept _) fun into => ?_)
  split
  · exact h.within _ (h.items h.iriTerm)
  · exact h.value _

theorem singleIri (what : String) (container : Container) : P (singleIri what container) :=
  h.bind (h.take _) fun _ => h.bind (h.requirePlus _ _) fun _ => h.within _ h.iriTerm

theorem statement : P statement := by
  refine h.bind h.peek fun first => ?_
  split
  · exact h.select
  · exact h.insert
  · exact h.update
  · exact h.delete
  · exact h.merge
  · exact h.load
  · exact h.singleIri _ _
  · exact h.singleIri _ _
  · exact h.within _ h.conditionAndTail

/-! ### Directives, rules and documents -/

theorem bindPrefix (t : PlacedToken) (binding : Prefixed) : P (Grammar.bind t binding) := by
  refine h.bind (h.change fun _ => rfl) fun _ => h.read (fun s => ?_) fun s => rfl
  split
  · split
    · exact h.value _
    · exact h.failAt _ _
  · exact h.bind (h.change fun _ => rfl) fun _ => h.leaf _

theorem baseDirective (t : PlacedToken) : P (baseDirective t) := by
  refine h.read (fun s => ?_) fun s => rfl
  split
  · exact h.failAt _ _
  · exact h.bind (h.takeAtom _ _) fun _ => h.bind (h.change fun _ => rfl) fun _ => h.leaf _

theorem bindingDirective (t : PlacedToken) (what : String) (kind : ReferenceKind) :
    P (bindingDirective t what kind) :=
  h.bind (h.takeAtom _ _) fun _ => h.bind (h.takeAtom _ _) fun _ => h.bindPrefix _ _

theorem percentDirective (t : PlacedToken) (name : String) : P (percentDirective t name) := by
  unfold Grammar.percentDirective
  split
  · exact h.baseDirective _
  split
  · exact h.versionDirective
  split
  · exact h.bindingDirective _ _ _
  split
  · exact h.bindingDirective _ _ _
  · exact h.failAt _ _

theorem usingDirective : P usingDirective := by
  refine h.bind (h.take _) fun t => h.bind (h.takeAtom _ _) fun identifier =>
    h.bind (h.expect _) fun _ => h.bind (h.take _) fun reference => ?_
  dsimp only
  split
  · split
    · exact h.bindPrefix _ _
    · exact h.failExpected _ _
  · exact h.failExpected _ _

theorem importDirective : P importDirective :=
  h.bind (h.take _) fun _ => h.bind (h.take _) fun _ => h.bind (h.locationText _ _) fun _ =>
    h.bind (h.expect _) fun _ => h.bind (h.takeAtom _ _) fun _ => h.bindPrefix _ _

theorem directives (n : Nat) : P (directives n) := by
  induction n with
  | zero => exact h.value _
  | succ n ih =>
      refine h.bind h.peek fun first => ?_
      split
      · exact h.bind (h.take _) fun _ => h.bind (h.percentDirective _ _) fun _ => ih
      · exact h.bind h.usingDirective fun _ => ih
      · exact h.bind h.importDirective fun _ => ih
      · exact h.value _

theorem parameter : P parameter := by
  refine h.bind (h.take _) fun t => ?_
  split
  · exact h.leaf _
  · exact h.failExpected _ _

theorem parameters : P parameters := by
  refine h.bind (h.accept _) fun closed => ?_
  split
  · exact h.value _
  · exact h.bind (h.items h.parameter) fun _ => h.expect _

theorem rule : P rule :=
  h.bind (h.takeAtom _ _) fun _ => h.bind (h.expect _) fun _ =>
    h.within _ (h.bind h.parameters fun _ => h.bind (h.expect _) fun _ =>
      h.bind (h.within _ h.clauses) fun _ => h.expect _)

theorem rules (n : Nat) : P (rules n) := by
  induction n with
  | zero => exact h.value _
  | succ n ih =>
      refine h.bind h.atRule fun more => ?_
      split
      · exact h.bind h.rule fun _ => ih
      · exact h.value _

theorem optionalStatement : P optionalStatement := by
  refine h.bind h.peek fun first => ?_
  split
  · exact h.value _
  · exact h.value _
  · exact h.statement

theorem ending : P ending := by
  refine h.bind h.optionalStatement fun _ => h.bind (h.accept _) fun _ =>
    h.bind h.take? fun last => ?_
  split
  · exact h.failAt _ _
  · exact h.value _

/-- What a document reports inside its own container. -/
theorem content (n : Nat) :
    P (do Grammar.directives n; Grammar.rules n; Grammar.ending : Parser Unit) :=
  h.bind (h.directives _) fun _ => h.bind (h.rules _) fun _ => h.ending

theorem document : P document := h.read (fun _ => h.within _ (h.content _)) fun _ => rfl

end Compositional

end TopicQuery.Grammar
