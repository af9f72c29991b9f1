import TopicQuery.Proofs.Phrase.Clause
import TopicQuery.Proofs.Run

/-!
Phrases of statements, rules, directives and whole texts. Directives change what
is settled for the rest of the text, so what a text is reported as depends on
what they settle one after the other.
-/

namespace TopicQuery

/-- What the names in the rest of a text refer to. -/
def Grammar.Setting.scope (c : Grammar.Setting) : Phrase.Scope := ⟨c.rules, c.bindings⟩

@[simp] theorem Grammar.Setting.scope_rules (c : Grammar.Setting) : c.scope.rules = c.rules := rfl

@[simp] theorem Grammar.Setting.scope_bindings (c : Grammar.Setting) :
    c.scope.bindings = c.bindings := rfl

namespace Phrase

open Grammar

/-! ## Order and extent -/

/-- How a sort direction is written. -/
inductive Direction where
  | bare
  | ascending
  | descending
  deriving DecidableEq, Repr

/-- A variable to sort by. -/
structure SortKey where
  name : String
  direction : Direction
  deriving DecidableEq, Repr

/-- The tokens of a sort direction. -/
def Direction.tokens : Direction → List Token
  | bare => []
  | ascending => [.keyword .asc]
  | descending => [.keyword .desc]

/-- A limit or an offset as it is written, and the number it stands for. -/
structure Bound where
  text : String
  number : UInt64
  deriving DecidableEq, Repr

/-- The text is one of the number. -/
def Bound.Reads (b : Bound) : Prop :=
  (Text.number? (b.text.toList.dropWhile (· == '+'))).bind Text.word64? = some b.number

/-- The tokens of a bound behind its word. -/
def Bound.tokens (word : Keyword) : Option Bound → List Token
  | none => []
  | some b => [.keyword word, .atom .integer b.text]

/-- The outline of a bound. -/
def Bound.outlines (item : UInt64 → Leaf) : Option Bound → List Outline
  | none => []
  | some b => [.leaf (item b.number)]

/-- The order and the extent of a result. -/
structure Tail where
  order : List SortKey
  limit : Option Bound
  offset : Option Bound
  deriving DecidableEq, Repr

namespace Category

/-- Variables to sort by. -/
def sortKey : Category SortKey where
  tokens k := .atom .var k.name :: k.direction.tokens
  outlines _ k := [.leaf (.order k.name (k.direction = .descending))]
  Refers _ _ := True
  IsPlain _ := True

end Category

namespace Tail

/-- The tokens of a sort order, if there is one. -/
def orderTokens : List SortKey → List Token
  | [] => []
  | keys => .keyword .order :: .keyword .byWord :: Category.sortKey.list.tokens keys

/-- The tokens of order and extent. -/
def tokens (t : Tail) : List Token :=
  orderTokens t.order ++ (Bound.tokens .limit t.limit ++ Bound.tokens .offset t.offset)

/-- The outline of a sort order, if there is one. -/
def orderOutlines (c : Scope) : List SortKey → List Outline
  | [] => []
  | keys => [.within .ordering (Category.sortKey.list.outlines c keys)]

/-- The outline of an extent, if there is one. -/
def extentOutlines : Option Bound → Option Bound → List Outline
  | none, none => []
  | limit, offset =>
    [.within .pagination (Bound.outlines .limit limit ++ Bound.outlines .offset offset)]

/-- The outlines of order and extent. -/
def outlines (c : Scope) (t : Tail) : List Outline :=
  orderOutlines c t.order ++ extentOutlines t.limit t.offset

/-- The numbers are those that are written. -/
def Reads (t : Tail) : Prop := (∀ b ∈ t.limit, b.Reads) ∧ ∀ b ∈ t.offset, b.Reads

end Tail

/-! ## Statements -/

/-- Clauses with the order and the extent of their result. -/
structure Condition where
  clauses : Clauses
  tail : Tail

/-- A condition is introduced by `from` or by `where`. -/
def conditionWord (isWhere : Bool) : Keyword := if isWhere then .whereWord else .fromWord

/-- What is selected: a variable, or the count of one. -/
inductive Projection where
  | variable (name : String)
  | count (name : String)
  deriving DecidableEq, Repr

/-- What is deleted: what a call says, or a term. -/
inductive Target where
  | call (call : Call)
  | term (term : Term)
  deriving DecidableEq, Repr

/-- The name of a call has no mark in front of it. -/
def Call.Unmarked (call : Call) : Prop := ∃ t, call.name.tokens = [t]

/-- The term is an IRI or a prefixed name without a mark or brackets. -/
def Term.IsIri : Term → Prop
  | .atom kind _ => kind = .iri
  | .qname marker _ => marker = none
  | _ => False

namespace Category

/-- Conditions with order and extent. -/
def condition : Category Condition where
  tokens x := x.clauses.tokens ++ x.tail.tokens
  outlines c x := .within .condition (x.clauses.outlines c) :: x.tail.outlines c
  Refers c x := x.clauses.Refers c ∧ x.tail.Reads
  IsPlain x := x.clauses.IsPlain

/-- Conditions behind a word, where there may be none. -/
def optionalCondition : Category (Option (Bool × Condition)) where
  tokens
    | none => []
    | some (isWhere, x) => .keyword (conditionWord isWhere) :: condition.tokens x
  outlines c x := (x.map fun x => condition.outlines c x.2).getD []
  Refers c x := ∀ y ∈ x, condition.Refers c y.2
  IsPlain x := ∀ y ∈ x, condition.IsPlain y.2

/-- What is selected. -/
def projection : Category Projection where
  tokens
    | .variable name => [.atom .var name]
    | .count name => [.keyword .count, .symbol .lparen, .atom .var name, .symbol .rparen]
  outlines _
    | .variable name => [.leaf (.atom .var name)]
    | .count name => [.leaf (.count name)]
  Refers _ _ := True
  IsPlain _ := True

/-- What is deleted. -/
def target : Category Target where
  tokens
    | .call call => call.tokens
    | .term t => t.tokens
  outlines c
    | .call call => [call.outline c]
    | .term t => [.leaf (t.leaf c)]
  Refers c
    | .call call => call.Refers c ∧ call.Unmarked
    | .term t => t.Refers c
  IsPlain
    | .call call => call.IsPlain
    | .term t => t.IsPlain

/-- Terms that name a topic map. -/
def iri : Category Term where
  tokens := Term.tokens
  outlines c t := [.leaf (t.leaf c)]
  Refers c t := t.Refers c ∧ t.IsIri
  IsPlain := Term.IsPlain

end Category

/-- What a statement changes. -/
inductive Change where
  | insert (content : String)
  | update (calls : List Call)
  | delete (targets : List Target)
  | merge (first second : Term)

namespace Change

/-- The container of a change. -/
def container : Change → Container
  | insert _ => .insert
  | update _ => .update
  | delete _ => .delete
  | merge _ _ => .merge

/-- The tokens of a change. -/
def tokens : Change → List Token
  | insert content => [.keyword .insert, .fragment content]
  | update calls => .keyword .update :: Category.call.list.tokens calls
  | delete targets => .keyword .delete :: Category.target.list.tokens targets
  | merge first second => .keyword .merge :: (first.tokens ++ .symbol .comma :: second.tokens)

/-- The outline of topic map content. -/
def contentOutline (content : String) : Outline :=
  .within .fragment ((Fragment.mentioned content).map (fun name => .leaf (.atom .var name)) ++
    [.leaf (.content content)])

/-- The outlines of what is changed. -/
def outlines (c : Scope) : Change → List Outline
  | insert content => [contentOutline content]
  | update calls => Category.call.list.outlines c calls
  | delete targets => Category.target.list.outlines c targets
  | merge first second => [.leaf (first.leaf c), .leaf (second.leaf c)]

/-- Every name in the change refers to something. -/
def Refers (c : Scope) : Change → Prop
  | insert _ => True
  | update calls => Category.call.list.Refers c calls
  | delete targets => Category.target.list.Refers c targets
  | merge first second => first.Refers c ∧ second.Refers c

/-- The change needs nothing that only tolog+ has. -/
def IsPlain : Change → Prop
  | insert _ => True
  | update calls => Category.call.list.IsPlain calls
  | delete targets => Category.target.list.IsPlain targets
  | merge first second => first.IsPlain ∧ second.IsPlain

end Change

/-- A statement. -/
inductive Statement where
  | select (projections : List Projection) (isWhere : Bool) (condition : Condition)
  | bare (condition : Condition)
  | change (change : Change) (condition : Option (Bool × Condition))
  | load (source : Term) (targets : List Term)
  | drop (source : Term)
  | create (source : Term)

namespace Category

/-- Where a document is loaded into, if that is said. -/
def intoTokens : List Term → List Token
  | [] => []
  | targets => .keyword .into :: iri.list.tokens targets

/-- The outline of where a document is loaded into, if that is said. -/
def intoOutlines (c : Scope) : List Term → List Outline
  | [] => []
  | targets => [.within .into (iri.list.outlines c targets)]

/-- Statements. -/
def statement : Category Statement where
  tokens
    | .select projections isWhere x =>
      .keyword .select ::
        (projection.list.tokens projections ++
          .keyword (conditionWord isWhere) :: condition.tokens x)
    | .bare x => condition.tokens x
    | .change change x => change.tokens ++ optionalCondition.tokens x
    | .load source targets => .keyword .load :: (source.tokens ++ intoTokens targets)
    | .drop source => .keyword .drop :: source.tokens
    | .create source => .keyword .create :: source.tokens
  outlines c
    | .select projections _ x =>
      [.within .select (projection.list.outlines c projections ++ condition.outlines c x)]
    | .bare x => [.within .select (condition.outlines c x)]
    | .change change x =>
      [.within change.container (change.outlines c ++ optionalCondition.outlines c x)]
    | .load source targets =>
      [.within .load (iri.outlines c source ++ intoOutlines c targets)]
    | .drop source => [.within .drop (iri.outlines c source)]
    | .create source => [.within .create (iri.outlines c source)]
  Refers c
    | .select projections _ x => projections ≠ [] ∧ condition.Refers c x
    | .bare x => condition.Refers c x
    | .change change x => change.Refers c ∧ optionalCondition.Refers c x
    | .load source targets => iri.Refers c source ∧ ∀ t ∈ targets, iri.Refers c t
    | .drop source => iri.Refers c source
    | .create source => iri.Refers c source
  IsPlain
    | .select _ _ x => condition.IsPlain x
    | .bare x => condition.IsPlain x
    | .change change x => change.IsPlain ∧ optionalCondition.IsPlain x
    | .load _ _ => False
    | .drop _ => False
    | .create _ => False

end Category

/-! ## Rules -/

/-- A rule. -/
structure Rule where
  name : String
  parameters : List String
  body : Clauses

namespace Category

/-- The parameters of rules. -/
def parameter : Category String where
  tokens v := [.atom .var v]
  outlines _ v := [.leaf (.atom .var v)]
  Refers _ _ := True
  IsPlain _ := True

/-- Rules. -/
def rule : Category Rule where
  tokens r :=
    .atom .identifier r.name :: .symbol .lparen ::
      (parameter.list.tokens r.parameters ++
        .symbol .rparen :: .symbol .implies :: (r.body.tokens ++ [.symbol .dot]))
  outlines c r :=
    [.within (.rule r.name)
      (parameter.list.outlines c r.parameters ++ [.within .body (r.body.outlines c)])]
  Refers c r := r.body.Refers c
  IsPlain r := r.body.IsPlain

end Category

/-! ## Directives -/

/-- How the binding of a prefix is written. -/
inductive Binder where
  | percentPrefix
  | percentImport
  | quoted (kind : AtomKind)
  | imported (isIri : Bool)
  deriving DecidableEq, Repr

/-- A directive. -/
inductive Directive where
  | base (iri : String)
  | version (kind : AtomKind) (text : String)
  | binding (binder : Binder) (binding : Prefixed)
  deriving DecidableEq, Repr

namespace Directive

/-- The tokens of a directive. -/
def tokens : Directive → List Token
  | base iri => [.directive "base", .atom .iri iri]
  | version kind text => [.directive "version", .atom kind text]
  | binding .percentPrefix b => [.directive "prefix", .atom .identifier b.identifier, .atom .iri b.iri]
  | binding .percentImport b => [.directive "import", .atom .identifier b.identifier, .atom .iri b.iri]
  | binding (.quoted kind) b =>
    [.keyword .usingWord, .atom .identifier b.identifier, .keyword .forWord, .atom kind b.iri]
  | binding (.imported isIri) b =>
    [.keyword .importWord, .atom (if isIri then .iri else .string) b.iri, .keyword .asWord,
      .atom .identifier b.identifier]

/-- What a prefix was bound to, if it was bound. -/
def bound? (c : Setting) (identifier : String) : Option Prefixed :=
  c.bindings.find? (·.identifier == identifier)

/-- What a directive settles for the rest of the text. -/
def settle (c : Setting) : Directive → Setting
  | base _ => { c with directives := c.directives + 1 }
  | version _ text =>
    { c with plus := c.plus || text != "1.0", directives := c.directives + 1 }
  | binding _ b =>
    { c with
      bindings := if (bound? c b.identifier).isSome then c.bindings else b :: c.bindings
      directives := c.directives + 1 }

/-- What a directive is reported as. -/
def leaves (c : Setting) : Directive → List Leaf
  | base iri => [.base iri]
  | version _ _ => []
  | binding _ b =>
    if (bound? c b.identifier).isSome then [] else [.binding b.identifier b.iri b.kind]

/-- The kind of a prefix is the one its binding is written for. -/
def Declares : Binder → ReferenceKind → Prop
  | .percentPrefix, kind => kind = .subjectIdentifier
  | .percentImport, kind => kind = .module
  | .quoted atomKind, kind => declaredKind? atomKind = some kind
  | .imported _, kind => kind = .module

/-- The directive is accepted: the base comes first, versions are known, and a prefix keeps its binding. -/
def Fits (c : Setting) : Directive → Prop
  | base _ => c.directives = 0
  | version kind text => (kind = .decimal ∨ kind = .integer) ∧ text ∈ versions
  | binding binder b =>
    Declares binder b.kind ∧ ∀ old, bound? c b.identifier = some old → old = b

/-- What some directives settle one after the other. -/
def settleAll (c : Setting) : List Directive → Setting
  | [] => c
  | d :: ds => settleAll (d.settle c) ds

/-- What some directives are reported as. -/
def leavesAll (c : Setting) : List Directive → List Leaf
  | [] => []
  | d :: ds => d.leaves c ++ leavesAll (d.settle c) ds

/-- Some directives are accepted one after the other. -/
def FitsAll (c : Setting) : List Directive → Prop
  | [] => True
  | d :: ds => d.Fits c ∧ FitsAll (d.settle c) ds

end Directive

/-! ## Texts -/

/-- A whole text. -/
structure Document where
  directives : List Directive
  rules : List Rule
  statement : Option Statement
  question : Bool

namespace Document

/-- The tokens behind a statement. -/
def questionTokens (question : Bool) : List Token := if question then [.symbol .question] else []

/-- The tokens of a text. -/
def tokens (d : Document) : List Token :=
  d.directives.flatMap Directive.tokens ++ (d.rules.flatMap Category.rule.tokens ++
    (d.statement.toList.flatMap Category.statement.tokens ++ questionTokens d.question))

/-- What is settled behind the directives of a text. -/
def settled (c : Setting) (d : Document) : Setting := Directive.settleAll c d.directives

/-- The outline of a text. -/
def outline (c : Setting) (d : Document) : Outline :=
  .within .document
    ((Directive.leavesAll c d.directives).map .leaf ++
      (d.rules.flatMap (Category.rule.outlines (d.settled c).scope) ++
        d.statement.toList.flatMap (Category.statement.outlines (d.settled c).scope)))

/-- The text is accepted. -/
structure Fits (c : Setting) (d : Document) : Prop where
  directives : Directive.FitsAll c d.directives
  rules : ∀ r ∈ d.rules, Category.rule.Refers (d.settled c).scope r
  statement : ∀ x ∈ d.statement, Category.statement.Refers (d.settled c).scope x
  rulesPlain : (d.settled c).plus = false → ∀ r ∈ d.rules, Category.rule.IsPlain r
  statementPlain : (d.settled c).plus = false → ∀ x ∈ d.statement, Category.statement.IsPlain x

end Document

end Phrase

end TopicQuery
