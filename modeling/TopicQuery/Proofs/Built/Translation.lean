import TopicQuery.Proofs.Optimized.Taken
import TopicQuery.Proofs.Outline

/-!
Outlines translated into queries. The translation goes by recursion over the outline
and keeps no frames and no operands: every child of a container is translated where
it stands, and a child that has no place in its container makes the translation fail.
-/

namespace TopicQuery

/-- The term that a leaf stands for, with the base and the prefixes that the builder knows. -/
def Builder.term? (f : Factory) (b : Builder) (item : Leaf) : Option Term :=
  (b.operand f item).toOption.bind Operand.term?

namespace Outline

section Parts

variable (read : Leaf → Option Term)

/-! ## Clauses -/

/-- A leaf as a term. -/
def term? : Outline → Option Term
  | .leaf item => read item
  | .within _ _ => none

/-- A player and the type of its role. -/
def role? : Outline → Option Role
  | .within .pair [.within .player [player], .within .roleType [roleType]] => do
    return ⟨← player.term? read, ← roleType.term? read⟩
  | _ => none

mutual

/-- A clause: what lies in its container stands in it at the same place. -/
def clause? : Outline → Option Clause
  | .within .negation inner => do return .negation (← clauses? inner)
  | .within .alternatives inner => do return .alternatives (← branches? inner)
  | .within (.comparison operator) [.within .left [left], .within .right [right]] => do
    return .comparison operator (← left.term? read) (← right.term? read)
  | .within (.builtin name hints) arguments => do
    return .builtin name hints (← arguments.mapM (term? read))
  | .within .association (.within .callee [name] :: roles) => do
    return .association (← name.term? read) (← roles.mapM (role? read))
  | .within .dynamic (.within .callee [name] :: arguments) => do
    return .dynamic (← name.term? read) (← arguments.mapM (term? read))
  | .within .call (.within .callee [name] :: arguments) => do
    return .call (← name.term? read) (← arguments.mapM (term? read))
  | _ => none

/-- Clauses one behind the other. -/
def clauses? : List Outline → Option (List Clause)
  | [] => some []
  | o :: os => do return (← clause? o) :: (← clauses? os)

/-- A branch with what says whether it is cut short. -/
def branch? : Outline → Option Branch
  | .within (.branch shortCircuit) inner => do return .mk shortCircuit (← clauses? inner)
  | _ => none

/-- Branches one behind the other. -/
def branches? : List Outline → Option (List Branch)
  | [] => some []
  | o :: os => do return (← branch? o) :: (← branches? os)

end

theorem clauses?_eq_mapM (os : List Outline) : clauses? read os = os.mapM (clause? read) := by
  induction os with
  | nil => rfl
  | cons o os ih => rw [clauses?, ih, List.mapM_cons]

theorem branches?_eq_mapM (os : List Outline) : branches? read os = os.mapM (branch? read) := by
  induction os with
  | nil => rfl
  | cons o os ih => rw [branches?, ih, List.mapM_cons]

/-! ## Conditions, order and extent -/

/-- A key to sort by. -/
def ordering? : Outline → Option Ordering
  | .leaf (.order name descending) => some ⟨name, descending⟩
  | _ => none

/-- A limit, an offset, or both. -/
def extent? : List Outline → Option (Option UInt64 × Option UInt64)
  | [.leaf (.limit limit)] => some (some limit, none)
  | [.leaf (.offset offset)] => some (none, some offset)
  | [.leaf (.limit limit), .leaf (.offset offset)] => some (some limit, some offset)
  | _ => none

/-- Order and extent, each of which may be missing. -/
def modifiers? : List Outline → Option Modifiers
  | [] => some .none
  | [.within .ordering keys] => do return ⟨← keys.mapM ordering?, none, none⟩
  | [.within .pagination bounds] => do
    let (limit, offset) ← extent? bounds
    return ⟨[], limit, offset⟩
  | [.within .ordering keys, .within .pagination bounds] => do
    let (limit, offset) ← extent? bounds
    return ⟨← keys.mapM ordering?, limit, offset⟩
  | _ => none

/-- The clauses of a condition with the order and the extent behind them, if there is one. -/
def condition? : List Outline → Option (List Clause × Modifiers)
  | [] => some ([], .none)
  | .within .condition inner :: behind => do
    return (← clauses? read inner, ← modifiers? behind)
  | _ => none

/-- The outline begins a condition. -/
def isCondition : Outline → Bool
  | .within .condition _ => true
  | _ => false

/-- What a statement holds in front of its condition. -/
def front (inner : List Outline) : List Outline := inner.takeWhile (!·.isCondition)

/-- The condition of a statement and what follows it. -/
def behind (inner : List Outline) : List Outline := inner.dropWhile (!·.isCondition)

/-! ## Statements and rules -/

/-- What is selected. -/
def projection? : Outline → Option Projection
  | .leaf (.atom .var name) => some (.var name)
  | .leaf (.count name) => some (.count name)
  | _ => none

/-- What is deleted. -/
def deletion? : Outline → Option Deletion
  | .leaf item => do return .term (← read item)
  | .within c inner => do return .predicate (← clause? read (.within c inner))

/-- Topic map content behind the variables that it mentions. -/
def content? : List Outline → Option Content
  | [.leaf (.content text)] => some ⟨[], text⟩
  | .leaf (.atom .var name) :: os => do
    let ⟨mentioned, text⟩ ← content? os
    return ⟨name :: mentioned, text⟩
  | _ => none

/-- A reference, as the IRI that it refers to. -/
def iri? (o : Outline) : Option Iri :=
  match o.term? read with
  | some (.reference _ iri) => some iri
  | _ => none

/-- The content of an `insert`. -/
def inserted? : List Outline → Option Content
  | [.within .fragment content] => content? content
  | _ => none

/-- The two terms of a `merge`. -/
def merged? : List Outline → Option (Term × Term)
  | [first, second] => do return (← first.term? read, ← second.term? read)
  | _ => none

/-- A statement with a part of its own in front of its condition. -/
def conditioned? {α : Type} (make : α → List Clause → Modifiers → Statement)
    (part : List Outline → Option α) (inner : List Outline) : Option Statement := do
  let a ← part (front inner)
  let (clauses, modifiers) ← condition? read (behind inner)
  return make a clauses modifiers

/-- A statement: what it changes or selects, under which condition. -/
def statement? : Outline → Option Statement
  | .within .select inner => conditioned? read .select (·.mapM projection?) inner
  | .within .insert inner => conditioned? read .insert inserted? inner
  | .within .update inner => conditioned? read .update (clauses? read) inner
  | .within .delete inner => conditioned? read .delete (·.mapM (deletion? read)) inner
  | .within .merge inner =>
    conditioned? read (fun terms => .merge terms.1 terms.2) (merged? read) inner
  | .within .load [source] => do return .load (← source.iri? read) []
  | .within .load [source, .within .into targets] => do
    return .load (← source.iri? read) (← targets.mapM (iri? read))
  | .within .drop [target] => do return .drop (← target.iri? read)
  | .within .create [target] => do return .create (← target.iri? read)
  | _ => none

/-- The parameters of a rule and the clauses of its body. -/
def definition? : List Outline → Option (List String × List Clause)
  | [.within .body inner] => do return ([], ← clauses? read inner)
  | .leaf (.atom .var name) :: os => do
    let (parameters, body) ← definition? os
    return (name :: parameters, body)
  | _ => none

/-- A rule. -/
def rule? : Outline → Option Rule
  | .within (.rule name) inner => do
    let (parameters, body) ← definition? read inner
    return ⟨name, parameters, body⟩
  | _ => none

/-- Rules with at most one statement behind them. -/
def parts? : List Outline → Option (List Rule × Option Statement)
  | [] => some ([], none)
  | .within (.rule name) inner :: os => do
    let first ← rule? read (.within (.rule name) inner)
    let (rules, statement) ← parts? os
    return (first :: rules, statement)
  | [o] => do return ([], some (← statement? read o))
  | _ => none

end Parts

/-! ## Texts -/

/-- Prefixes, resolved against a base, and the outlines behind them. -/
def bindings? (f : Factory) (base : Iri) :
    List Outline → Option (List Binding × List Outline)
  | .leaf (.binding identifier iri kind) :: os => do
    let iri ← (f.resolveIri base iri).toOption
    let (bindings, rest) ← bindings? f base os
    return (⟨identifier, iri, kind⟩ :: bindings, rest)
  | os => some ([], os)

/-- The base that is declared in front of some outlines, or else that of the document. -/
def base? (f : Factory) (document : Iri) : List Outline → Option (Iri × List Outline)
  | .leaf (.base iri) :: os => do return (← (f.resolveIri document iri).toOption, os)
  | os => some (document, os)

/-- The query of what lies in a document: base, prefixes, rules and statement in this order. -/
def query? (f : Factory) (document : Iri) (inner : List Outline) : Option Query := do
  let (base, rest) ← base? f document inner
  let (bindings, rest) ← bindings? f base rest
  let reader : Builder := ⟨document, base, bindings.reverse, bindings, [], none⟩
  let (rules, statement) ← parts? (reader.term? f) rest
  return ⟨base, bindings, rules, statement, []⟩

end Outline

end TopicQuery
