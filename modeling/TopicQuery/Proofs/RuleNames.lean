import TopicQuery.Proofs.Defined
import TopicQuery.Proofs.References.Document
import TopicQuery.Proofs.Reparsed

/-!
Rules of a text. The names that are looked for before a text is recognized are those of the
rules that it is recognized to define, so that no call of a rule is reported as one of a
builtin or a dynamic predicate, wherever the rule stands.
-/

namespace TopicQuery

open Grammar Phrase

/-- The name of the rule that an event opens. -/
def Event.ruleName? : Event → Option String
  | .enter (.rule name) => some name
  | _ => none

/-- The names of the rules that events open, in order. -/
def ruleNames (events : List Event) : List String := events.filterMap Event.ruleName?

theorem ruleNames_append (es fs : List Event) : ruleNames (es ++ fs) = ruleNames es ++ ruleNames fs :=
  List.filterMap_append

namespace Outline

/-! ## Rules among outlines -/

/-- The names of the rules that some outlines hold, in order. -/
def rulesIn (os : List Outline) : List String := ruleNames (eventsAll os)

section Rules

variable {os ps : List Outline}

@[simp] theorem rulesIn_nil : rulesIn [] = [] := rfl

@[simp] theorem rulesIn_append : rulesIn (os ++ ps) = rulesIn os ++ rulesIn ps := by
  rw [rulesIn, eventsAll_append, ruleNames_append]
  rfl

@[simp] theorem rulesIn_leaf {item : Leaf} : rulesIn (.leaf item :: os) = rulesIn os := rfl

@[simp] theorem rulesIn_within {k : Container} {inner : List Outline} :
    rulesIn (.within k inner :: os) =
      (Event.enter k).ruleName?.toList ++ (rulesIn inner ++ rulesIn os) := by
  have hclosed : ruleNames (.leave k.tag :: eventsAll os) = rulesIn os := rfl
  have henter : ∀ es, ruleNames (.enter k :: es) =
      (Event.enter k).ruleName?.toList ++ ruleNames es := by
    intro es
    cases h : (Event.enter k).ruleName? <;> simp [ruleNames, h]
  rw [rulesIn, eventsAll, events, List.cons_append, henter, List.append_assoc,
    List.singleton_append, ruleNames_append, hclosed]
  rfl

theorem rulesIn_flatMap {α : Type} {f : α → List Outline} {xs : List α}
    (h : ∀ x ∈ xs, rulesIn (f x) = []) : rulesIn (xs.flatMap f) = [] := by
  induction xs with
  | nil => rfl
  | cons x xs ih =>
      rw [List.flatMap_cons, rulesIn_append, h x List.mem_cons_self,
        ih fun y hy => h y (List.mem_cons_of_mem _ hy), List.append_nil]

theorem rulesIn_map {α : Type} {f : α → Outline} {xs : List α} (h : ∀ x, rulesIn [f x] = []) :
    rulesIn (xs.map f) = [] := by
  rw [List.map_eq_flatMap]
  exact rulesIn_flatMap fun x _ => h x

end Rules

end Outline

namespace Phrase

open Outline

section Phrases

variable {c : Scope}

/-! ## Phrases without rules -/

theorem rulesIn_call (call : Call) : rulesIn [call.outline c] = [] := by
  cases call with
  | plain name arguments =>
      have harguments : rulesIn (arguments.map fun a => .leaf (a.leaf c)) = [] :=
        rulesIn_map fun _ => rfl
      obtain ⟨builtin, hints, -, hcontainer⟩ | hcontainer | hcontainer :=
        Call.callContainer_cases c.rules (name.form c) arguments.length <;>
      · simp [Call.outline, hcontainer, Call.calleeOutline, harguments, Event.ruleName?]
  | association name roles =>
      have hroles : rulesIn (roles.map (Role.outline c)) = [] :=
        rulesIn_map fun _ => by simp [Role.outline, Event.ruleName?]
      simp [Call.outline, Call.calleeOutline, hroles, Event.ruleName?]

mutual

theorem rulesIn_clause (x : Clause) : rulesIn [x.outline c] = [] := by
  match x with
  | .negation inner => simp [Clause.outline, rulesIn_clauses inner, Event.ruleName?]
  | .alternatives branches => simp [Clause.outline, rulesIn_branches branches, Event.ruleName?]
  | .comparison operator left right => simp [Clause.outline, Event.ruleName?]
  | .call call => exact rulesIn_call call

theorem rulesIn_clauses (xs : Clauses) : rulesIn (xs.outlines c) = [] := by
  match xs with
  | .last x => exact rulesIn_clause x
  | .cons x xs =>
      rw [Clauses.outlines, ← List.singleton_append, rulesIn_append, rulesIn_clause x,
        rulesIn_clauses xs, List.append_nil]

theorem rulesIn_branches (bs : Branches) {shortCircuit : Bool} :
    rulesIn (bs.outlines c shortCircuit) = [] := by
  match bs with
  | .last inner => simp [Branches.outlines, rulesIn_clauses inner, Event.ruleName?]
  | .cons inner next bs =>
      simp [Branches.outlines, rulesIn_clauses inner, rulesIn_branches bs, Event.ruleName?]

end

theorem rulesIn_condition (x : Condition) : rulesIn (Category.condition.outlines c x) = [] := by
  have hkeys : ∀ keys : List SortKey, rulesIn (Category.sortKey.list.outlines c keys) = [] :=
    fun keys => rulesIn_flatMap fun _ _ => rfl
  have hbound : ∀ (item : UInt64 → Leaf) (b : Option Bound), rulesIn (Bound.outlines item b) = [] := by
    intro item b
    cases b <;> rfl
  have hordering : rulesIn (Tail.orderOutlines c x.tail.order) = [] := by
    cases h : x.tail.order with
    | nil => rfl
    | cons key keys => simp [Tail.orderOutlines, hkeys, Event.ruleName?]
  have hextent : rulesIn (Tail.extentOutlines x.tail.limit x.tail.offset) = [] := by
    unfold Tail.extentOutlines
    split
    · rfl
    · simp [hbound, Event.ruleName?]
  simp [Category.condition, Tail.outlines, rulesIn_clauses, hordering, hextent, Event.ruleName?]

theorem rulesIn_change (x : Change) : rulesIn (x.outlines c) = [] := by
  cases x with
  | insert content =>
      have hmentioned : rulesIn ((Fragment.mentioned content).map
          fun name => .leaf (.atom .var name)) = [] := rulesIn_map fun _ => rfl
      simp [Change.outlines, Change.contentOutline, hmentioned, Event.ruleName?]
  | update calls => exact rulesIn_flatMap fun call _ => rulesIn_call call
  | delete targets =>
      refine rulesIn_flatMap fun target _ => ?_
      cases target with
      | call call => exact rulesIn_call call
      | term t => rfl
  | merge first second => rfl

theorem rulesIn_statement (x : Statement) : rulesIn (Category.statement.outlines c x) = [] := by
  cases x with
  | select projections isWhere x =>
      have hprojections : rulesIn (Category.projection.list.outlines c projections) = [] :=
        rulesIn_flatMap fun p _ => by cases p <;> rfl
      simp [Category.statement, hprojections, rulesIn_condition, Event.ruleName?]
  | bare x => simp [Category.statement, rulesIn_condition, Event.ruleName?]
  | change change x =>
      have hcontainer : (Event.enter change.container).ruleName? = none := by cases change <;> rfl
      have hcondition : rulesIn (Category.optionalCondition.outlines c x) = [] := by
        cases x with
        | none => rfl
        | some x => exact rulesIn_condition x.2
      simp [Category.statement, hcontainer, hcondition, rulesIn_change]
  | load source targets =>
      have hinto : rulesIn (Category.intoOutlines c targets) = [] := by
        cases targets with
        | nil => rfl
        | cons t targets =>
            have htargets : rulesIn (Category.iri.list.outlines c (t :: targets)) = [] :=
              rulesIn_flatMap fun _ _ => rfl
            simp [Category.intoOutlines, htargets, Event.ruleName?]
      simp [Category.statement, Category.iri, hinto, Event.ruleName?]
  | drop source => rfl
  | create source => rfl

/-! ## Rules of texts -/

theorem rulesIn_rule (r : Rule) : rulesIn (Category.rule.outlines c r) = [r.name] := by
  have hparameters : rulesIn (Category.parameter.list.outlines c r.parameters) = [] :=
    rulesIn_flatMap fun _ _ => rfl
  simp [Category.rule, hparameters, rulesIn_clauses, Event.ruleName?]

theorem rulesIn_rules (rs : List Rule) :
    rulesIn (rs.flatMap (Category.rule.outlines c)) = rs.map Rule.name := by
  induction rs with
  | nil => rfl
  | cons r rs ih =>
      rw [List.flatMap_cons, rulesIn_append, rulesIn_rule, ih]
      rfl

theorem rulesIn_document (c : Setting) (d : Document) :
    rulesIn [d.outline c] = d.rules.map Rule.name := by
  have hleaves : rulesIn ((Directive.leavesAll c d.directives).map .leaf) = [] :=
    rulesIn_map fun _ => rfl
  have hstatement : rulesIn (d.statement.toList.flatMap
      (Category.statement.outlines (d.settled c).scope)) = [] :=
    rulesIn_flatMap fun x _ => rulesIn_statement x
  simp [Document.outline, hleaves, hstatement, rulesIn_rules, Event.ruleName?]

end Phrases

end Phrase

/-! ## Calls of rules -/

namespace Headed

variable {tokens : List Token} {bs : List Prefixed} {events : List Event} {name : String}

/-- A builtin predicate has a name that no rule has. -/
theorem builtin_fresh (h : Headed tokens bs events) {base : Option String} {hints : List Hint}
    (he : .enter (.builtin name hints) ∈ Event.start :: (headerEvents base bs ++ events)) :
    name ∉ definedRules tokens := by
  obtain ⟨before, after, hsplit⟩ := List.append_of_mem he
  obtain ⟨-, hstart⟩ | ⟨front, -, ⟨more, hmore⟩ | ⟨behind, -, hbehind⟩⟩ := behind_start hsplit
  · cases hstart
  · obtain ⟨_, heq⟩ | ⟨_, -, heq⟩ := mem_headerEvents
      (hmore ▸ List.mem_append_right _ List.mem_cons_self) <;> cases heq
  · exact h.allowed.builtin (hbehind ▸ List.mem_append_right _ List.mem_cons_self)

/-- A dynamic predicate that is called by a plain name has a name that no rule has. -/
theorem dynamic_fresh (h : Headed tokens bs events) {base : Option String}
    (he : [.enter .dynamic, .enter .callee, .leaf (.atom .identifier name)] <:+:
      Event.start :: (headerEvents base bs ++ events)) :
    name ∉ definedRules tokens := by
  obtain ⟨before, after, hsplit⟩ := he
  rw [List.append_assoc, List.cons_append] at hsplit
  obtain ⟨-, hstart⟩ | ⟨front, -, ⟨more, hmore⟩ | ⟨behind, -, hbehind⟩⟩ := behind_start hsplit.symm
  · cases hstart
  · obtain ⟨_, heq⟩ | ⟨_, -, heq⟩ := mem_headerEvents
      (hmore ▸ List.mem_append_right _ List.mem_cons_self) <;> cases heq
  · exact h.allowed.dynamic ⟨behind, after, by rw [hbehind, List.append_assoc]; rfl⟩

end Headed

/--
The search for rules finds those of a text in their order, and what is reported as a call of
a builtin or a dynamic predicate is never the name of one of them.
-/
theorem parse_ruleNames {text : String} {plus : Bool} (h : (parse text plus).fault = none) :
    ruleNames (parse text plus).events = definedRules ((scan text).tokens.map (·.token)) ∧
      (∀ name hints, .enter (.builtin name hints) ∈ (parse text plus).events →
        name ∉ ruleNames (parse text plus).events) ∧
      ∀ name, [.enter .dynamic, .enter .callee, .leaf (.atom .identifier name)] <:+:
        (parse text plus).events → name ∉ ruleNames (parse text plus).events := by
  obtain ⟨d, hd⟩ := exists_document h
  have hnames : ruleNames (parse text plus).events =
      definedRules ((scan text).tokens.map (·.token)) := by
    have hrules := rulesIn_document (settingOf plus text) d
    rw [Outline.rulesIn, Outline.eventsAll_singleton, ← hd.events] at hrules
    rw [hrules, ← hd.rules]
    rfl
  obtain ⟨base, bs, events, hevents, hheaded⟩ := parse_headed text plus
  rw [hnames, hevents]
  exact ⟨rfl, fun _ _ => hheaded.builtin_fresh, fun _ => hheaded.dynamic_fresh⟩

/-- A text that calls a rule with the name of a builtin predicate before it defines the rule. -/
def ruleBehindCall : String := "p($a) :- instance-of($a, $b). instance-of($a, $b) :- q($a, $b)."

/-- The call is one of the rule, and that of another name is dynamic. -/
theorem parse_ruleNames_behindCall :
    ruleNames (parse ruleBehindCall false).events = ["p", "instance-of"] ∧
      (∀ hints, .enter (.builtin "instance-of" hints) ∉ (parse ruleBehindCall false).events) ∧
      "q" ∉ ruleNames (parse ruleBehindCall false).events := by
  obtain ⟨hnone, hnames, hcall⟩ : (parse ruleBehindCall false).fault = none ∧
      definedRules ((scan ruleBehindCall).tokens.map (·.token)) = ["p", "instance-of"] ∧
      [.enter .dynamic, .enter .callee, .leaf (.atom .identifier "q")] <:+:
        (parse ruleBehindCall false).events := by
    decide +kernel
  obtain ⟨hrules, hbuiltin, hdynamic⟩ := parse_ruleNames hnone
  rw [hnames] at hrules
  exact ⟨hrules, fun hints he => hbuiltin _ _ he (by simp [hrules]), hdynamic "q" hcall⟩

end TopicQuery
