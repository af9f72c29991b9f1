import TopicQuery.Proofs.Phrase.Document

/-!
What phrases are reported by. The events of a text tell how it binds prefixes,
whether it has a condition and what its statement changes, because no other
phrase is reported by the events that do.
-/

namespace TopicQuery

/-- A built-in predicate has the kinds of the table; an internal one is never reported. -/
def Container.isTabled : Container → Bool
  | builtin name hints => (Builtin.find? name).map Builtin.hints == some hints
  | internal _ _ _ => false
  | _ => true

namespace Phrase

open Outline

variable {c : Scope}

/-! ## Inside rules and statements -/

/--
An event that neither a statement nor its condition begins with, and that reports neither a
directive nor topic map content; predicates are reported as the table has them.
-/
def isInner : Event → Bool
  | .enter k => !([.document, .select, .insert, .update, .delete, .merge, .load, .drop, .create,
      .condition].contains k.tag) && k.isTabled
  | .leave _ => true
  | .leaf (.base _) => false
  | .leaf (.binding _ _ _) => false
  | .leaf (.content _) => false
  | .leaf _ => true

/-- Every event of the outline is an inner one. -/
def Inner (o : Outline) : Prop := ∀ e ∈ o.events, isInner e = true

/-- Every event of the outlines is an inner one. -/
def InnerAll (os : List Outline) : Prop := ∀ o ∈ os, Inner o

theorem isInner_of_innerAll {os : List Outline} (h : InnerAll os) :
    ∀ e ∈ eventsAll os, isInner e = true := by
  intro e he
  obtain ⟨o, ho, heo⟩ := mem_eventsAll.mp he
  exact h o ho e heo

theorem inner_within {k : Container} {os : List Outline} (hk : isInner (.enter k) = true)
    (h : InnerAll os) : Inner (.within k os) := by
  intro e he
  simp only [events, List.mem_cons, List.mem_append, List.not_mem_nil, or_false] at he
  obtain rfl | he | rfl := he
  · exact hk
  · exact isInner_of_innerAll h e he
  · rfl

theorem inner_term (t : Term) : Inner (.leaf (t.leaf c)) := by
  intro e he
  obtain rfl := List.mem_singleton.mp he
  cases t <;> rfl

theorem innerAll_terms (ts : List Term) : InnerAll (ts.map fun t => .leaf (t.leaf c)) := by
  intro o ho
  obtain ⟨t, -, rfl⟩ := List.mem_map.mp ho
  exact inner_term t

theorem innerAll_cons {o : Outline} {os : List Outline} (h : Inner o) (h' : InnerAll os) :
    InnerAll (o :: os) := List.forall_mem_cons.mpr ⟨h, h'⟩

theorem innerAll_nil : InnerAll [] := by simp [InnerAll]

theorem inner_callee (name : Term) : Inner (Call.calleeOutline c name) :=
  inner_within (by decide) (innerAll_cons (inner_term name) innerAll_nil)

theorem isTabled_callContainer (rules : List String) (form : Grammar.NameForm) (arity : Nat) :
    (Grammar.callContainer rules form arity).isTabled = true := by
  unfold Grammar.callContainer
  split
  · split
    · rfl
    · split
      · next hfind => simp [Container.isTabled, hfind]
      · split <;> rfl
  · rfl
  · split <;> rfl
  · rfl

theorem inner_call (call : Call) : Inner (call.outline c) := by
  cases call with
  | plain name arguments =>
      have hcases := Call.callContainer_cases c.rules (name.form c) arguments.length
      have hcalled := innerAll_cons (inner_callee (c := c) name) (innerAll_terms (c := c) arguments)
      have htabled := isTabled_callContainer c.rules (name.form c) arguments.length
      unfold Call.outline
      obtain ⟨builtin, hints, -, h⟩ | h | h := hcases <;> simp only [h]
      · rw [h] at htabled
        exact inner_within htabled (innerAll_terms arguments)
      · exact inner_within rfl hcalled
      · exact inner_within rfl hcalled
  | association name roles =>
      refine inner_within rfl (innerAll_cons (inner_callee name) fun o ho => ?_)
      obtain ⟨r, -, rfl⟩ := List.mem_map.mp ho
      have hpart : ∀ {k : Container} (t : Term), isInner (.enter k) = true →
          Inner (.within k [.leaf (t.leaf c)]) := fun t hk =>
        inner_within hk (innerAll_cons (inner_term t) innerAll_nil)
      exact inner_within rfl (innerAll_cons (hpart r.player rfl)
        (innerAll_cons (hpart r.type rfl) innerAll_nil))

mutual

theorem Clause.inner (x : Clause) : Inner (x.outline c) := by
  match x with
  | .negation xs => exact inner_within rfl xs.innerAll
  | .alternatives bs => exact inner_within rfl (bs.innerAll false)
  | .comparison operator left right =>
      have hside : ∀ {k : Container} (t : Term), isInner (.enter k) = true →
          Inner (.within k [.leaf (t.leaf c)]) := fun t hk =>
        inner_within hk (innerAll_cons (inner_term t) innerAll_nil)
      exact inner_within rfl (innerAll_cons (hside left rfl)
        (innerAll_cons (hside right rfl) innerAll_nil))
  | .call call => exact inner_call call

theorem Clauses.innerAll (xs : Clauses) : InnerAll (xs.outlines c) := by
  match xs with
  | .last x => exact innerAll_cons x.inner innerAll_nil
  | .cons x xs => exact innerAll_cons x.inner xs.innerAll

theorem Branches.innerAll (bs : Branches) (shortCircuit : Bool) :
    InnerAll (bs.outlines c shortCircuit) := by
  match bs with
  | .last xs => exact innerAll_cons (inner_within rfl xs.innerAll) innerAll_nil
  | .cons xs next bs =>
      exact innerAll_cons (inner_within rfl xs.innerAll) (bs.innerAll next)

end

theorem InnerAll.append {os ps : List Outline} (h : InnerAll os) (h' : InnerAll ps) :
    InnerAll (os ++ ps) := fun o ho => (List.mem_append.mp ho).elim (h o) (h' o)

theorem InnerAll.flatMap {α : Type} {f : α → List Outline} {xs : List α}
    (h : ∀ x ∈ xs, InnerAll (f x)) : InnerAll (xs.flatMap f) := by
  intro o ho
  obtain ⟨x, hx, ho⟩ := List.mem_flatMap.mp ho
  exact h x hx o ho

theorem innerAll_leaf {item : Leaf} (h : isInner (.leaf item) = true) : InnerAll [.leaf item] := by
  refine innerAll_cons (fun e he => ?_) innerAll_nil
  obtain rfl := List.mem_singleton.mp he
  exact h

theorem Tail.innerAll (t : Tail) : InnerAll (t.outlines c) := by
  obtain ⟨order, limit, offset⟩ := t
  have hbound : ∀ {item : UInt64 → Leaf} (b : Option Bound),
      (∀ n, isInner (.leaf (item n)) = true) → InnerAll (Bound.outlines item b) := by
    intro item b h
    cases b with
    | none => exact innerAll_nil
    | some b => exact innerAll_leaf (h b.number)
  refine InnerAll.append ?_ ?_
  · cases order with
    | nil => exact innerAll_nil
    | cons k ks =>
        exact innerAll_cons (inner_within rfl (InnerAll.flatMap fun k _ => innerAll_leaf rfl))
          innerAll_nil
  · have hbounds : InnerAll (Bound.outlines .limit limit ++ Bound.outlines .offset offset) :=
      (hbound limit fun _ => rfl).append (hbound offset fun _ => rfl)
    cases limit <;> cases offset
    · exact innerAll_nil
    all_goals exact innerAll_cons (inner_within rfl hbounds) innerAll_nil

theorem not_mem_of_innerAll {e : Event} (he : isInner e = false) {os : List Outline}
    (h : InnerAll os) : e ∉ eventsAll os := fun hmem => by
  simp [isInner_of_innerAll h e hmem] at he

theorem ne_leave_of_isInner {e : Event} (he : isInner e = false) (tag : Tag) : e ≠ .leave tag := by
  rintro rfl
  exact absurd he (by simp [isInner])

/-- Of what a statement changes only topic map content is reported by other events. -/
theorem Change.mem_events {e : Event} (he : isInner e = false) (x : Change) :
    e ∈ eventsAll (x.outlines c) ↔
      ∃ content, x = .insert content ∧ e = .leaf (.content content) := by
  have hinner : InnerAll (x.outlines c) → (∀ content, x ≠ .insert content) →
      (e ∈ eventsAll (x.outlines c) ↔
        ∃ content, x = .insert content ∧ e = .leaf (.content content)) := fun h hx =>
    iff_of_false (not_mem_of_innerAll he h) fun ⟨content, heq, _⟩ => hx content heq
  cases x with
  | insert content =>
      have hvariables : e ∉ eventsAll ((Fragment.mentioned content).map fun name =>
          .leaf (.atom .var name)) := by
        refine not_mem_of_innerAll he fun o ho => ?_
        obtain ⟨name, -, rfl⟩ := List.mem_map.mp ho
        exact innerAll_leaf rfl _ List.mem_cons_self
      have henter : e ≠ .enter .fragment := by
        rintro rfl
        exact absurd he (by decide)
      simp [outlines, contentOutline, eventsAll, events, Container.tag, henter, hvariables,
        ne_leave_of_isInner he]
  | update calls =>
      exact hinner (InnerAll.flatMap fun call _ => innerAll_cons (inner_call call) innerAll_nil)
        (by simp)
  | delete targets =>
      refine hinner (InnerAll.flatMap fun x _ => ?_) (by simp)
      cases x with
      | call call => exact innerAll_cons (inner_call call) innerAll_nil
      | term t => exact innerAll_cons (inner_term t) innerAll_nil
  | merge first second =>
      exact hinner (innerAll_cons (inner_term first)
        (innerAll_cons (inner_term second) innerAll_nil)) (by simp)

theorem Rule.innerAll (r : Rule) : InnerAll (Category.rule.outlines c r) := by
  refine innerAll_cons (inner_within rfl (InnerAll.append ?_ ?_)) innerAll_nil
  · exact InnerAll.flatMap fun v _ => innerAll_leaf rfl
  · exact innerAll_cons (inner_within rfl r.body.innerAll) innerAll_nil

/-! ## Statements and texts -/

namespace Statement

/-- The container a statement is reported as. -/
def container : Statement → Container
  | select _ _ _ => .select
  | bare _ => .select
  | change x _ => x.container
  | load _ _ => .load
  | drop _ => .drop
  | create _ => .create

/-- The statement has a condition. -/
def HasCondition : Statement → Prop
  | select _ _ _ => True
  | bare _ => True
  | change _ y => y.isSome = true
  | _ => False

/-- What a statement inserts, if it inserts topic map content. -/
def content? : Statement → Option String
  | change (.insert content) _ => some content
  | _ => none

variable {e : Event}

theorem mem_condition (he : isInner e = false) (x : Condition) :
    e ∈ eventsAll (Category.condition.outlines c x) ↔ e = .enter .condition := by
  have hclauses := not_mem_of_innerAll he (x.clauses.innerAll (c := c))
  have htail := not_mem_of_innerAll he (x.tail.innerAll (c := c))
  simp [Category.condition, eventsAll, events, Container.tag, hclauses, htail,
    ne_leave_of_isInner he]

/--
Apart from inner events a statement is reported by what it begins with, by its condition and
by the content that it inserts.
-/
theorem mem_events (he : isInner e = false) (x : Statement) :
    e ∈ eventsAll (Category.statement.outlines c x) ↔
      e = .enter x.container ∨ x.HasCondition ∧ e = .enter .condition ∨
        ∃ content ∈ x.content?, e = .leaf (.content content) := by
  have hleave := ne_leave_of_isInner he
  have hterm : ∀ t : Term, e ≠ .leaf (t.leaf c) := by
    rintro t rfl
    exact absurd (inner_term (c := c) t _ List.mem_cons_self) (by simp [he])
  cases x with
  | select projections isWhere x =>
      have hprojections : e ∉ eventsAll (Category.projection.list.outlines c projections) := by
        refine not_mem_of_innerAll he (InnerAll.flatMap fun p _ => ?_)
        cases p <;> exact innerAll_leaf rfl
      simp [Category.statement, events, container, HasCondition, content?, hprojections, hleave,
        mem_condition he]
  | bare x =>
      simp [Category.statement, events, container, HasCondition, content?, hleave, mem_condition he]
  | change x y =>
      have hcontent : (∃ content ∈ (change x y).content?, e = .leaf (.content content)) ↔
          ∃ content, x = .insert content ∧ e = .leaf (.content content) := by
        cases x <;> simp [content?]
      rw [hcontent]
      cases y with
      | none =>
          simp [Category.statement, Category.optionalCondition, events, container,
            HasCondition, Change.mem_events he, hleave]
      | some y =>
          simp [Category.statement, Category.optionalCondition, events, container,
            HasCondition, Change.mem_events he, hleave, mem_condition he, or_comm]
  | load source targets =>
      have htargets : e ∉ eventsAll (Category.intoOutlines c targets) := by
        refine not_mem_of_innerAll he ?_
        cases targets with
        | nil => exact innerAll_nil
        | cons t ts =>
            refine innerAll_cons (inner_within rfl (InnerAll.flatMap fun t _ => ?_)) innerAll_nil
            exact innerAll_cons (inner_term t) innerAll_nil
      simp [Category.statement, Category.iri, eventsAll, events, container, HasCondition, content?,
        htargets, hleave, hterm]
  | drop source =>
      simp [Category.statement, Category.iri, eventsAll, events, container, HasCondition, content?,
        hleave, hterm]
  | create source =>
      simp [Category.statement, Category.iri, eventsAll, events, container, HasCondition, content?,
        hleave, hterm]

end Statement

/-- Apart from inner events a text is reported by its directives and by what its statement tells. -/
theorem Document.mem_events {c : Grammar.Setting} {e : Event} (he : isInner e = false)
    (d : Document) :
    e ∈ (d.outline c).events ↔
      e = .enter .document ∨ (∃ item ∈ Directive.leavesAll c d.directives, e = .leaf item) ∨
        ∃ x ∈ d.statement, e = .enter x.container ∨ x.HasCondition ∧ e = .enter .condition ∨
          ∃ content ∈ x.content?, e = .leaf (.content content) := by
  have hrules : e ∉ eventsAll (d.rules.flatMap (Category.rule.outlines (d.settled c).scope)) :=
    not_mem_of_innerAll he (InnerAll.flatMap fun r _ => r.innerAll)
  have hstatement : e ∈ eventsAll (d.statement.toList.flatMap
      (Category.statement.outlines (d.settled c).scope)) ↔
        ∃ x ∈ d.statement, e = .enter x.container ∨ x.HasCondition ∧ e = .enter .condition ∨
          ∃ content ∈ x.content?, e = .leaf (.content content) := by
    cases d.statement with
    | none => simp [eventsAll]
    | some x => simp [Statement.mem_events he]
  simp [Document.outline, events, Container.tag, hrules, ne_leave_of_isInner he, hstatement,
    eq_comm]

/-- Predicates are reported as the table has them. -/
theorem Document.isTabled_of_mem {c : Grammar.Setting} {k : Container} (d : Document)
    (h : .enter k ∈ (d.outline c).events) : k.isTabled = true := by
  refine Bool.not_eq_false _ ▸ fun hk => ?_
  have hinner : isInner (.enter k) = false := by
    rw [isInner, hk, Bool.and_false]
  obtain h | ⟨item, -, h⟩ | ⟨x, -, h | ⟨-, h⟩ | ⟨content, -, h⟩⟩ := (d.mem_events hinner).mp h
  · cases h
    cases hk
  · cases h
  · cases h
    cases x with
    | change x y => cases x <;> cases hk
    | _ => cases hk
  · cases h
    cases hk
  · cases h

/-- Directives are reported as a base and as bindings. -/
theorem Directive.mem_leavesAll {c : Grammar.Setting} {ds : List Directive} {item : Leaf}
    (h : item ∈ leavesAll c ds) :
    (∃ iri, item = .base iri) ∨ ∃ identifier iri kind, item = .binding identifier iri kind := by
  induction ds generalizing c with
  | nil => cases h
  | cons x ds ih =>
      obtain hfirst | hrest := List.mem_append.mp h
      · cases x with
        | base iri => exact .inl ⟨iri, List.mem_singleton.mp hfirst⟩
        | version kind text => cases hfirst
        | binding binder b =>
            rw [leaves] at hfirst
            split at hfirst
            · cases hfirst
            · exact .inr ⟨_, _, _, List.mem_singleton.mp hfirst⟩
      · exact ih hrest

namespace Document

variable {c : Grammar.Setting}

theorem container_mem_iff {k : Container} (hk : isInner (.enter k) = false) (hne : k ≠ .document)
    (hne' : k ≠ .condition) (d : Document) :
    .enter k ∈ (d.outline c).events ↔ ∃ x ∈ d.statement, x.container = k := by
  simp [mem_events hk, hne, hne', eq_comm]

theorem condition_mem_iff (d : Document) :
    .enter .condition ∈ (d.outline c).events ↔ ∃ x ∈ d.statement, x.HasCondition := by
  have hcontainer : ∀ x : Statement, Container.condition ≠ x.container := by
    rintro (_ | _ | x | _ | _ | _)
    case change => cases x <;> simp [Statement.container, Change.container]
    all_goals simp [Statement.container]
  rw [mem_events rfl]
  simp [hcontainer]

theorem content_mem_iff {content : String} (d : Document) :
    .leaf (.content content) ∈ (d.outline c).events ↔
      ∃ x ∈ d.statement, x.content? = some content := by
  have hleaf : Leaf.content content ∉ Directive.leavesAll c d.directives := fun h => by
    obtain ⟨iri, heq⟩ | ⟨identifier, iri, kind, heq⟩ := Directive.mem_leavesAll h <;> cases heq
  rw [mem_events rfl]
  simp [hleaf]

end Document

end Phrase

end TopicQuery
