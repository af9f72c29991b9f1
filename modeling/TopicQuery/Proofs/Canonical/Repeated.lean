import Mathlib.Data.List.Nodup
import TopicQuery.Proofs.Canonical.Document
import TopicQuery.Proofs.Reported

/-!
Repeated marks. Whether a call loses its mark shows in the events: the call is
one of a marked name, the binding of its prefix says what the mark says, and
without the mark the number of its arguments would make it another call.
-/

namespace TopicQuery

/-- The outline of a call by a marked name. -/
def Outline.markedCall (kind : ReferenceKind) (name : QualifiedName) (arguments : List Leaf) :
    Outline :=
  .within .dynamic (.within .callee [.leaf (.qname kind name)] :: arguments.map .leaf)

/-- Somewhere a name is called with other than two arguments behind a mark that repeats its prefix. -/
def RepeatsMark (events : List Event) : Prop :=
  ∃ (name : QualifiedName) (iri : String) (kind : ReferenceKind) (arguments : List Leaf),
    .leaf (.binding name.qualifier iri kind) ∈ events ∧ arguments.length ≠ 2 ∧
      (Outline.markedCall kind name arguments).events <:+: events

namespace Phrase

open Grammar

variable {c : Scope}

/-- The outline is that of a call whose mark repeats its prefix. -/
def Scope.Repeats (c : Scope) (o : Outline) : Prop :=
  ∃ kind name arguments, o = .markedCall kind name arguments ∧
    c.kind? name.qualifier = some kind ∧ arguments.length ≠ 2

/-- A call whose mark repeats its prefix stands in the outline. -/
def Scope.Holds (c : Scope) (p : Outline) : Prop := ∃ o, c.Repeats o ∧ o.IsIn p

/-- A call whose mark repeats its prefix stands in one of the outlines. -/
def Scope.HoldsAny (c : Scope) (ps : List Outline) : Prop := ∃ p ∈ ps, c.Holds p

namespace Scope

@[simp] theorem holds_leaf (item : Leaf) : ¬c.Holds (.leaf item) := by
  rintro ⟨o, -, h⟩
  exact h

theorem holds_within_iff {k : Container} {inner : List Outline} :
    c.Holds (.within k inner) ↔ c.Repeats (.within k inner) ∨ c.HoldsAny inner := by
  constructor
  · rintro ⟨o, ho, rfl | hinner⟩
    · exact .inl ho
    · obtain ⟨p, hp, hin⟩ := Outline.isInAny_iff.mp hinner
      exact .inr ⟨p, hp, o, ho, hin⟩
  · rintro (h | ⟨p, hp, o, ho, hin⟩)
    · exact ⟨_, h, .inl rfl⟩
    · exact ⟨o, ho, .inr (Outline.isInAny_iff.mpr ⟨p, hp, hin⟩)⟩

theorem holds_within {k : Container} {inner : List Outline} (hk : k ≠ .dynamic) :
    c.Holds (.within k inner) ↔ c.HoldsAny inner := by
  rw [holds_within_iff, or_iff_right]
  rintro ⟨kind, name, arguments, heq, -⟩
  exact hk (Outline.within.inj heq).1

@[simp] theorem holdsAny_nil : ¬c.HoldsAny [] := by simp [HoldsAny]

@[simp] theorem holdsAny_cons {p : Outline} {ps : List Outline} :
    c.HoldsAny (p :: ps) ↔ c.Holds p ∨ c.HoldsAny ps := by simp [HoldsAny]

@[simp] theorem holdsAny_append {ps qs : List Outline} :
    c.HoldsAny (ps ++ qs) ↔ c.HoldsAny ps ∨ c.HoldsAny qs := by
  simp [HoldsAny, or_and_right, exists_or]

theorem holdsAny_leaves {ps : List Outline} (h : ∀ p ∈ ps, ∃ item, p = .leaf item) :
    ¬c.HoldsAny ps := by
  rintro ⟨p, hp, hholds⟩
  obtain ⟨item, rfl⟩ := h p hp
  exact holds_leaf item hholds

end Scope

open Scope

/-! ## Calls and clauses -/

namespace Call

theorem holds_role (r : Role) : ¬c.Holds (r.outline c) := by
  simp [Role.outline, holds_within]

/-- A call loses its mark if its outline is that of a call whose mark repeats its prefix. -/
theorem losesMark_iff {call : Call} (hrefers : call.Refers c) :
    call.LosesMark c ↔ c.Holds (call.outline c) := by
  cases call with
  | association name roles =>
      have hroles : ¬c.HoldsAny (roles.map (Role.outline c)) := by
        rintro ⟨p, hp, hholds⟩
        obtain ⟨r, -, rfl⟩ := List.mem_map.mp hp
        exact holds_role r hholds
      simp [LosesMark, outline, calleeOutline, holds_within, hroles]
  | plain name arguments =>
      have hitems : ¬c.HoldsAny (arguments.map fun a => .leaf (a.leaf c)) :=
        holdsAny_leaves fun p hp => by
          obtain ⟨a, -, rfl⟩ := List.mem_map.mp hp
          exact ⟨_, rfl⟩
      constructor
      · rintro ⟨htwice, htwo⟩
        have hform := (Term.form_of_marksTwice htwice).1
        cases name with
        | qname marker name =>
            obtain ⟨m, rfl, hkind⟩ := Option.map_eq_some_iff.mp htwice
            have hbound : c.kind? name.qualifier = some (c.kind name.qualifier) := by
              obtain ⟨kind, hsome⟩ := Option.isSome_iff_exists.mp hrefers.1.1
              simp [Scope.kind, hsome]
            have houtline : (plain (.qname (some m) name) arguments).outline c =
                .markedCall (c.kind name.qualifier) name (arguments.map (Term.leaf c)) := by
              rw [outline, hform]
              simp [callContainer, calleeOutline, Term.leaf, Marker.kindOr, hkind,
                Outline.markedCall]
            rw [houtline]
            exact holds_within_iff.mpr (.inl ⟨_, _, _, rfl, hbound, by simpa using htwo⟩)
        | _ => exact absurd htwice id
      · intro hholds
        by_cases hbuiltin : ∃ builtin hints,
            callContainer c.rules (name.form c) arguments.length = .builtin builtin hints
        · obtain ⟨builtin, hints, hbuiltin⟩ := hbuiltin
          rw [outline_builtin hbuiltin, holds_within (by simp)] at hholds
          exact absurd hholds hitems
        · have hcalled := @outline_called c name arguments
            fun builtin hints h => hbuiltin ⟨builtin, hints, h⟩
          rw [hcalled, holds_within_iff] at hholds
          obtain ⟨kind, marked, items, heq, hkind, htwo⟩ := hholds.resolve_right
            (by simp [calleeOutline, holds_within, hitems])
          obtain ⟨hcontainer, hinner⟩ := Outline.within.inj heq
          obtain ⟨hcallee, harguments⟩ := List.cons.inj hinner
          have hlength : arguments.length ≠ 2 := by
            have := congrArg List.length harguments
            simp only [List.length_map] at this
            rwa [this]
          have hleaf : name.leaf c = .qname kind marked := by
            simpa [calleeOutline] using hcallee
          refine ⟨?_, hlength⟩
          cases name with
          | qname marker name =>
              cases marker with
              | none =>
                  have hform : (Term.qname none name).form c = .module ∨
                      (Term.qname none name).form c = .reference := by
                    by_cases hmodule : c.kind name.qualifier = .module <;> simp [Term.form, hmodule]
                  rcases hform with hform | hform <;>
                    simp [hform, callContainer, hlength] at hcontainer
              | some m =>
                  simp only [Term.leaf, Leaf.qname.injEq] at hleaf
                  obtain ⟨rfl, rfl⟩ := hleaf
                  have hscope : c.kind name.qualifier = m.kind := by
                    rw [Scope.kind, hkind]
                    rfl
                  exact congrArg some hscope.symm
          | _ => cases hleaf

end Call

mutual

theorem Clause.losesMark_iff (x : Clause) (hrefers : x.Refers c) :
    x.LosesMark c ↔ c.Holds (x.outline c) := by
  match x with
  | .negation inner =>
      rw [Clause.LosesMark, Clause.outline, holds_within (by simp)]
      exact inner.losesMark_iff hrefers
  | .alternatives branches =>
      rw [Clause.LosesMark, Clause.outline, holds_within (by simp)]
      exact branches.losesMark_iff false hrefers
  | .comparison operator left right =>
      simp [Clause.LosesMark, Clause.outline, holds_within]
  | .call call => exact Call.losesMark_iff hrefers

theorem Clauses.losesMark_iff (xs : Clauses) (hrefers : xs.Refers c) :
    xs.LosesMark c ↔ c.HoldsAny (xs.outlines c) := by
  match xs with
  | .last x => simp [Clauses.LosesMark, Clauses.outlines, x.losesMark_iff hrefers]
  | .cons x xs =>
      simp [Clauses.LosesMark, Clauses.outlines, x.losesMark_iff hrefers.1,
        xs.losesMark_iff hrefers.2]

theorem Branches.losesMark_iff (bs : Branches) (shortCircuit : Bool) (hrefers : bs.Refers c) :
    bs.LosesMark c ↔ c.HoldsAny (bs.outlines c shortCircuit) := by
  match bs with
  | .last inner =>
      simp [Branches.LosesMark, Branches.outlines, holds_within, inner.losesMark_iff hrefers]
  | .cons inner next bs =>
      simp [Branches.LosesMark, Branches.outlines, holds_within, inner.losesMark_iff hrefers.1,
        bs.losesMark_iff next hrefers.2]

end

/-! ## Statements, rules and texts -/

theorem Condition.losesMark_iff {x : Condition} (hrefers : Category.condition.Refers c x) :
    x.clauses.LosesMark c ↔ c.HoldsAny (Category.condition.outlines c x) := by
  have htail : ¬c.HoldsAny (x.tail.outlines c) := by
    obtain ⟨clauses, order, limit, offset⟩ := x
    have horder : ¬c.HoldsAny (Tail.orderOutlines c order) := by
      cases order with
      | nil => simp [Tail.orderOutlines]
      | cons k ks =>
          have hkeys : ¬c.HoldsAny (Category.sortKey.list.outlines c (k :: ks)) :=
            holdsAny_leaves fun p hp => by
              obtain ⟨k, -, hk⟩ := List.mem_flatMap.mp hp
              exact ⟨_, List.mem_singleton.mp hk⟩
          simpa [Tail.orderOutlines, holds_within] using hkeys
    have hextent : ¬c.HoldsAny (Tail.extentOutlines limit offset) := by
      cases limit <;> cases offset <;>
        simp [Tail.extentOutlines, Bound.outlines, holds_within]
    simp [Tail.outlines, horder, hextent]
  simp [Category.condition, holds_within, htail, x.clauses.losesMark_iff hrefers.1]

theorem Target.not_holdsAny {x : Target} (hrefers : Category.target.Refers c x) :
    ¬c.HoldsAny (Category.target.outlines c x) := by
  cases x with
  | term t => simp [Category.target]
  | call call =>
      have hmark : ¬call.LosesMark c :=
        Call.not_losesMark_of_unmarked hrefers.2
      simpa [Category.target, ← Call.losesMark_iff hrefers.1] using hmark

theorem Change.losesMark_iff {x : Change} (hrefers : x.Refers c) :
    x.LosesMark c ↔ c.HoldsAny (x.outlines c) := by
  cases x with
  | insert content =>
      have hmentioned : ¬c.HoldsAny ((Fragment.mentioned content).map fun name =>
          .leaf (.atom .var name)) := holdsAny_leaves fun p hp => by
        obtain ⟨name, -, rfl⟩ := List.mem_map.mp hp
        exact ⟨_, rfl⟩
      simp [Change.LosesMark, Change.outlines, Change.contentOutline, holds_within, hmentioned]
  | update calls =>
      simp only [Change.LosesMark, Change.outlines, Category.list, Category.call, HoldsAny,
        List.mem_flatMap, List.mem_singleton]
      constructor
      · rintro ⟨call, hcall, hloses⟩
        exact ⟨_, ⟨call, hcall, rfl⟩, (Call.losesMark_iff (hrefers.2 call hcall)).mp hloses⟩
      · rintro ⟨_, ⟨call, hcall, rfl⟩, hholds⟩
        exact ⟨call, hcall, (Call.losesMark_iff (hrefers.2 call hcall)).mpr hholds⟩
  | delete targets =>
      refine iff_of_false id ?_
      rintro ⟨p, hp, hholds⟩
      obtain ⟨x, hx, hp⟩ := List.mem_flatMap.mp hp
      exact x.not_holdsAny (hrefers.2 x hx) ⟨p, hp, hholds⟩
  | merge first second => simp [Change.LosesMark, Change.outlines]

theorem Statement.losesMark_iff {x : Statement} (hrefers : Category.statement.Refers c x) :
    x.LosesMark c ↔ c.HoldsAny (Category.statement.outlines c x) := by
  have hiris : ∀ ts : List Term, ¬c.HoldsAny (Category.iri.list.outlines c ts) := fun ts =>
    holdsAny_leaves fun p hp => by
      obtain ⟨t, -, ht⟩ := List.mem_flatMap.mp hp
      exact ⟨_, List.mem_singleton.mp ht⟩
  cases x with
  | select projections isWhere x =>
      have hprojections : ¬c.HoldsAny (Category.projection.list.outlines c projections) :=
        holdsAny_leaves fun p hp => by
          obtain ⟨q, -, hq⟩ := List.mem_flatMap.mp hp
          cases q <;> exact ⟨_, List.mem_singleton.mp hq⟩
      simp [Statement.LosesMark, Category.statement, holds_within, hprojections,
        Condition.losesMark_iff hrefers.2]
  | bare x =>
      simp [Statement.LosesMark, Category.statement, holds_within, Condition.losesMark_iff hrefers]
  | change x condition =>
      have hcontainer : x.container ≠ .dynamic := by cases x <;> simp [Change.container]
      have hcondition : (∃ y ∈ condition, y.2.clauses.LosesMark c) ↔
          c.HoldsAny (Category.optionalCondition.outlines c condition) := by
        cases condition with
        | none => simp [Category.optionalCondition]
        | some y => simp [Category.optionalCondition, Condition.losesMark_iff (hrefers.2 y rfl)]
      rw [Statement.LosesMark, Change.losesMark_iff hrefers.1, hcondition]
      simp [Category.statement, holds_within hcontainer]
  | load source targets =>
      have htargets : ¬c.HoldsAny (Category.intoOutlines c targets) := by
        cases targets with
        | nil => simp [Category.intoOutlines]
        | cons t ts => simpa [Category.intoOutlines, holds_within] using hiris (t :: ts)
      simp [Statement.LosesMark, Category.statement, holds_within, Category.iri, htargets]
  | drop source => simp [Statement.LosesMark, Category.statement, holds_within, Category.iri]
  | create source => simp [Statement.LosesMark, Category.statement, holds_within, Category.iri]

theorem Rule.losesMark_iff {r : Rule} (hrefers : Category.rule.Refers c r) :
    r.LosesMark c ↔ c.HoldsAny (Category.rule.outlines c r) := by
  have hparameters : ¬c.HoldsAny (Category.parameter.list.outlines c r.parameters) :=
    holdsAny_leaves fun p hp => by
      obtain ⟨v, -, hv⟩ := List.mem_flatMap.mp hp
      exact ⟨_, List.mem_singleton.mp hv⟩
  simp [Rule.LosesMark, Category.rule, holds_within, hparameters, r.body.losesMark_iff hrefers]

namespace Document

variable {c : Setting} {d : Document}

/-- The bindings among the events of a text are those of its prefixes. -/
theorem binding_mem_iff (hfits : d.Fits c) (hc : Fresh c) {b : Prefixed} :
    .leaf (Directive.bindingLeaf b) ∈ (d.outline c).events ↔ b ∈ d.prefixes c := by
  obtain ⟨identifier, iri, kind⟩ := b
  rw [mem_events rfl, leavesAll_eq hfits hc]
  constructor
  · rintro (h | ⟨item, hitem, h⟩ | ⟨x, -, h | ⟨-, h⟩ | ⟨content, -, h⟩⟩)
    · cases h
    · obtain rfl := Event.leaf.inj h
      obtain hbase | hbinding := List.mem_append.mp hitem
      · obtain ⟨iri, -, h⟩ := List.mem_map.mp hbase
        cases h
      · obtain ⟨⟨_, _, _⟩, hb, h⟩ := List.mem_map.mp hbinding
        cases h
        exact hb
    all_goals cases h
  · exact fun hb => .inr (.inl ⟨_, List.mem_append_right _ (List.mem_map_of_mem hb), rfl⟩)

/-- A prefix has the kind of its one binding. -/
theorem kind?_eq_some_iff (hfits : d.Fits c) (hc : Fresh c) {qualifier : String}
    {kind : ReferenceKind} :
    (d.settled c).scope.kind? qualifier = some kind ↔
      ∃ iri, (⟨qualifier, iri, kind⟩ : Prefixed) ∈ d.prefixes c := by
  have hdistinct := (Directive.settleAll_start hfits.directives hc.bindings).2.1
  rw [Scope.kind?, Grammar.Setting.scope_bindings, prefixes]
  simp only [List.mem_reverse, Option.map_eq_some_iff]
  constructor
  · rintro ⟨⟨identifier, iri, kind⟩, hfind, rfl⟩
    obtain rfl : identifier = qualifier := by simpa using List.find?_some hfind
    exact ⟨iri, List.mem_of_find?_eq_some hfind⟩
  · rintro ⟨iri, hmem⟩
    refine ⟨⟨qualifier, iri, kind⟩, ?_, rfl⟩
    obtain ⟨found, hfound⟩ : ∃ found, (d.settled c).bindings.find? (·.identifier == qualifier) =
        some found := Option.isSome_iff_exists.mp (List.find?_isSome.mpr ⟨_, hmem, by simp⟩)
    have hname : found.identifier = qualifier := by simpa using List.find?_some hfound
    have hsame : found = ⟨qualifier, iri, kind⟩ :=
      List.inj_on_of_nodup_map hdistinct (List.mem_of_find?_eq_some hfound) hmem hname
    exact hfound.trans (congrArg some hsame)

/-- A call in a text loses its mark exactly if the events of the text say so. -/
theorem losesMark_iff (hfits : d.Fits c) (hc : Fresh c) :
    d.LosesMark c ↔ RepeatsMark (d.outline c).events := by
  have hholds : d.LosesMark c ↔ (d.settled c).scope.Holds (d.outline c) := by
    have hleaves : ¬(d.settled c).scope.HoldsAny
        ((Directive.leavesAll c d.directives).map .leaf) := holdsAny_leaves fun p hp => by
      obtain ⟨item, -, rfl⟩ := List.mem_map.mp hp
      exact ⟨item, rfl⟩
    have hrules : (d.settled c).scope.HoldsAny
        (d.rules.flatMap (Category.rule.outlines (d.settled c).scope)) ↔
          ∃ r ∈ d.rules, r.LosesMark (d.settled c).scope := by
      simp only [HoldsAny, List.mem_flatMap]
      constructor
      · rintro ⟨p, ⟨r, hr, hp⟩, hholds⟩
        exact ⟨r, hr, (Rule.losesMark_iff (hfits.rules r hr)).mpr ⟨p, hp, hholds⟩⟩
      · rintro ⟨r, hr, hloses⟩
        obtain ⟨p, hp, hholds⟩ := (Rule.losesMark_iff (hfits.rules r hr)).mp hloses
        exact ⟨p, ⟨r, hr, hp⟩, hholds⟩
    have hstatement : (d.settled c).scope.HoldsAny (d.statement.toList.flatMap
        (Category.statement.outlines (d.settled c).scope)) ↔
          ∃ x ∈ d.statement, x.LosesMark (d.settled c).scope := by
      cases hx : d.statement with
      | none => simp
      | some x => simpa using (Statement.losesMark_iff (hfits.statement x (by simp [hx]))).symm
    rw [LosesMark, outline, holds_within (by simp)]
    simp [hleaves, hrules, hstatement]
  rw [hholds]
  constructor
  · rintro ⟨o, ⟨kind, name, arguments, rfl, hkind, htwo⟩, hin⟩
    obtain ⟨iri, hiri⟩ := (kind?_eq_some_iff hfits hc).mp hkind
    exact ⟨name, iri, kind, arguments, (binding_mem_iff hfits hc).mpr hiri, htwo,
      Outline.infix_of_isIn hin⟩
  · rintro ⟨name, iri, kind, arguments, hbinding, htwo, hinfix⟩
    have hkind := (kind?_eq_some_iff hfits hc).mpr ⟨iri, (binding_mem_iff hfits hc).mp hbinding⟩
    exact ⟨_, ⟨kind, name, arguments, rfl, hkind, htwo⟩, Outline.isIn_iff_infix.mpr hinfix⟩

end Document

end Phrase

end TopicQuery
