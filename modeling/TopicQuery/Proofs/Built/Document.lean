import TopicQuery.Proofs.Built.Statement
import TopicQuery.Proofs.Optimized

/-!
Whole texts. The directives of a text settle how its terms are read; its rules and
its statement are then built one behind the other into what the outline of the text
is translated into. A rule is unless a parameter is declared twice or does not occur in the
body; which of its parameters a rule uses can be seen from what its body is reported as.
-/

namespace TopicQuery

open Outline

/-! ## The check of parameters -/

namespace Rule

theorem create.repeated?_eq_some {seen ps : List String} {p : String}
    (h : create.repeated? seen ps = some p) : p ∈ seen ∧ p ∈ ps ∨ [p, p].Sublist ps := by
  induction ps generalizing seen with
  | nil => cases h
  | cons q ps ih =>
      rw [create.repeated?] at h
      split at h
      · next hq =>
        obtain rfl := Option.some.inj h
        exact .inl ⟨hq, List.mem_cons_self⟩
      · -- what is found behind `q` was seen before `q`, or is `q`, or comes twice behind it
        obtain ⟨hseen, hp⟩ | hp := ih h
        · obtain rfl | hseen := List.mem_cons.mp hseen
          · exact .inr ((List.singleton_sublist.mpr hp).cons_cons _)
          · exact .inl ⟨hseen, List.mem_cons_of_mem _ hp⟩
        · exact .inr (hp.cons q)

theorem create.repeated?_eq_none {seen ps : List String} (h : create.repeated? seen ps = none) :
    (∀ p ∈ ps, p ∉ seen) ∧ ps.Nodup := by
  induction ps generalizing seen with
  | nil => simp
  | cons q ps ih =>
      rw [create.repeated?] at h
      split at h
      · cases h
      · next hq =>
        obtain ⟨hseen, hnodup⟩ := ih h
        refine ⟨List.forall_mem_cons.mpr ⟨hq, fun p hp hmem => ?_⟩,
          List.nodup_cons.mpr ⟨fun hmem => ?_, hnodup⟩⟩
        · exact hseen p hp (List.mem_cons_of_mem _ hmem)
        · exact hseen q hmem List.mem_cons_self

/-- A rule is made unless a parameter is declared twice or does not occur in the body. -/
theorem outcome_create (name : String) (parameters : List String) (body : List Clause) :
    Outcome
      (fun failure =>
        (∃ p, [p, p].Sublist parameters ∧ failure = .builder (.repeatedParameter name p)) ∨
          ∃ p ∈ parameters, p ∉ variablesOf body ∧ failure = .builder (.unusedParameter name p))
      (fun rule => rule = ⟨name, parameters, body⟩) (create name parameters body) := by
  unfold create
  split
  · next p hp =>
    obtain ⟨hseen, -⟩ | hp := create.repeated?_eq_some hp
    · cases hseen
    · exact .inl ⟨p, hp, rfl⟩
  · next hrepeated =>
    have hnodup := (create.repeated?_eq_none hrepeated).2
    split
    · next p hp =>
      have hunused : p ∉ variablesOf body := by simpa using List.find?_some hp
      exact .inr ⟨p, List.mem_of_find?_eq_some hp, hunused, rfl⟩
    · next hused =>
      refine .ok ?_ rfl
      rintro failure (⟨p, hp, -⟩ | ⟨p, hp, hunused, -⟩)
      · have htwice : [p, p].Nodup := hnodup.sublist hp
        simp at htwice
      · have hnot := List.find?_eq_none.mp hused p hp
        simp [hunused] at hnot

end Rule

namespace Phrase

variable {f : Factory} {b : Builder} {flaw : Leaf → Failure → Prop} {c : Scope}

/-! ## Rules of a text -/

/-- A parameter of the rule is declared twice, or does not occur in its body. -/
def Rule.Misuses (c : Scope) (r : Rule) (failure : Failure) : Prop :=
  (∃ p, [p, p].Sublist r.parameters ∧ failure = .builder (.repeatedParameter r.name p)) ∨
    ∃ p ∈ r.parameters, .leaf (.atom .var p) ∉ eventsAll (r.body.outlines c) ∧
      failure = .builder (.unusedParameter r.name p)

/-- The outline is a rule. -/
def IsRule (f : Factory) (b : Builder) (o : Outline) (x : TopicQuery.Rule) : Prop :=
  o.rule? (b.term? f) = some x

/-- What lies in the outline of a rule. -/
def Rule.inner (c : Scope) (r : Rule) : List Outline :=
  (r.parameters.map fun v => .leaf (.atom .var v)) ++ [.within .body (r.body.outlines c)]

/-- The outline of a rule. -/
def Rule.outline (c : Scope) (r : Rule) : Outline := .within (.rule r.name) (r.inner c)

theorem Rule.outlines_eq (r : Rule) : Category.rule.outlines c r = [r.outline c] := by
  rw [Rule.outline, Rule.inner, List.map_eq_flatMap]
  rfl

theorem definition?_vars {read : Leaf → Option TopicQuery.Term} {os : List Outline}
    {xs : List TopicQuery.Clause} (h : clauses? read os = some xs) (names : List String) :
    definition? read ((names.map fun v => Outline.leaf (.atom .var v)) ++
      [Outline.within .body os]) = some (names, xs) := by
  induction names with
  | nil =>
      rw [List.map_nil, List.nil_append, definition?, h]
      rfl
  | cons v names ih =>
      rw [List.map_cons, List.cons_append, definition?, ih]
      rfl

theorem first?_body (names : List String) (xs : List TopicQuery.Clause) :
    Operands.first? Operand.body? ((names.map fun v => Operand.term (.var v)) ++
      [Operand.body xs]) = some xs := by
  induction names with
  | nil => rfl
  | cons v names ih => exact ih

theorem buildsAll_rule (hf : f.IsUsual) (r : Rule)
    (h : Explains f b flaw c (Category.rule.tokens r)) (hrefers : r.body.Refers c) :
    BuildsAll f (b.operand f) flaw
      (fun ys => ∃ xs, ys = (r.parameters.map fun v => Operand.term (.var v)) ++ [Operand.body xs] ∧
        List.Forall₂ (IsClause f b) (r.body.outlines c) xs)
      (r.inner c) := by
  have htokens : r.body.tokens ⊆ Category.rule.tokens r := fun u hu => by
    simp [Category.rule, hu]
  have hclauses := buildsAll_clauses hf r.body (h.of_subset htokens) hrefers
  have hbody : Builds f (b.operand f) flaw
      (fun y => ∃ xs, y = .body xs ∧ List.Forall₂ (IsClause f b) (r.body.outlines c) xs)
      (.within .body (r.body.outlines c)) := by
    refine builds_list (fun xs => ?_) hclauses
    rw [Operands.complete, Operands.clauses_clauses]
  have hlast : BuildsAll f (b.operand f) flaw
      (fun ys => ∃ xs, ys = [.body xs] ∧ List.Forall₂ (IsClause f b) (r.body.outlines c) xs)
      [.within .body (r.body.outlines c)] := by
    refine buildsAll_singleton hbody ?_
    rintro y ⟨xs, rfl, hxs⟩
    exact ⟨xs, rfl, hxs⟩
  refine buildsAll_append (buildsAll_vars h r.parameters) hlast ?_
  rintro ys zs rfl ⟨xs, rfl, hxs⟩
  exact ⟨xs, rfl, hxs⟩

/-- A rule is built into what it is translated into, unless it misuses a parameter. -/
theorem builds_rule (hf : f.IsUsual) (hcreate : f.rule = Rule.create) (r : Rule)
    (h : Explains f b flaw c (Category.rule.tokens r)) (hrefers : r.body.Refers c) :
    Outcome (fun failure => FlawIn flaw (r.outline c).events failure ∨ r.Misuses c failure)
      (Holds .rule (IsRule f b) (r.outline c)) ((r.outline c).operand f (b.operand f)) := by
  have hcomplete : ∀ ys, (∃ xs,
        ys = (r.parameters.map fun v => Operand.term (.var v)) ++ [Operand.body xs] ∧
        List.Forall₂ (IsClause f b) (r.body.outlines c) xs) →
      Outcome (r.Misuses c) (Holds .rule (IsRule f b) (r.outline c))
        (Operands.complete f (.rule r.name) ys) := by
    rintro ys ⟨xs, rfl, hxs⟩
    rw [Operands.complete, variableNames_vars _ rfl, ok_bind, first?_body, Option.getD_some,
      hcreate]
    have hcreated := TopicQuery.Rule.outcome_create r.name r.parameters xs
    refine Outcome.of_iff (hcreated.bind_ok ?_) fun failure => ?_
    · rintro rule rfl
      refine ⟨_, rfl, _, rfl, ?_⟩
      rw [IsRule, Rule.outline, rule?, Rule.inner, definition?_vars (clauses?_forall₂ hxs)]
      rfl
    · simp only [Rule.Misuses, mem_variablesOf, uses_clauses hxs]
  rw [Rule.outline, operand]
  refine ((buildsAll_rule hf r h hrefers).bind hcomplete).of_iff fun failure => ?_
  simp [FlawIn, events]

end Phrase

open Grammar

/-! ## Directives -/

namespace Builder

variable {f : Factory}

/-- A prefix with its IRI resolved against a base. -/
def resolved (f : Factory) (base : Iri) (p : Prefixed) : Except Failure Binding :=
  (f.resolveIri base p.iri).map fun iri => ⟨p.identifier, iri, p.kind⟩

theorem run_bindings (ps : List Prefixed) (b : Builder) :
    b.run f ((ps.map Phrase.Directive.bindingLeaf).map .leaf) =
      (ps.mapM (resolved f b.base) >>= fun more =>
        .ok { b with prefixes := more.reverse ++ b.prefixes, bindings := b.bindings ++ more }) := by
  induction ps generalizing b with
  | nil => simp [run, ok_bind, pure, Except.pure]
  | cons p ps ih =>
      rw [List.map_cons, List.map_cons, List.mapM_cons, resolved]
      have hfirst : b.leaf f (Phrase.Directive.bindingLeaf p) =
          (f.resolveIri b.base p.iri >>= fun iri =>
            .ok { b with
              prefixes := ⟨p.identifier, iri, p.kind⟩ :: b.prefixes
              bindings := b.bindings ++ [⟨p.identifier, iri, p.kind⟩] }) := rfl
      rw [← List.singleton_append, run_append, run_leaf, hfirst]
      cases f.resolveIri b.base p.iri with
      | error failure => rfl
      | ok iri =>
          rw [ok_bind, ok_bind, ih]
          cases ps.mapM (resolved f b.base) with
          | error failure => rfl
          | ok more => simp [Except.map, ok_bind, pure, Except.pure]

end Builder

namespace Outline

variable {f : Factory} {base : Iri} {os : List Outline}

theorem base?_of_head {document : Iri} (hos : ∀ o ∈ os.head?, ∀ iri, o ≠ .leaf (.base iri)) :
    base? f document os = some (document, os) := by
  unfold base?
  split
  · next iri os => exact absurd rfl (hos _ rfl iri)
  · rfl

theorem bindings?_bindings (ps : List Prefixed)
    (hos : ∀ o ∈ os.head?, ∀ identifier iri kind, o ≠ .leaf (.binding identifier iri kind))
    {found : List Binding} (h : ps.mapM (Builder.resolved f base) = .ok found) :
    bindings? f base ((ps.map Phrase.Directive.bindingLeaf).map .leaf ++ os) =
      some (found, os) := by
  induction ps generalizing found with
  | nil =>
      cases h
      rw [List.map_nil, List.map_nil, List.nil_append]
      unfold bindings?
      split
      · next identifier iri kind os => exact absurd rfl (hos _ rfl identifier iri kind)
      · rfl
  | cons p ps ih =>
      rw [List.mapM_cons] at h
      obtain ⟨first, hfirst, h⟩ := ok_of_bind h
      obtain ⟨more, hmore, h⟩ := ok_of_bind h
      cases h
      rw [Builder.resolved] at hfirst
      obtain ⟨iri, hiri, rfl⟩ : ∃ iri, f.resolveIri base p.iri = .ok iri ∧
          first = ⟨p.identifier, iri, p.kind⟩ := by
        cases hiri : f.resolveIri base p.iri with
        | error failure =>
            rw [hiri] at hfirst
            cases hfirst
        | ok iri =>
            rw [hiri] at hfirst
            exact ⟨iri, rfl, (Except.ok.inj hfirst).symm⟩
      rw [List.map_cons, List.map_cons, List.cons_append, Phrase.Directive.bindingLeaf, bindings?,
        hiri, ih hmore]
      rfl

end Outline

namespace Phrase.Document

variable {f : Factory} {document : Iri} {c : Setting} {d : Document}

/-- The base of a text: the one that it declares, resolved against that of the document. -/
def based (f : Factory) (document : Iri) (d : Document) : Except Failure Iri :=
  match d.base? with
  | none => .ok document
  | some iri => f.resolveIri document iri

/-- How terms are read behind the directives of a text. -/
def reader (f : Factory) (document : Iri) (c : Setting) (d : Document) :
    Except Failure Builder := do
  let base ← d.based f document
  let bindings ← (d.prefixes c).mapM (Builder.resolved f base)
  return ⟨document, base, bindings.reverse, bindings, [], none⟩

/-- The rules and the statement of a text. -/
def body (c : Setting) (d : Document) : List Outline :=
  d.rules.flatMap (Category.rule.outlines (d.settled c).scope) ++
    d.statement.toList.flatMap (Category.statement.outlines (d.settled c).scope)

/-- What lies in the outline of a text. -/
def inner (c : Setting) (d : Document) : List Outline :=
  (d.base?.toList.map fun iri => .leaf (.base iri)) ++
    ((d.prefixes c).map Directive.bindingLeaf).map .leaf ++ d.body c

theorem outline_eq (hfits : d.Fits c) (hc : Fresh c) :
    d.outline c = .within .document (d.inner c) := by
  rw [outline, leavesAll_eq hfits hc, inner, body]
  simp [Function.comp_def]

theorem run_directives :
    (Element.started document).run f
        ((d.base?.toList.map fun iri => Event.leaf (.base iri)) ++
          ((d.prefixes c).map Directive.bindingLeaf).map .leaf) =
      (d.reader f document c >>= fun b => .ok { b with frames := [⟨.document, []⟩] }) := by
  have hbindings : ∀ base : Iri,
      (⟨document, base, [], [], [⟨.document, []⟩], none⟩ : Builder).run f
          (((d.prefixes c).map Directive.bindingLeaf).map .leaf) =
        (((d.prefixes c).mapM (Builder.resolved f base) >>= fun bindings =>
          .ok ⟨document, base, bindings.reverse, bindings, [], none⟩) >>= fun b : Builder =>
            .ok { b with frames := [⟨.document, []⟩] }) := by
    intro base
    rw [Builder.run_bindings]
    cases (d.prefixes c).mapM (Builder.resolved f base) with
    | error failure => rfl
    | ok bindings => rw [ok_bind, ok_bind, ok_bind, List.append_nil, List.nil_append]
  rw [reader, based]
  cases d.base? with
  | none => exact hbindings document
  | some iri =>
      have hleaf : (Element.started document).leaf f (.base iri) =
          (f.resolveIri document iri >>= fun base =>
            .ok ⟨document, base, [], [], [⟨.document, []⟩], none⟩) := rfl
      rw [Option.toList_some, List.map_singleton, Builder.run_append, Builder.run_leaf, hleaf]
      dsimp only
      cases f.resolveIri document iri with
      | error failure => rfl
      | ok base => exact hbindings base

/-- No directive lies in rules and statements, and no document. -/
theorem isInside_body (d : Document) (c : Setting) :
    ∀ e ∈ eventsAll (d.body c), e.isInside = true := by
  intro e he
  by_contra hinside
  -- such an event is no inner one, and of those a statement has only its own and its condition's
  have hinner : isInner e = false := by
    cases e with
    | enter k => cases k <;> first | rfl | exact absurd rfl hinside
    | leave tag => exact absurd rfl hinside
    | leaf item => cases item <;> first | rfl | exact absurd rfl hinside
  rw [body, eventsAll_append] at he
  obtain he | he := List.mem_append.mp he
  · exact not_mem_of_innerAll hinner (InnerAll.flatMap fun r _ => r.innerAll) he
  · obtain ⟨o, ho, he⟩ := mem_eventsAll.mp he
    obtain ⟨x, -, ho⟩ := List.mem_flatMap.mp ho
    obtain rfl | ⟨-, rfl⟩ | ⟨content, -, rfl⟩ :=
      (Statement.mem_events hinner x).mp (mem_eventsAll.mpr ⟨o, ho, he⟩)
    · cases x with
      | change x y => cases x <;> exact hinside rfl
      | _ => exact hinside rfl
    · exact hinside rfl
    · exact hinside rfl

/-! ## From events to operands -/

/-- Building a text reads its directives, puts its parts together and lists rules and statement. -/
theorem ofEvents_eq (hfits : d.Fits c) (hc : Fresh c) :
    Query.ofEvents f document (d.outline c).events none =
      (d.reader f document c >>= fun b =>
        operands f (b.operand f) (d.body c) >>= fun xs =>
          Operands.document xs >>= fun parts =>
            .ok ⟨b.base, b.bindings, parts.1, parts.2, []⟩) := by
  have hstarted : (Builder.new document).enter .document = .ok (Element.started document) := by
    simp [Builder.enter, Builder.new, Element.started]
  have hevents : (d.outline c).events = .enter .document ::
      ((((d.base?.toList.map fun iri => Event.leaf (.base iri)) ++
        ((d.prefixes c).map Directive.bindingLeaf).map .leaf) ++ eventsAll (d.body c)) ++
          [Event.leave .document]) := by
    have hbase : eventsAll (d.base?.toList.map fun iri => .leaf (.base iri)) =
        d.base?.toList.map fun iri => .leaf (.base iri) := by
      cases d.base? <;> rfl
    rw [outline_eq hfits hc, events, inner, eventsAll_append, eventsAll_append, eventsAll_leaves,
      hbase]
    rfl
  rw [Query.ofEvents, hevents, Builder.run_enter, hstarted, ok_bind, Builder.run_append,
    Builder.run_append, run_directives]
  cases hreader : d.reader f document c with
  | error failure => rfl
  | ok b =>
      have hquery : b.query = none := by
        rw [reader] at hreader
        obtain ⟨base, -, hreader⟩ := ok_of_bind hreader
        obtain ⟨bindings, -, hreader⟩ := ok_of_bind hreader
        cases hreader
        rfl
      -- behind the directives the only frame is that of the document
      rw [ok_bind, ok_bind, ok_bind,
        Builder.run_eventsAll (d.body c) (d.isInside_body c) hquery]
      cases operands f (b.operand f) (d.body c) with
      | error failure => rfl
      | ok xs => exact Builder.result_document rfl

end Phrase.Document

/-! ## From operands to a query -/

theorem Operands.documentFrom_rules (found rules : List Rule) (xs : List Operand) :
    documentFrom found none (rules.map .rule ++ xs) = documentFrom (found ++ rules) none xs := by
  induction rules generalizing found with
  | nil => rw [List.map_nil, List.nil_append, List.append_nil]
  | cons rule rules ih =>
      rw [List.map_cons, List.cons_append, documentFrom, ih, List.append_assoc]
      rfl

theorem Operands.document_parts (rules : List Rule) (statement : Option Statement) :
    document (rules.map .rule ++ (statement.map Operand.statement).toList) =
      .ok (rules, statement) := by
  rw [document, documentFrom_rules]
  cases statement <;> rfl

namespace Outline

variable {read : Leaf → Option Term} {o : Outline}

theorem parts?_rule {os : List Outline} {rule : Rule} {rules : List Rule}
    {statement : Option Statement} (ho : o.rule? read = some rule)
    (hos : parts? read os = some (rules, statement)) :
    parts? read (o :: os) = some (rule :: rules, statement) := by
  cases o with
  | leaf item => cases ho
  | within k inner =>
      cases k with
      | rule name =>
          rw [parts?, ho, hos]
          rfl
      | _ => cases ho

theorem parts?_rules {os ps : List Outline} {rules : List Rule} {statement : Option Statement}
    (hrules : List.Forall₂ (fun o rule => o.rule? read = some rule) os rules)
    (hps : parts? read ps = some ([], statement)) :
    parts? read (os ++ ps) = some (rules, statement) := by
  induction hrules with
  | nil => exact hps
  | cons hfirst _ ih => exact parts?_rule hfirst ih

theorem parts?_statement {statement : Statement} (ho : o.statement? read = some statement) :
    parts? read [o] = some ([], some statement) := by
  cases o with
  | leaf item => cases ho
  | within k inner =>
      cases k with
      | rule name => cases ho
      | _ => simp [parts?, ho]

end Outline

namespace Phrase.Document

variable {f : Factory} {b : Builder} {flaw : Leaf → Failure → Prop} {document : Iri} {c : Setting}
  {d : Document}

theorem flatMap_rules (d : Document) (sc : Scope) :
    d.rules.flatMap (Category.rule.outlines sc) = d.rules.map (Rule.outline sc) := by
  rw [List.map_eq_flatMap, funext (Rule.outlines_eq (c := sc))]

/-- The rules of a text are built one behind the other, unless one misuses a parameter. -/
theorem outcome_rules (hf : f.IsUsual) (hcreate : f.rule = Rule.create) {sc : Scope}
    (h : Explains f b flaw sc d.tokens) (hrefers : ∀ r ∈ d.rules, Category.rule.Refers sc r) :
    Outcome
      (fun failure =>
        FlawIn flaw (eventsAll (d.rules.flatMap (Category.rule.outlines sc))) failure ∨
          ∃ r ∈ d.rules, r.Misuses sc failure)
      (fun xs => ∃ rules, xs = rules.map .rule ∧
        List.Forall₂ (IsRule f b) (d.rules.flatMap (Category.rule.outlines sc)) rules)
      (operands f (b.operand f) (d.rules.flatMap (Category.rule.outlines sc))) := by
  have hrule : ∀ r ∈ d.rules,
      Outcome (fun failure => FlawIn flaw (r.outline sc).events failure ∨ r.Misuses sc failure)
        (Holds .rule (IsRule f b) (r.outline sc)) ((r.outline sc).operand f (b.operand f)) := by
    intro r hr
    have htokens : Category.rule.tokens r ⊆ d.tokens := fun u hu =>
      List.mem_append_right _ (List.mem_append_left _ (List.mem_flatMap.mpr ⟨r, hr, hu⟩))
    exact builds_rule hf hcreate r (h.of_subset htokens) (hrefers r hr)
  rw [flatMap_rules, operands_eq_mapM, List.mapM_map]
  refine ((Outcome.mapM hrule).imp fun xs hxs => ?_).of_iff fun failure => ?_
  · exact exists_of_holds (List.forall₂_map_left_iff.mpr hxs)
  · simp only [flawIn_eventsAll, List.mem_map, exists_exists_and_eq_and, and_or_left, exists_or]

/-- The rules and the statement of a text are built into what they are translated into. -/
theorem outcome_body (hf : f.IsUsual) (hcreate : f.rule = Rule.create) (hfits : d.Fits c)
    (h : Explains f b flaw (d.settled c).scope d.tokens) :
    Outcome
      (fun failure => FlawIn flaw (eventsAll (d.body c)) failure ∨
        ∃ r ∈ d.rules, r.Misuses (d.settled c).scope failure)
      (fun xs => ∃ rules statement, xs = rules.map .rule ++ (statement.map .statement).toList ∧
        parts? (b.term? f) (d.body c) = some (rules, statement))
      (operands f (b.operand f) (d.body c)) := by
  have hstatement : BuildsAll f (b.operand f) flaw
      (fun xs => ∃ statement, xs = (statement.map Operand.statement).toList ∧
        parts? (b.term? f)
          (d.statement.toList.flatMap (Category.statement.outlines (d.settled c).scope)) =
            some ([], statement))
      (d.statement.toList.flatMap (Category.statement.outlines (d.settled c).scope)) := by
    cases hx : d.statement with
    | none => exact buildsAll_nil ⟨none, rfl, rfl⟩
    | some x =>
        have htokens : Category.statement.tokens x ⊆ d.tokens := fun u hu =>
          List.mem_append_right _ (List.mem_append_right _
            (List.mem_append_left _ (by simpa [hx] using hu)))
        obtain ⟨o, ho, hbuilds⟩ :=
          builds_statement hf x (h.of_subset htokens) (hfits.statement x hx)
        rw [Option.toList_some, List.flatMap_singleton, ho]
        refine buildsAll_singleton hbuilds ?_
        rintro y ⟨statement, rfl, htranslated⟩
        exact ⟨some statement, rfl, parts?_statement htranslated⟩
  have hrules := outcome_rules hf hcreate h hfits.rules
  have hall : ∀ xs, (∃ rules, xs = rules.map .rule ∧ List.Forall₂ (IsRule f b)
        (d.rules.flatMap (Category.rule.outlines (d.settled c).scope)) rules) →
      Outcome
        (FlawIn flaw (eventsAll
          (d.statement.toList.flatMap (Category.statement.outlines (d.settled c).scope))))
        (fun zs => ∃ rules statement, zs = rules.map .rule ++ (statement.map .statement).toList ∧
          parts? (b.term? f) (d.body c) = some (rules, statement))
        (operands f (b.operand f)
          (d.statement.toList.flatMap (Category.statement.outlines (d.settled c).scope)) >>=
            fun ys => .ok (xs ++ ys)) := by
    rintro xs ⟨rules, rfl, hall⟩
    refine Outcome.bind_ok hstatement ?_
    rintro ys ⟨statement, rfl, htranslated⟩
    exact ⟨_, rfl, rules, statement, rfl, parts?_rules hall htranslated⟩
  rw [body, operands_eq_mapM, List.mapM_append, ← operands_eq_mapM, ← operands_eq_mapM]
  refine (hrules.bind hall).of_iff fun failure => ?_
  rw [eventsAll_append, flawIn_append, or_right_comm]

/-- No rule and no statement is reported as a leaf. -/
theorem ne_leaf_of_mem_body {o : Outline} (ho : o ∈ d.body c) (item : Leaf) : o ≠ .leaf item := by
  rintro rfl
  rw [body, flatMap_rules] at ho
  obtain ho | ho := List.mem_append.mp ho
  · obtain ⟨r, -, ho⟩ := List.mem_map.mp ho
    cases ho
  · obtain ⟨x, -, ho⟩ := List.mem_flatMap.mp ho
    cases x <;> cases List.mem_singleton.mp ho

/-- The outline of a text is translated by its directives and by its parts. -/
theorem query?_inner (h : d.reader f document c = .ok b) {rules : List TopicQuery.Rule}
    {statement : Option TopicQuery.Statement}
    (hparts : parts? (b.term? f) (d.body c) = some (rules, statement)) :
    query? f document (d.inner c) = some ⟨b.base, b.bindings, rules, statement, []⟩ := by
  rw [reader] at h
  obtain ⟨base, hbased, h⟩ := ok_of_bind h
  obtain ⟨bindings, hbindings, h⟩ := ok_of_bind h
  cases h
  have hrest : bindings? f base (((d.prefixes c).map Directive.bindingLeaf).map .leaf ++ d.body c) =
      some (bindings, d.body c) :=
    bindings?_bindings (d.prefixes c)
      (fun o ho identifier iri kind => ne_leaf_of_mem_body (List.mem_of_mem_head? ho) _) hbindings
  have hbase : Outline.base? f document (d.inner c) =
      some (base, ((d.prefixes c).map Directive.bindingLeaf).map .leaf ++ d.body c) := by
    rw [based] at hbased
    rw [inner]
    cases hnamed : d.base? with
    | none =>
        rw [hnamed] at hbased
        obtain rfl := Except.ok.inj hbased
        refine Outline.base?_of_head ?_
        rintro o ho iri rfl
        obtain hmem | hmem := List.mem_append.mp (List.mem_of_mem_head? ho)
        · obtain ⟨item, hitem, heq⟩ := List.mem_map.mp hmem
          obtain ⟨p, -, rfl⟩ := List.mem_map.mp hitem
          cases heq
        · exact ne_leaf_of_mem_body hmem _ rfl
    | some iri =>
        rw [hnamed] at hbased
        simp only at hbased
        rw [Option.toList_some, List.map_singleton, List.append_assoc, List.singleton_append,
          Outline.base?, hbased]
        rfl
  rw [query?, hbase]
  simp only [Option.bind_eq_bind, Option.bind_some]
  rw [hrest]
  simp only [Option.bind_some]
  rw [hparts]
  rfl

/-- Behind its directives a text is built into its translation unless something in it is wrong. -/
theorem outcome_ofEvents (hf : f.IsUsual) (hcreate : f.rule = Rule.create) (hfits : d.Fits c)
    (hc : Fresh c) (hreader : d.reader f document c = .ok b)
    (h : Explains f b flaw (d.settled c).scope d.tokens) :
    Outcome
      (fun failure => FlawIn flaw (eventsAll (d.body c)) failure ∨
        ∃ r ∈ d.rules, r.Misuses (d.settled c).scope failure)
      (fun q => query? f document (d.inner c) = some q)
      (Query.ofEvents f document (d.outline c).events none) := by
  rw [ofEvents_eq hfits hc, hreader, ok_bind]
  refine (outcome_body hf hcreate hfits h).bind_ok ?_
  rintro xs ⟨rules, statement, rfl, hparts⟩
  refine ⟨_, ?_, query?_inner hreader hparts⟩
  rw [Operands.document_parts]
  rfl

/-- A text that is built is built into its translation. -/
theorem query?_of_ofEvents (hf : f.IsUsual) (hcreate : f.rule = Rule.create) (hfits : d.Fits c)
    (hc : Fresh c) {q : Query}
    (h : Query.ofEvents f document (d.outline c).events none = .ok q) :
    query? f document (d.inner c) = some q := by
  cases hreader : d.reader f document c with
  | error failure =>
      rw [ofEvents_eq hfits hc, hreader] at h
      cases h
  | ok b =>
      have hexplains : Explains f b (fun item failure => b.operand f item = .error failure)
          (d.settled c).scope d.tokens := fun _ _ _ => Iff.rfl
      have houtcome := outcome_ofEvents hf hcreate hfits hc hreader hexplains
      rw [h] at houtcome
      exact houtcome.2

end Phrase.Document

end TopicQuery
