import TopicQuery.Proofs.Built.Condition

/-!
Statements of a text are built into what their outlines are translated into. What a
statement has in front of its condition is found by filters of its own, and in a text
there is always enough of it.
-/

namespace TopicQuery

open Outline

/-! ## Putting statements together -/

namespace Operands

variable {f : Factory} {xs : List Operand} (hf : f.IsUsual)

include hf

theorem complete_select {ps : List Projection} (hprojection : projection xs = .ok ps)
    (hcondition : condition xs ≠ []) :
    complete f .select xs = .ok (.statement (.select ps (condition xs) (modifiers xs))) := by
  obtain ⟨createIri, resolveIri, internal, rule, rfl⟩ := hf
  rw [complete, hprojection]
  simp [hcondition, bind, Except.bind, pure, Except.pure]

theorem complete_insert {content : Content} (hcontent : first? Operand.content? xs = some content) :
    complete f .insert xs = .ok (.statement (.insert content (condition xs) (modifiers xs))) := by
  obtain ⟨createIri, resolveIri, internal, rule, rfl⟩ := hf
  simp [complete, hcontent, bind, Except.bind, pure, Except.pure]

theorem complete_update (hclauses : clauses xs ≠ []) :
    complete f .update xs =
      .ok (.statement (.update (clauses xs) (condition xs) (modifiers xs))) := by
  obtain ⟨createIri, resolveIri, internal, rule, rfl⟩ := hf
  simp [complete, hclauses, bind, Except.bind, pure, Except.pure]

theorem complete_delete {targets : List Deletion} (htargets : deletions xs = .ok targets)
    (hne : targets ≠ []) :
    complete f .delete xs = .ok (.statement (.delete targets (condition xs) (modifiers xs))) := by
  obtain ⟨createIri, resolveIri, internal, rule, rfl⟩ := hf
  rw [complete, htargets]
  simp [hne, bind, Except.bind, pure, Except.pure]

theorem complete_merge {first second : Term} (hterms : terms xs = .ok [first, second]) :
    complete f .merge xs =
      .ok (.statement (.merge first second (condition xs) (modifiers xs))) := by
  obtain ⟨createIri, resolveIri, internal, rule, rfl⟩ := hf
  rw [complete, hterms]
  rfl

theorem complete_load {kind : ReferenceKind} {source : Iri} {targets : List Iri}
    (hterms : terms xs = .ok [.reference kind source])
    (hinto : (((first? Operand.into? xs).getD []).mapM fun t => singleIri .into [t]) =
      .ok targets) :
    complete f .load xs = .ok (.statement (.load source targets)) := by
  obtain ⟨createIri, resolveIri, internal, rule, rfl⟩ := hf
  rw [complete, hterms, ok_bind, hinto]
  rfl

theorem complete_drop {kind : ReferenceKind} {target : Iri}
    (hterms : terms xs = .ok [.reference kind target]) :
    complete f .drop xs = .ok (.statement (.drop target)) := by
  obtain ⟨createIri, resolveIri, internal, rule, rfl⟩ := hf
  rw [complete, hterms]
  rfl

theorem complete_create {kind : ReferenceKind} {target : Iri}
    (hterms : terms xs = .ok [.reference kind target]) :
    complete f .create xs = .ok (.statement (.create target)) := by
  obtain ⟨createIri, resolveIri, internal, rule, rfl⟩ := hf
  rw [complete, hterms]
  rfl

end Operands

namespace Phrase

variable {f : Factory} {b : Builder} {flaw : Leaf → Failure → Prop} {c : Scope} {ts : List Token}

/-! ## Statements with a condition -/

/-- The outline is a statement. -/
def IsStatement (f : Factory) (b : Builder) (o : Outline) (x : TopicQuery.Statement) : Prop :=
  o.statement? (b.term? f) = some x

/-- In front of a condition a statement holds what is no condition. -/
theorem front_behind {os ps : List Outline} (hos : ∀ o ∈ os, o.isCondition = false)
    (hps : ∀ o ∈ ps.head?, o.isCondition = true) :
    Outline.front (os ++ ps) = os ∧ Outline.behind (os ++ ps) = ps := by
  have hall : ∀ o ∈ os, (!o.isCondition) = true := fun o ho => by simp [hos o ho]
  rw [Outline.front, Outline.behind, List.takeWhile_append_of_pos hall,
    List.dropWhile_append_of_pos hall]
  cases ps with
  | nil => simp
  | cons o ps =>
      have ho : o.isCondition = true := hps o rfl
      simp [ho]

/-- Every operand adds one result, and none of them is a condition. -/
structure Adds {α : Type} (add : Operand → Except Failure (List α)) (as : List α)
    (xs : List Operand) : Prop where
  results : List.Forall₂ (fun x a => add x = .ok [a]) xs as
  front : ∀ x ∈ xs, x.isFront = true

theorem buildsAll_adds {α : Type} {translate : Outline → Option α}
    {add : Operand → Except Failure (List α)} {os : List Outline}
    (h : ∀ o ∈ os, Builds f (b.operand f) flaw
      (fun x => ∃ a, translate o = some a ∧ add x = .ok [a] ∧ x.isFront = true) o) :
    BuildsAll f (b.operand f) flaw (fun xs => ∃ as, os.mapM translate = some as ∧ Adds add as xs)
      os := by
  induction os with
  | nil => exact buildsAll_nil ⟨[], rfl, .nil, by simp⟩
  | cons o os ih =>
      refine buildsAll_cons (h o List.mem_cons_self)
        (ih fun p hp => h p (List.mem_cons_of_mem _ hp)) ?_
      rintro x xs ⟨a, ha, hadd, hfront⟩ ⟨as, has, hall, hfronts⟩
      refine ⟨a :: as, ?_, .cons hadd hall, List.forall_mem_cons.mpr ⟨hfront, hfronts⟩⟩
      rw [List.mapM_cons, ha, has]
      rfl

/-- What a statement has in front of its condition and the condition are found by its filters. -/
theorem builds_conditioned {α : Type} {k : Container}
    {make : α → List TopicQuery.Clause → Modifiers → TopicQuery.Statement}
    {part : List Outline → Option α} (found : α → List Operand → Prop)
    (enough : List TopicQuery.Clause → Prop) {os ps : List Outline}
    (hk : ∀ inner, (Outline.within k inner).statement? (b.term? f) =
      conditioned? (b.term? f) make part inner)
    (hcomplete : ∀ a xs ys, found a xs → (∀ y ∈ ys, y.isFront = false) →
      enough (Operands.condition (xs ++ ys)) → Operands.complete f k (xs ++ ys) =
        .ok (.statement (make a (Operands.condition (xs ++ ys)) (Operands.modifiers (xs ++ ys)))))
    (hos : ∀ o ∈ os, o.isCondition = false) (hps : ∀ o ∈ ps.head?, o.isCondition = true)
    (hfront : BuildsAll f (b.operand f) flaw
      (fun xs => ∃ a, part os = some a ∧ found a xs) os)
    (hfound : ∀ a xs, found a xs → ∀ x ∈ xs, x.isFront = true)
    (hcondition : BuildsAll f (b.operand f) flaw
      (fun ys => IsCondition f b ps ys ∧ enough (Operands.condition ys)) ps) :
    Builds f (b.operand f) flaw (Holds .statement (IsStatement f b) (.within k (os ++ ps)))
      (.within k (os ++ ps)) := by
  have hinner : BuildsAll f (b.operand f) flaw
      (fun zs => ∃ a xs ys, zs = xs ++ ys ∧ part os = some a ∧ found a xs ∧
        IsCondition f b ps ys ∧ enough (Operands.condition ys))
      (os ++ ps) := by
    refine buildsAll_append hfront hcondition ?_
    rintro xs ys ⟨a, ha, hxs⟩ ⟨hys, henough⟩
    exact ⟨a, xs, ys, rfl, ha, hxs, hys, henough⟩
  refine builds_within hinner ?_
  rintro zs ⟨a, xs, ys, rfl, ha, hadds, hys, henough⟩
  have hxs := hfound a xs hadds
  -- the filter for conditions finds the same with or without what stands in front
  rw [← Operands.condition_front hxs] at henough
  refine ⟨_, hcomplete a xs ys hadds hys.behind henough, _, rfl, ?_⟩
  obtain ⟨hos', hps'⟩ := front_behind hos hps
  rw [IsStatement, hk, conditioned?, hos', hps', ha, hys.translated, Operands.condition_front hxs,
    Operands.modifiers_front hxs]
  rfl

/-! ## What stands in front of a condition -/

theorem Call.isCondition_outline (call : Call) : (call.outline c).isCondition = false := by
  cases call with
  | plain name arguments =>
      obtain ⟨builtin, hints, -, hk⟩ | hk | hk :=
        Call.callContainer_cases c.rules (name.form c) arguments.length
      · rw [Call.outline_builtin hk]
        rfl
      · rw [Call.outline_called (by simp [hk]), hk]
        rfl
      · rw [Call.outline_called (by simp [hk]), hk]
        rfl
  | association name roles => rfl

theorem variableNames_vars (names : List String) {xs : List Operand}
    (h : xs.filterMap Operand.term? = []) :
    Operands.variableNames ((names.map fun v => Operand.term (.var v)) ++ xs) = .ok names := by
  have hterms : Operands.terms ((names.map fun v => Operand.term (.var v)) ++ xs) =
      .ok (names.map .var) := by
    have hnames : (names.map fun v => Operand.term (.var v)).filterMap Operand.term? =
        names.map .var := by
      induction names with
      | nil => rfl
      | cons v names ih => exact congrArg (Term.var v :: ·) ih
    rw [Operands.terms, List.filterMap_append, hnames, h]
    simp [Operands.isModule]
  rw [Operands.variableNames, hterms, ok_bind]
  refine mapM_eq_ok_iff.mpr ?_
  rw [List.forall₂_map_left_iff]
  exact List.forall₂_same.mpr fun _ _ => rfl

theorem buildsAll_vars (h : Explains f b flaw c ts) (names : List String) :
    BuildsAll f (b.operand f) flaw (fun xs => xs = names.map fun v => .term (.var v))
      (names.map fun v => .leaf (.atom .var v)) := by
  induction names with
  | nil => exact buildsAll_nil rfl
  | cons v names ih =>
      refine buildsAll_cons (builds_sure h trivial rfl) ih ?_
      rintro x xs rfl rfl
      rfl

theorem content?_vars (names : List String) (text : String) :
    content? ((names.map fun v => Outline.leaf (.atom .var v)) ++ [Outline.leaf (.content text)]) =
      some ⟨names, text⟩ := by
  induction names with
  | nil => rfl
  | cons v names ih =>
      rw [List.map_cons, List.cons_append, content?, ih]
      rfl

theorem builds_content (h : Explains f b flaw c ts) (content : String) :
    Builds f (b.operand f) flaw
      (fun x => ∃ found, x = .content found ∧
        inserted? [Change.contentOutline content] = some found)
      (Change.contentOutline content) := by
  have hinner : BuildsAll f (b.operand f) flaw
      (fun xs => xs = ((Fragment.mentioned content).map fun v => Operand.term (.var v)) ++
        [Operand.text content])
      (((Fragment.mentioned content).map fun v => Outline.leaf (.atom .var v)) ++
        [Outline.leaf (.content content)]) := by
    have htext : BuildsAll f (b.operand f) flaw (fun xs => xs = [.text content])
        [.leaf (.content content)] := by
      refine buildsAll_singleton (builds_sure h trivial rfl) ?_
      rintro x rfl
      rfl
    refine buildsAll_append (buildsAll_vars h _) htext ?_
    rintro xs ys rfl rfl
    rfl
  refine builds_within hinner ?_
  rintro xs rfl
  refine ⟨_, ?_, ⟨Fragment.mentioned content, content⟩, rfl, content?_vars _ _⟩
  have htexts : (((Fragment.mentioned content).map fun v => Operand.term (.var v)) ++
      [Operand.text content]).filterMap Operand.text? = [content] := by
    have hnone : ((Fragment.mentioned content).map fun v =>
        Operand.term (.var v)).filterMap Operand.text? = [] :=
      filterMap_other Operand.text? (fun _ => rfl) _
    rw [List.filterMap_append, hnone]
    rfl
  rw [Operands.complete, variableNames_vars _ rfl, ok_bind, htexts]
  simp [String.join, pure, Except.pure]

section Front

variable (hf : f.IsUsual)

include hf

theorem builds_select {os ps : List Outline}
    (hos : ∀ o ∈ os, (∃ v, o = .leaf (.atom .var v)) ∨ ∃ v, o = .leaf (.count v))
    (hps : ∀ o ∈ ps.head?, o.isCondition = true) (h : Explains f b flaw c ts)
    (hcondition : BuildsAll f (b.operand f) flaw
      (fun ys => IsCondition f b ps ys ∧ Operands.condition ys ≠ []) ps) :
    Builds f (b.operand f) flaw (Holds .statement (IsStatement f b) (.within .select (os ++ ps)))
      (.within .select (os ++ ps)) := by
  have hfront : ∀ o ∈ os, Builds f (b.operand f) flaw
      (fun x => ∃ p, projection? o = some p ∧ Operands.projected x = .ok [p] ∧ x.isFront = true)
      o := by
    intro o ho
    obtain ⟨v, rfl⟩ | ⟨v, rfl⟩ := hos o ho
    · refine Outcome.imp (builds_sure h trivial rfl) ?_
      rintro x rfl
      exact ⟨_, rfl, rfl, rfl⟩
    · have hread : b.operand f (.count v) = .ok (.projection (.count v)) := by
        obtain ⟨createIri, resolveIri, internal, rule, rfl⟩ := hf
        rfl
      refine Outcome.imp (builds_sure h trivial hread) ?_
      rintro x rfl
      exact ⟨_, rfl, rfl, rfl⟩
  refine builds_conditioned (Adds Operands.projected) (fun clauses => clauses ≠ [])
    (fun _ => rfl) (fun ps xs ys hps hys hne => ?_) (fun o ho => ?_) hps
    (buildsAll_adds hfront) (fun _ _ h => h.front) hcondition
  · refine Operands.complete_select hf (Operands.collect hps.results fun y hy => ?_) hne
    have hbehind := hys y hy
    cases y <;> first | rfl | cases hbehind
  · obtain ⟨v, rfl⟩ | ⟨v, rfl⟩ := hos o ho <;> rfl

theorem builds_insert (content : String) {ps : List Outline}
    (hps : ∀ o ∈ ps.head?, o.isCondition = true) (h : Explains f b flaw c ts)
    (hcondition : BuildsAll f (b.operand f) flaw (fun ys => IsCondition f b ps ys ∧ True) ps) :
    let o := Outline.within .insert ([Change.contentOutline content] ++ ps)
    Builds f (b.operand f) flaw (Holds .statement (IsStatement f b) o) o := by
  have hfront : BuildsAll f (b.operand f) flaw
      (fun xs => ∃ a, inserted? [Change.contentOutline content] = some a ∧ xs = [.content a])
      [Change.contentOutline content] := by
    refine buildsAll_singleton (builds_content h content) ?_
    rintro x ⟨found, rfl, hfound⟩
    exact ⟨found, hfound, rfl⟩
  refine builds_conditioned (fun a xs => xs = [.content a]) (fun _ => True)
    (fun _ => rfl) ?_ (by simp [Change.contentOutline, isCondition]) hps hfront ?_ hcondition
  · rintro a xs ys rfl - -
    exact Operands.complete_insert hf rfl
  · rintro a xs rfl
    simp [Operand.isFront]

theorem builds_update {calls : List Call} {ps : List Outline} (hcalls : calls ≠ [])
    (hrefers : ∀ call ∈ calls, call.Refers c) (hps : ∀ o ∈ ps.head?, o.isCondition = true)
    (h : Explains f b flaw c ts) (hts : ∀ call ∈ calls, call.tokens ⊆ ts)
    (hcondition : BuildsAll f (b.operand f) flaw (fun ys => IsCondition f b ps ys ∧ True) ps) :
    let o := Outline.within .update (calls.map (Call.outline c) ++ ps)
    Builds f (b.operand f) flaw (Holds .statement (IsStatement f b) o) o := by
  have hfront : BuildsAll f (b.operand f) flaw
      (fun xs => ∃ clauses, clauses? (b.term? f) (calls.map (Call.outline c)) = some clauses ∧
        xs = clauses.map .clause ∧ clauses ≠ [])
      (calls.map (Call.outline c)) := by
    have hcall : ∀ o ∈ calls.map (Call.outline c),
        Builds f (b.operand f) flaw (Holds .clause (IsClause f b) o) o := by
      intro o ho
      obtain ⟨call, hcall, rfl⟩ := List.mem_map.mp ho
      exact builds_call hf (h.of_subset (hts call hcall)) (hrefers call hcall)
    refine (buildsAll_forall hcall).imp fun xs hxs => ?_
    obtain ⟨clauses, rfl, hall⟩ := exists_of_holds hxs
    refine ⟨clauses, clauses?_forall₂ hall, rfl, ?_⟩
    rintro rfl
    exact hcalls (List.map_eq_nil_iff.mp (List.forall₂_nil_right_iff.mp hall))
  refine builds_conditioned (fun clauses xs => xs = clauses.map .clause ∧ clauses ≠ [])
    (fun _ => True) (fun _ => rfl) ?_ ?_ hps hfront ?_ hcondition
  · rintro clauses xs ys ⟨rfl, hne⟩ hys -
    have hfound : Operands.clauses (clauses.map Operand.clause ++ ys) = clauses := by
      rw [Operands.clauses_behind hys, Operands.clauses_clauses]
    have hsome : Operands.clauses (clauses.map Operand.clause ++ ys) ≠ [] := by rwa [hfound]
    have hcomplete := Operands.complete_update hf hsome
    rwa [hfound] at hcomplete
  · intro o ho
    obtain ⟨call, -, rfl⟩ := List.mem_map.mp ho
    exact call.isCondition_outline
  · rintro clauses xs ⟨rfl, -⟩ x hx
    obtain ⟨clause, -, rfl⟩ := List.mem_map.mp hx
    rfl

theorem builds_target {target : Target} (hrefers : Category.target.Refers c target)
    (h : Explains f b flaw c (Category.target.tokens target)) :
    ∃ o, Category.target.outlines c target = [o] ∧ o.isCondition = false ∧
      Builds f (b.operand f) flaw
        (fun x => ∃ a, deletion? (b.term? f) o = some a ∧ Operands.deleted x = .ok [a] ∧
          x.isFront = true)
        o := by
  cases target with
  | term t =>
      refine ⟨_, rfl, rfl, (builds_argument h hrefers (List.Subset.refl _)).imp ?_⟩
      rintro x ⟨a, rfl, ha⟩
      refine ⟨.term a, ?_, by simp [Operands.deleted, ha.isModule], rfl⟩
      have hread := ha.translated
      rw [term?] at hread
      rw [deletion?, hread]
      rfl
  | call call =>
      refine ⟨_, rfl, call.isCondition_outline, (builds_call hf h hrefers.1).imp ?_⟩
      rintro x ⟨a, rfl, ha⟩
      refine ⟨.predicate a, ?_, rfl, rfl⟩
      have htranslated := ha.translated
      cases hcall : call.outline c with
      | leaf item =>
          rw [hcall] at htranslated
          simp [clause?] at htranslated
      | within k inner =>
          rw [hcall] at htranslated
          rw [deletion?, htranslated]
          rfl

theorem builds_delete {targets : List Target} {ps : List Outline} (htargets : targets ≠ [])
    (hrefers : ∀ target ∈ targets, Category.target.Refers c target)
    (hps : ∀ o ∈ ps.head?, o.isCondition = true) (h : Explains f b flaw c ts)
    (hts : ∀ target ∈ targets, Category.target.tokens target ⊆ ts)
    (hcondition : BuildsAll f (b.operand f) flaw (fun ys => IsCondition f b ps ys ∧ True) ps) :
    let o := Outline.within .delete (Category.target.list.outlines c targets ++ ps)
    Builds f (b.operand f) flaw (Holds .statement (IsStatement f b) o) o := by
  have htarget : ∀ o ∈ Category.target.list.outlines c targets, o.isCondition = false ∧
      Builds f (b.operand f) flaw
        (fun x => ∃ a, deletion? (b.term? f) o = some a ∧ Operands.deleted x = .ok [a] ∧
          x.isFront = true)
        o := by
    intro o ho
    obtain ⟨target, hmem, ho⟩ := List.mem_flatMap.mp ho
    obtain ⟨p, hp, hbuilds⟩ :=
      builds_target hf (hrefers target hmem) (h.of_subset (hts target hmem))
    rw [hp] at ho
    obtain rfl := List.mem_singleton.mp ho
    exact hbuilds
  have hne : Category.target.list.outlines c targets ≠ [] := by
    cases targets with
    | nil => exact absurd rfl htargets
    | cons target targets => cases target <;> simp [Category.list, Category.target]
  have hfront : BuildsAll f (b.operand f) flaw
      (fun xs => ∃ as, (Category.target.list.outlines c targets).mapM (deletion? (b.term? f)) =
        some as ∧ Adds Operands.deleted as xs ∧ as ≠ [])
      (Category.target.list.outlines c targets) := by
    refine Outcome.imp (buildsAll_adds fun o ho => (htarget o ho).2) ?_
    rintro xs ⟨as, has, hadds⟩
    refine ⟨as, has, hadds, ?_⟩
    rintro rfl
    -- every outline is translated into one deletion, and there is an outline
    cases hos : Category.target.list.outlines c targets with
    | nil => exact hne hos
    | cons o os =>
        rw [hos, List.mapM_cons] at has
        cases ho : deletion? (b.term? f) o <;> cases hrest : os.mapM (deletion? (b.term? f)) <;>
          simp [ho, hrest] at has
  refine builds_conditioned (fun as xs => Adds Operands.deleted as xs ∧ as ≠ []) (fun _ => True)
    (fun _ => rfl) ?_ (fun o ho => (htarget o ho).1) hps hfront (fun _ _ h => h.1.front) hcondition
  rintro as xs ys ⟨hadds, has⟩ hys -
  refine Operands.complete_delete hf (Operands.collect hadds.results fun y hy => ?_) has
  have hbehind := hys y hy
  cases y <;> first | rfl | cases hbehind

theorem builds_merge {first second : Term} {ps : List Outline} (hfirst : first.Refers c)
    (hsecond : second.Refers c) (hps : ∀ o ∈ ps.head?, o.isCondition = true)
    (h : Explains f b flaw c ts) (hfirstTokens : first.tokens ⊆ ts)
    (hsecondTokens : second.tokens ⊆ ts)
    (hcondition : BuildsAll f (b.operand f) flaw (fun ys => IsCondition f b ps ys ∧ True) ps) :
    let o := Outline.within .merge
      ([Outline.leaf (first.leaf c), Outline.leaf (second.leaf c)] ++ ps)
    Builds f (b.operand f) flaw (Holds .statement (IsStatement f b) o) o := by
  have hfront : BuildsAll f (b.operand f) flaw
      (fun xs => ∃ a, merged? (b.term? f) [.leaf (first.leaf c), .leaf (second.leaf c)] = some a ∧
        xs = [.term a.1, .term a.2] ∧ Operands.terms xs = .ok [a.1, a.2])
      [.leaf (first.leaf c), .leaf (second.leaf c)] := by
    have hall : ∀ t ∈ [first, second], t.Refers c := by simp [hfirst, hsecond]
    have htokens : ∀ t ∈ [first, second], t.tokens ⊆ ts := by simp [hfirstTokens, hsecondTokens]
    refine Outcome.imp (buildsAll_arguments h hall htokens) ?_
    rintro xs ⟨as, rfl, has⟩
    have hterms := terms_arguments has [] rfl
    cases has with
    | cons hp has =>
        cases has with
        | cons hq has =>
            cases has
            refine ⟨(_, _), ?_, rfl, hterms⟩
            rw [merged?, hp.translated, hq.translated]
            rfl
  refine builds_conditioned
    (fun a xs => xs = [.term a.1, .term a.2] ∧ Operands.terms xs = .ok [a.1, a.2]) (fun _ => True)
    (fun _ => rfl) ?_ (by simp [isCondition]) hps hfront ?_ hcondition
  · rintro a xs ys ⟨-, hterms⟩ hys -
    refine Operands.complete_merge hf ?_
    rw [Operands.terms_behind hys, hterms]
  · rintro a xs ⟨rfl, -⟩
    simp [Operand.isFront]

end Front

/-! ## Statements that name topic maps -/

/-- The operand is a reference, and the outline is translated into its IRI. -/
def IsReference (f : Factory) (b : Builder) (o : Outline) (t : TopicQuery.Term) : Prop :=
  ∃ kind iri, t = .reference kind iri ∧ o.iri? (b.term? f) = some iri

theorem builds_iri {t : Term} (h : Explains f b flaw c ts) (ht : Category.iri.Refers c t)
    (hts : t.tokens ⊆ ts) :
    Builds f (b.operand f) flaw (Holds .term (IsReference f b) (.leaf (t.leaf c)))
      (.leaf (t.leaf c)) := by
  obtain ⟨hrefers, hiri⟩ := ht
  refine builds_leaf (h _ (.inr ⟨t, rfl, .inl hrefers, hts⟩)) fun x hx => ?_
  -- only an IRI and a prefixed name without a mark name a topic map, and both are references
  have hread : ∃ kind iri, x = .term (.reference kind iri) := by
    cases t with
    | atom kind value =>
        obtain rfl : kind = .iri := hiri
        rw [Term.leaf, Builder.operand_reference rfl] at hx
        obtain ⟨iri, -, rfl⟩ := Builder.exists_of_map_ok hx
        exact ⟨_, iri, rfl⟩
    | qname marker name =>
        obtain rfl : marker = none := hiri
        have hleaf : (Term.qname none name).leaf c = .qname (c.kind name.qualifier) name := rfl
        rw [hleaf, Builder.operand_qname hrefers.2] at hx
        obtain ⟨iri, -, rfl⟩ := Builder.exists_of_map_ok hx
        exact ⟨_, iri, rfl⟩
    | _ => exact absurd hiri id
  obtain ⟨kind, iri, rfl⟩ := hread
  refine ⟨_, rfl, kind, iri, rfl, ?_⟩
  rw [iri?, term?_of_operand hx]

theorem terms_references {os : List Outline} {ts : List TopicQuery.Term}
    (h : List.Forall₂ (IsReference f b) os ts) : Operands.terms (ts.map .term) = .ok ts := by
  have hmodules : ts.any Operands.isModule = false := by
    rw [List.any_eq_false]
    intro t ht
    obtain ⟨o, -, kind, iri, rfl, -⟩ := exists_of_mem_forall₂ h.flip ht
    simp [Operands.isModule]
  have hterms : (ts.map Operand.term).filterMap Operand.term? = ts :=
    filterMap_inject Operand.term? (fun _ => rfl) ts
  rw [Operands.terms, hterms]
  simp [hmodules]

/-- References are translated into their IRIs and are single ones. -/
theorem exists_iris {os : List Outline} {ts : List TopicQuery.Term}
    (h : List.Forall₂ (IsReference f b) os ts) :
    ∃ iris, os.mapM (iri? (b.term? f)) = some iris ∧
      (ts.mapM fun t => Operands.singleIri .into [t]) = .ok iris := by
  induction h with
  | nil => exact ⟨[], rfl, rfl⟩
  | cons hfirst _ ih =>
      obtain ⟨kind, iri, rfl, hiri⟩ := hfirst
      obtain ⟨iris, htranslated, hsingle⟩ := ih
      refine ⟨iri :: iris, ?_, ?_⟩
      · rw [List.mapM_cons, hiri, htranslated]
        rfl
      · rw [List.mapM_cons, hsingle]
        rfl

/-- Where a document is loaded into, if that is said. -/
theorem buildsAll_into {targets : List Term} (h : Explains f b flaw c ts)
    (hrefers : ∀ t ∈ targets, Category.iri.Refers c t) (hts : ∀ t ∈ targets, t.tokens ⊆ ts) :
    BuildsAll f (b.operand f) flaw
      (fun xs => ∃ iris, xs.filterMap Operand.term? = [] ∧
        (((Operands.first? Operand.into? xs).getD []).mapM fun t =>
          Operands.singleIri .into [t]) = .ok iris ∧
        ∀ source iri, source.iri? (b.term? f) = some iri →
          (Outline.within .load (source :: Category.intoOutlines c targets)).statement?
            (b.term? f) = some (.load iri iris))
      (Category.intoOutlines c targets) := by
  cases targets with
  | nil =>
      refine buildsAll_nil ⟨[], rfl, rfl, fun source iri hsource => ?_⟩
      simp [Category.intoOutlines, statement?, hsource]
  | cons t ts =>
      have hall : BuildsAll f (b.operand f) flaw
          (fun xs => ∃ as, xs = as.map .term ∧
            List.Forall₂ (IsReference f b) (Category.iri.list.outlines c (t :: ts)) as)
          (Category.iri.list.outlines c (t :: ts)) := by
        refine (buildsAll_forall fun o ho => ?_).imp fun xs hxs => exists_of_holds hxs
        obtain ⟨u, hu, ho⟩ := List.mem_flatMap.mp ho
        obtain rfl := List.mem_singleton.mp ho
        exact builds_iri h (hrefers u hu) (hts u hu)
      have hinto : Builds f (b.operand f) flaw
          (fun x => ∃ as, x = .into as ∧
            List.Forall₂ (IsReference f b) (Category.iri.list.outlines c (t :: ts)) as)
          (.within .into (Category.iri.list.outlines c (t :: ts))) := by
        refine builds_within hall ?_
        rintro xs ⟨as, rfl, has⟩
        refine ⟨.into as, ?_, as, rfl, has⟩
        rw [Operands.complete, terms_references has]
        rfl
      refine buildsAll_singleton hinto ?_
      rintro x ⟨as, rfl, has⟩
      obtain ⟨iris, htranslated, hsingle⟩ := exists_iris has
      refine ⟨iris, rfl, hsingle, fun source iri hsource => ?_⟩
      simp [Category.intoOutlines, statement?, hsource, htranslated]

/-- A statement that consists of one IRI. -/
theorem builds_named {k : Container} {make : Iri → TopicQuery.Statement} {source : Term}
    (hcomplete : ∀ kind iri, Operands.complete f k [.term (.reference kind iri)] =
      .ok (.statement (make iri)))
    (htranslated : ∀ o iri, o.iri? (b.term? f) = some iri →
      (Outline.within k [o]).statement? (b.term? f) = some (make iri))
    (h : Explains f b flaw c ts) (hsource : Category.iri.Refers c source)
    (hts : source.tokens ⊆ ts) :
    let o := Outline.within k [.leaf (source.leaf c)]
    Builds f (b.operand f) flaw (Holds .statement (IsStatement f b) o) o := by
  have hinner : BuildsAll f (b.operand f) flaw
      (fun xs => ∃ kind iri, xs = [.term (.reference kind iri)] ∧
        (Outline.leaf (source.leaf c)).iri? (b.term? f) = some iri)
      [.leaf (source.leaf c)] := by
    refine buildsAll_singleton (builds_iri h hsource hts) ?_
    rintro x ⟨a, rfl, kind, iri, rfl, hiri⟩
    exact ⟨kind, iri, rfl, hiri⟩
  refine builds_within hinner ?_
  rintro xs ⟨kind, iri, rfl, hiri⟩
  exact ⟨_, hcomplete kind iri, _, rfl, htranslated _ iri hiri⟩

theorem head_optional (y : Option (Bool × Condition)) :
    ∀ o ∈ (Category.optionalCondition.outlines c y).head?, o.isCondition = true := by
  cases y with
  | none => simp [Category.optionalCondition]
  | some y => simp [Category.optionalCondition, Category.condition, isCondition]

/-! ## All statements -/

section Usual

variable (hf : f.IsUsual)

include hf

theorem builds_load {source : Term} {targets : List Term} (h : Explains f b flaw c ts)
    (hsource : Category.iri.Refers c source)
    (htargets : ∀ t ∈ targets, Category.iri.Refers c t)
    (hsourceTokens : source.tokens ⊆ ts) (htargetTokens : ∀ t ∈ targets, t.tokens ⊆ ts) :
    let o := Outline.within .load (.leaf (source.leaf c) :: Category.intoOutlines c targets)
    Builds f (b.operand f) flaw (Holds .statement (IsStatement f b) o) o := by
  have hinner : BuildsAll f (b.operand f) flaw
      (fun xs => ∃ kind iri iris, Operands.terms xs = .ok [.reference kind iri] ∧
        (((Operands.first? Operand.into? xs).getD []).mapM fun t =>
          Operands.singleIri .into [t]) = .ok iris ∧
        IsStatement f b
          (.within .load (.leaf (source.leaf c) :: Category.intoOutlines c targets))
          (.load iri iris))
      (.leaf (source.leaf c) :: Category.intoOutlines c targets) := by
    refine buildsAll_cons (builds_iri h hsource hsourceTokens)
      (buildsAll_into h htargets htargetTokens) ?_
    rintro x xs ⟨a, rfl, kind, iri, rfl, hiri⟩ ⟨iris, hterms, hinto, htranslated⟩
    refine ⟨kind, iri, iris, ?_, hinto, htranslated _ iri hiri⟩
    have hall : (Operand.term (.reference kind iri) :: xs).filterMap Operand.term? =
        [.reference kind iri] := congrArg (Term.reference kind iri :: ·) hterms
    rw [Operands.terms, hall]
    rfl
  refine builds_within hinner ?_
  rintro xs ⟨kind, iri, iris, hterms, hinto, htranslated⟩
  exact ⟨_, Operands.complete_load hf hterms hinto, _, rfl, htranslated⟩

theorem buildsAll_optional {y : Option (Bool × Condition)}
    (h : Explains f b flaw c (Category.optionalCondition.tokens y))
    (hrefers : Category.optionalCondition.Refers c y) :
    BuildsAll f (b.operand f) flaw
      (fun xs => IsCondition f b (Category.optionalCondition.outlines c y) xs ∧ True)
      (Category.optionalCondition.outlines c y) := by
  cases y with
  | none => exact buildsAll_nil ⟨isCondition_none, trivial⟩
  | some y =>
      have htokens : Category.condition.tokens y.2 ⊆
          Category.optionalCondition.tokens (some y) := List.subset_cons_self _ _
      refine Outcome.imp (buildsAll_condition hf (h.of_subset htokens) (hrefers y rfl)) ?_
      exact fun xs hxs => ⟨hxs.1, trivial⟩

theorem builds_change {x : Change} {y : Option (Bool × Condition)}
    (h : Explains f b flaw c (Category.statement.tokens (.change x y))) (hx : x.Refers c)
    (hy : Category.optionalCondition.Refers c y) :
    let o := Outline.within x.container
      (x.outlines c ++ Category.optionalCondition.outlines c y)
    Builds f (b.operand f) flaw (Holds .statement (IsStatement f b) o) o := by
  have hchange : Explains f b flaw c x.tokens := h.of_subset (List.subset_append_left _ _)
  have hcondition := buildsAll_optional hf (h.of_subset (List.subset_append_right _ _)) hy
  have hps := head_optional (c := c) y
  cases x with
  | insert content => exact builds_insert hf content hps hchange hcondition
  | update calls =>
      have hos : (Change.update calls).outlines c = calls.map (Call.outline c) :=
        List.map_eq_flatMap.symm
      rw [hos]
      refine builds_update hf hx.1 hx.2 hps hchange (fun call hcall => ?_) hcondition
      exact fun u hu => List.mem_cons_of_mem _ (mem_listed_of_mem hcall hu)
  | delete targets =>
      refine builds_delete hf hx.1 hx.2 hps hchange (fun target htarget => ?_) hcondition
      exact fun u hu => List.mem_cons_of_mem _ (mem_listed_of_mem htarget hu)
  | merge first second =>
      have hsecond : second.tokens ⊆ (Change.merge first second).tokens := fun u hu => by
        simp [Change.tokens, hu]
      exact builds_merge hf hx.1 hx.2 hps hchange (by simp [Change.tokens]) hsecond hcondition

/-- A statement is built into what it is translated into. -/
theorem builds_statement (x : Statement) (h : Explains f b flaw c (Category.statement.tokens x))
    (hrefers : Category.statement.Refers c x) :
    ∃ o, Category.statement.outlines c x = [o] ∧
      Builds f (b.operand f) flaw (Holds .statement (IsStatement f b) o) o := by
  have hhead : ∀ y : Condition, ∀ o ∈ (Category.condition.outlines c y).head?,
      o.isCondition = true := by
    intro y
    simp [Category.condition, isCondition]
  cases x with
  | select projections isWhere y =>
      have htokens : Category.condition.tokens y ⊆
          Category.statement.tokens (.select projections isWhere y) := fun u hu => by
        simp [Category.statement, hu]
      refine ⟨_, rfl, builds_select hf (fun o ho => ?_) (hhead y) h
        (buildsAll_condition hf (h.of_subset htokens) hrefers.2)⟩
      obtain ⟨p, -, ho⟩ := List.mem_flatMap.mp ho
      obtain name | name := p
      · exact .inl ⟨name, List.mem_singleton.mp ho⟩
      · exact .inr ⟨name, List.mem_singleton.mp ho⟩
  | bare y =>
      have hnone : ∀ o ∈ ([] : List Outline),
          (∃ v, o = .leaf (.atom .var v)) ∨ ∃ v, o = .leaf (.count v) := by simp
      exact ⟨_, rfl, builds_select hf hnone (hhead y) h (buildsAll_condition hf h hrefers)⟩
  | change x y => exact ⟨_, rfl, builds_change hf h hrefers.1 hrefers.2⟩
  | load source targets =>
      refine ⟨_, rfl, builds_load hf h hrefers.1 hrefers.2 (by simp [Category.statement]) ?_⟩
      intro t ht u hu
      cases targets with
      | nil => cases ht
      | cons target targets =>
          simp only [Category.statement, Category.intoTokens, List.mem_cons, List.mem_append]
          exact .inr (.inr (.inr (mem_listed_of_mem ht hu)))
  | drop source =>
      exact ⟨_, rfl, builds_named (fun _ _ => Operands.complete_drop hf rfl)
        (fun o iri ho => by simp [statement?, ho]) h hrefers (by simp [Category.statement])⟩
  | create source =>
      exact ⟨_, rfl, builds_named (fun _ _ => Operands.complete_create hf rfl)
        (fun o iri ho => by simp [statement?, ho]) h hrefers (by simp [Category.statement])⟩

end Usual

end Phrase

end TopicQuery
