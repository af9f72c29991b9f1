import TopicQuery.Proofs.Optimized.Document
import TopicQuery.Proofs.Spoken

/-!
Parsed texts are settled: lists of clauses stand only in the conditions and bodies
of their statements and rules, and built-in predicates hold terms only.
-/

namespace TopicQuery

namespace Phrase

open Element

variable {c : Scope}

/-- The names of the variables among the tokens are words. -/
def NamesWords (ts : List Token) : Prop := ∀ v, .atom .var v ∈ ts → Text.wordsOf v = [v]

theorem NamesWords.of_subset {ts us : List Token} (h : NamesWords us) (hsub : ts ⊆ us) :
    NamesWords ts := fun v hv => h v (hsub hv)

theorem namesWords_of_proper {ts : List Token} (h : ∀ t ∈ ts, t.Proper) : NamesWords ts :=
  fun v hv => Text.wordsOf_unbroken (isUnbroken_of_proper (h (.atom .var v) hv))

/-! ## Flat outlines -/

/-- Every outline is one of a flat element. -/
def FlatAll (os : List Outline) : Prop := ∀ o ∈ os, o.element.Flat

theorem flatAll_nil : FlatAll [] := by simp [FlatAll]

theorem flatAll_cons {o : Outline} {os : List Outline} (h : o.element.Flat) (h' : FlatAll os) :
    FlatAll (o :: os) := List.forall_mem_cons.mpr ⟨h, h'⟩

theorem FlatAll.append {os ps : List Outline} (h : FlatAll os) (h' : FlatAll ps) :
    FlatAll (os ++ ps) := fun o ho => (List.mem_append.mp ho).elim (h o) (h' o)

theorem FlatAll.flatMap {α : Type} {g : α → List Outline} {xs : List α}
    (h : ∀ x ∈ xs, FlatAll (g x)) : FlatAll (xs.flatMap g) := by
  intro o ho
  obtain ⟨x, hx, ho⟩ := List.mem_flatMap.mp ho
  exact h x hx o ho

theorem flat_leaf {item : Leaf} (h : item.name ∉ ["base", "namespace", "where", "body", "branch", "not"]) :
    (Outline.leaf item).element.Flat := by
  simp only [List.mem_cons, List.not_mem_nil, or_false, not_or] at h
  obtain ⟨hbase, hbinding, hlist⟩ := h
  refine ⟨hbase, hbinding, ?_, fun _ d hd => absurd hd (by simp [Outline.element, Leaf.element]),
    fun d hd => absurd hd (by simp [Outline.element, Leaf.element])⟩
  simpa [isClauseList, Outline.element, Leaf.element] using hlist

theorem name_ne_directive (tag : Tag) : tag.name ≠ "base" ∧ tag.name ≠ "namespace" := by
  cases tag <;> decide

theorem children_within {k : Container} {os : List Outline} {p : Element → Prop}
    (h : ∀ o ∈ os, p o.element) : ∀ e ∈ (Outline.within k os).element.children, p e := by
  rw [Outline.element, Outline.elements_eq_map]
  intro e he
  obtain ⟨o, ho, rfl⟩ := List.mem_map.mp he
  exact h o ho

theorem flat_within_terms {k : Container} {os : List Outline}
    (hk : k.tag.name ∉ ["where", "body", "branch", "not"]) (h : FlatAll os)
    (hterms : k.tag.name = "builtin-predicate" → ∀ o ∈ os, o.element.IsTerm) :
    (Outline.within k os).element.Flat := by
  obtain ⟨hbase, hbinding⟩ := name_ne_directive k.tag
  refine ⟨hbase, hbinding, ?_, fun hname => children_within (hterms hname), children_within h⟩
  simpa [isClauseList, Outline.element] using hk

theorem flat_within {k : Container} {os : List Outline}
    (hk : k.tag.name ∉ ["where", "body", "branch", "not", "builtin-predicate"]) (h : FlatAll os) :
    (Outline.within k os).element.Flat := by
  simp only [List.mem_cons, List.not_mem_nil, or_false, not_or] at hk
  exact flat_within_terms (by simp [hk]) h fun hname => absurd hname hk.2.2.2.2

theorem isTerm_term (t : Term) : (t.leaf c).IsTerm := by
  cases t <;> trivial

theorem isTerm_element {t : Term} (h : NamesWords t.tokens) :
    (Outline.leaf (t.leaf c)).element.IsTerm := by
  refine ⟨t.leaf c, isTerm_term t, rfl, fun v hv => h v ?_⟩
  cases t with
  | atom kind value =>
      obtain ⟨rfl, rfl⟩ := Leaf.atom.inj hv
      simp [Term.tokens]
  | iri marker value => cases marker <;> cases hv
  | _ => cases hv

theorem flat_term (t : Term) : (Outline.leaf (t.leaf c)).element.Flat := by
  have hnames : ∀ name ∈ argumentNames,
      name ∉ ["base", "namespace", "where", "body", "branch", "not"] := by decide
  exact flat_leaf (hnames _ (isTerm_term t).name_mem)

theorem flatAll_terms (ts : List Term) : FlatAll (ts.map fun t => .leaf (t.leaf c)) := by
  intro o ho
  obtain ⟨t, -, rfl⟩ := List.mem_map.mp ho
  exact flat_term t

theorem flat_callee (name : Term) : (Call.calleeOutline c name).element.Flat :=
  flat_within (by decide) (flatAll_cons (flat_term name) flatAll_nil)

/-- A side of a comparison or a part of a role holds one term. -/
theorem flat_part {k : Container} (hk : k ∈ [.left, .right, .player, .roleType]) (t : Term) :
    (Outline.within k [.leaf (t.leaf c)]).element.Flat := by
  refine flat_within ?_ (flatAll_cons (flat_term t) flatAll_nil)
  revert k
  decide

theorem flat_call {call : Call} (h : NamesWords call.tokens) : (call.outline c).element.Flat := by
  cases call with
  | plain name arguments =>
      have hterms := flatAll_terms (c := c) arguments
      have hcalled := flatAll_cons (flat_callee (c := c) name) hterms
      obtain ⟨builtin, hints, -, hk⟩ | hk | hk :=
        Call.callContainer_cases c.rules (name.form c) arguments.length
      · rw [Call.outline_builtin hk]
        refine flat_within_terms (by simp [Container.tag, Tag.name]) hterms fun _ o ho => ?_
        obtain ⟨t, ht, rfl⟩ := List.mem_map.mp ho
        refine isTerm_element (h.of_subset fun u hu => ?_)
        rw [Call.tokens]
        exact List.mem_append_right _ (List.mem_cons_of_mem _
          (List.mem_append_left _ (mem_listed_of_mem ht hu)))
      · rw [Call.outline_called (by simp [hk]), hk]
        exact flat_within (by decide) hcalled
      · rw [Call.outline_called (by simp [hk]), hk]
        exact flat_within (by decide) hcalled
  | association name roles =>
      refine flat_within (by decide) (flatAll_cons (flat_callee name) fun o ho => ?_)
      obtain ⟨r, -, rfl⟩ := List.mem_map.mp ho
      exact flat_within (by decide) (flatAll_cons (flat_part (by simp) _)
        (flatAll_cons (flat_part (by simp) _) flatAll_nil))

/-! ## Layered outlines -/

/-- Every outline is one of a layered element. -/
def LayeredAll (os : List Outline) : Prop := ∀ o ∈ os, o.element.Layered

theorem layered_within {k : Container} {os : List Outline}
    (hk : k.tag.name ∈ ["where", "body", "branch", "not", "or"]) (h : LayeredAll os) :
    (Outline.within k os).element.Layered := by
  refine .list ?_ (children_within h)
  rw [isClauseList_iff]
  simpa [or_assoc, Outline.element] using hk

mutual

theorem Clause.layered (x : Clause) (h : NamesWords x.tokens) : (x.outline c).element.Layered := by
  match x with
  | .negation xs =>
      refine layered_within (by simp [Container.tag, Tag.name]) (xs.layeredAll (h.of_subset ?_))
      exact fun t ht => by simp [Clause.tokens, ht]
  | .alternatives bs =>
      refine layered_within (by simp [Container.tag, Tag.name]) (bs.layeredAll false (h.of_subset ?_))
      exact fun t ht => by simp [Clause.tokens, ht]
  | .comparison operator left right =>
      exact .flat (flat_within (by simp [Container.tag, Tag.name])
        (flatAll_cons (flat_part (by simp) _) (flatAll_cons (flat_part (by simp) _) flatAll_nil)))
  | .call call => exact .flat (flat_call h)

theorem Clauses.layeredAll (xs : Clauses) (h : NamesWords xs.tokens) :
    LayeredAll (xs.outlines c) := by
  match xs with
  | .last x => exact List.forall_mem_singleton.mpr (x.layered h)
  | .cons x xs =>
      exact List.forall_mem_cons.mpr ⟨x.layered (h.of_subset (by simp [Clauses.tokens])),
        xs.layeredAll (h.of_subset (by simp [Clauses.tokens]))⟩

theorem Branches.layeredAll (bs : Branches) (shortCircuit : Bool) (h : NamesWords bs.tokens) :
    LayeredAll (bs.outlines c shortCircuit) := by
  match bs with
  | .last xs =>
      exact List.forall_mem_singleton.mpr
        (layered_within (by simp [Container.tag, Tag.name]) (xs.layeredAll h))
  | .cons xs next bs =>
      exact List.forall_mem_cons.mpr
        ⟨layered_within (by simp [Container.tag, Tag.name])
          (xs.layeredAll (h.of_subset (by simp [Branches.tokens]))),
        bs.layeredAll next (h.of_subset (by simp [Branches.tokens]))⟩

end

/-! ## Statements and rules -/

theorem Tail.flatAll (t : Tail) : FlatAll (t.outlines c) := by
  obtain ⟨order, limit, offset⟩ := t
  have hbound : ∀ (item : UInt64 → Leaf) (b : Option Bound),
      (∀ n, (Outline.leaf (item n)).element.Flat) → FlatAll (Bound.outlines item b) := by
    intro item b h
    cases b with
    | none => exact flatAll_nil
    | some b => exact flatAll_cons (h b.number) flatAll_nil
  have horder : FlatAll (orderOutlines c order) := by
    cases order with
    | nil => exact flatAll_nil
    | cons key keys =>
        refine flatAll_cons (flat_within (by decide) (FlatAll.flatMap fun k _ => ?_)) flatAll_nil
        refine flatAll_cons (flat_leaf ?_) flatAll_nil
        generalize decide (k.direction = .descending) = descending
        cases descending <;> simp [Leaf.name]
  have hlimit := hbound .limit limit fun n => flat_leaf (by simp [Leaf.name])
  have hoffset := hbound .offset offset fun n => flat_leaf (by simp [Leaf.name])
  refine horder.append ?_
  cases limit <;> cases offset
  · exact flatAll_nil
  all_goals exact flatAll_cons (flat_within (by decide) (hlimit.append hoffset)) flatAll_nil

theorem Change.flatAll (x : Change) (h : NamesWords x.tokens) : FlatAll (x.outlines c) := by
  cases x with
  | insert content =>
      refine flatAll_cons (flat_within (by decide) (FlatAll.append ?_ ?_)) flatAll_nil
      · intro o ho
        obtain ⟨v, -, rfl⟩ := List.mem_map.mp ho
        exact flat_leaf (by simp [Leaf.name, AtomKind.name])
      · exact flatAll_cons (flat_leaf (by simp [Leaf.name])) flatAll_nil
  | update calls =>
      refine FlatAll.flatMap fun call hcall => flatAll_cons (flat_call (h.of_subset ?_)) flatAll_nil
      exact fun u hu => List.mem_cons_of_mem _ (mem_listed_of_mem hcall hu)
  | delete targets =>
      refine FlatAll.flatMap fun target htarget => ?_
      cases target with
      | term t => exact flatAll_cons (flat_term t) flatAll_nil
      | call call =>
          refine flatAll_cons (flat_call (h.of_subset ?_)) flatAll_nil
          exact fun u hu => List.mem_cons_of_mem _ (mem_listed_of_mem htarget hu)
  | merge first second =>
      exact flatAll_cons (flat_term first) (flatAll_cons (flat_term second) flatAll_nil)

/-- Flat elements and conditions make a statement. -/
theorem scoped_statement {k : Container} (hk : k.tag ∈ statementTags) {os ps : List Outline}
    (hos : FlatAll os) (hps : ∀ o ∈ ps, o.element.Flat ∨ o.element.name = "where" ∧ o.element.Layered) :
    (Outline.within k (os ++ ps)).element.Scoped := by
  refine ⟨.inr (List.mem_map_of_mem hk), children_within fun o ho => ?_, fun hname => ?_⟩
  · obtain ho | ho := List.mem_append.mp ho
    · exact .inl (hos o ho)
    · exact (hps o ho).imp id fun h => ⟨.inl h.1, h.2⟩
  · have hnot : ∀ tag ∈ statementTags, tag.name ≠ "rule" := by decide
    exact absurd hname (hnot _ hk)

theorem condition_outlines {x : Condition} (h : NamesWords (Category.condition.tokens x)) :
    ∀ o ∈ Category.condition.outlines c x,
      o.element.Flat ∨ o.element.name = "where" ∧ o.element.Layered := by
  have hclauses : NamesWords x.clauses.tokens := h.of_subset (List.subset_append_left _ _)
  refine List.forall_mem_cons.mpr ⟨.inr ⟨rfl, layered_within (by decide) (x.clauses.layeredAll hclauses)⟩,
    fun o ho => .inl (x.tail.flatAll o ho)⟩

theorem scoped_flat {k : Container} (hk : k.tag ∈ statementTags) {os : List Outline}
    (hos : FlatAll os) : (Outline.within k os).element.Scoped := by
  have h := @scoped_statement k hk os [] hos (by simp)
  rwa [List.append_nil] at h

/-- The element of a statement holds lists of clauses in its conditions only. -/
theorem Statement.scoped (x : Statement) (h : NamesWords (Category.statement.tokens x)) :
    ∀ o ∈ Category.statement.outlines c x, o.element.Scoped := by
  have hiris : ∀ ts : List Term, FlatAll (Category.iri.list.outlines c ts) := fun ts =>
    FlatAll.flatMap fun t _ => flatAll_cons (flat_term t) flatAll_nil
  cases x with
  | select projections isWhere x =>
      refine List.forall_mem_singleton.mpr (scoped_statement (by decide) ?_
        (condition_outlines (h.of_subset fun t ht => ?_)))
      · refine FlatAll.flatMap fun p _ => ?_
        cases p <;> exact flatAll_cons (flat_leaf (by simp [Leaf.name, AtomKind.name])) flatAll_nil
      · simp only [Category.statement, List.mem_cons, List.mem_append]
        exact .inr (.inr (.inr ht))
  | bare x =>
      exact List.forall_mem_singleton.mpr
        (@scoped_statement .select (by decide) [] _ flatAll_nil (condition_outlines h))
  | change x y =>
      have hx : NamesWords x.tokens := h.of_subset (List.subset_append_left _ _)
      have hk : x.container.tag ∈ statementTags := by
        cases x <;> simp [Change.container, statementTags, Container.tag]
      refine List.forall_mem_singleton.mpr (scoped_statement hk (x.flatAll hx) ?_)
      cases y with
      | none => simp [Category.optionalCondition]
      | some y =>
          refine condition_outlines (h.of_subset fun t ht => ?_)
          simp only [Category.statement, Category.optionalCondition, List.mem_cons, List.mem_append]
          exact .inr (.inr ht)
  | load source targets =>
      refine List.forall_mem_singleton.mpr (scoped_flat (by decide)
        ((flatAll_cons (flat_term source) flatAll_nil).append ?_))
      cases targets with
      | nil => exact flatAll_nil
      | cons t ts => exact flatAll_cons (flat_within (by decide) (hiris (t :: ts))) flatAll_nil
  | drop source =>
      exact List.forall_mem_singleton.mpr
        (scoped_flat (by decide) (flatAll_cons (flat_term source) flatAll_nil))
  | create source =>
      exact List.forall_mem_singleton.mpr
        (scoped_flat (by decide) (flatAll_cons (flat_term source) flatAll_nil))

/-- The element of a rule holds variables and its body. -/
theorem Rule.scoped (r : Rule) (h : NamesWords (Category.rule.tokens r)) :
    ∀ o ∈ Category.rule.outlines c r, o.element.Scoped := by
  have hbody : NamesWords r.body.tokens := h.of_subset fun t ht => by
    simp [Category.rule, ht]
  have hchildren : ∀ o ∈ Category.parameter.list.outlines c r.parameters ++
        [Outline.within .body (r.body.outlines c)],
      (∃ v, o = .leaf (.atom .var v)) ∨ o = .within .body (r.body.outlines c) := by
    intro o ho
    obtain ho | ho := List.mem_append.mp ho
    · obtain ⟨v, -, ho⟩ := List.mem_flatMap.mp ho
      exact .inl ⟨v, List.mem_singleton.mp ho⟩
    · exact .inr (List.mem_singleton.mp ho)
  refine List.forall_mem_singleton.mpr ⟨.inl rfl, children_within fun o ho => ?_,
    fun _ => children_within fun o ho hflat => ?_⟩
  · obtain ⟨v, rfl⟩ | rfl := hchildren o ho
    · exact .inl (flat_leaf (by simp [Leaf.name, AtomKind.name]))
    · exact .inr ⟨.inr rfl, layered_within (by decide) (r.body.layeredAll hbody)⟩
  · obtain ⟨v, rfl⟩ | rfl := hchildren o ho
    · exact ⟨v, rfl⟩
    · exact absurd hflat.not_list (by simp [isClauseList, Outline.element, Container.tag, Tag.name])

/-! ## Documents -/

theorem header_leaves (d : Directive) (c : Grammar.Setting) :
    ∀ item ∈ d.leaves c, (Outline.leaf item).element.IsHeader := by
  intro item hitem
  cases d with
  | base iri =>
      obtain rfl := List.mem_singleton.mp hitem
      exact ⟨.inl rfl, rfl⟩
  | version kind text => simp [Directive.leaves] at hitem
  | binding binder b =>
      rw [Directive.leaves] at hitem
      split at hitem
      · simp at hitem
      · obtain rfl := List.mem_singleton.mp hitem
        exact ⟨.inr rfl, rfl⟩

theorem header_leavesAll (ds : List Directive) (c : Grammar.Setting) :
    ∀ item ∈ Directive.leavesAll c ds, (Outline.leaf item).element.IsHeader := by
  induction ds generalizing c with
  | nil => simp [Directive.leavesAll]
  | cons d ds ih => exact List.forall_mem_append.mpr ⟨header_leaves d c, ih (d.settle c)⟩

/-- The tree of a document is settled. -/
theorem Document.settled_element (d : Document) (c : Grammar.Setting) (h : NamesWords d.tokens) :
    (d.outline c).element.Settled := by
  refine ⟨rfl, children_within fun o ho => ?_⟩
  obtain ho | ho := List.mem_append.mp ho
  · obtain ⟨item, hitem, rfl⟩ := List.mem_map.mp ho
    exact .inl (header_leavesAll _ _ item hitem)
  obtain ho | ho := List.mem_append.mp ho
  · obtain ⟨r, hr, ho⟩ := List.mem_flatMap.mp ho
    refine .inr (r.scoped (h.of_subset fun t ht => ?_) o ho)
    exact List.mem_append_right _ (List.mem_append_left _ (List.mem_flatMap.mpr ⟨r, hr, ht⟩))
  · obtain ⟨x, hx, ho⟩ := List.mem_flatMap.mp ho
    refine .inr (x.scoped (h.of_subset fun t ht => ?_) o ho)
    exact List.mem_append_right _ (List.mem_append_right _
      (List.mem_append_left _ (List.mem_flatMap.mpr ⟨x, hx, ht⟩)))

end Phrase

/-- A text that has a tree is parsed to its end. -/
theorem Element.parses_of_ofText {plus : Bool} {text : String} {tree : Element}
    (h : ofText plus text = .ok tree) : (parse text plus).fault = none := by
  rw [ofText, ofEventsOr] at h
  obtain ⟨g, -, h⟩ := ok_of_bind h
  cases hfault : (parse text plus).fault with
  | none => rfl
  | some fault =>
      rw [hfault] at h
      cases h

/-- The tree of a text is settled. -/
theorem Element.settled_of_ofText {plus : Bool} {text : String} {tree : Element}
    (h : ofText plus text = .ok tree) : tree.Settled := by
  obtain ⟨d, hd⟩ := Phrase.exists_document (parses_of_ofText h)
  rw [hd.tree] at h
  obtain rfl := Except.ok.inj h
  exact d.settled_element _ (Phrase.namesWords_of_proper hd.proper)

end TopicQuery
