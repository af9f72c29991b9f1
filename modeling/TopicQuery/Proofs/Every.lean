import TopicQuery.Pass
import TopicQuery.Proofs.Optimized.Internal
import TopicQuery.Proofs.Optimized.Lists

/-!
What passes keep. A property of single elements that survives marks, narrowed kinds and
internal predicates holds at every element of an optimized tree if it did before, and a
text outside the lists of clauses stays where it is.
-/

namespace TopicQuery

theorem InternalPredicates.withoutArgument_subset (n : Nat) (es : List Element) :
    withoutArgument n es ⊆ es := by
  induction es generalizing n with
  | nil => exact List.Subset.refl _
  | cons e es ih =>
      by_cases hname : (e.name == "name") = true
      · rw [withoutArgument.eq_def]
        simp only [hname, if_true]
        exact List.cons_subset_cons e (ih n)
      · rw [withoutArgument.eq_def]
        simp only [hname, Bool.false_eq_true, if_false]
        cases n with
        | zero => exact List.subset_cons_self e es
        | succ n => exact List.cons_subset_cons e (ih n)

namespace Element

/-- An element and all below it have a property. -/
inductive Every (p : Element → Prop) : Element → Prop
  | mk {e : Element} (here : p e) (below : ∀ c ∈ e.children, Every p c) : Every p e

variable {p : Element → Prop} {e : Element}

theorem every_iff : e.Every p ↔ p e ∧ ∀ c ∈ e.children, c.Every p :=
  ⟨fun ⟨here, below⟩ => ⟨here, below⟩, fun ⟨here, below⟩ => .mk here below⟩

mutual

theorem every_of_preorder (e : Element) (h : ∀ d ∈ e.preorder, p d) : e.Every p := by
  match e with
  | ⟨name, attributes, text, children⟩ =>
    rw [preorder] at h
    obtain ⟨here, below⟩ := List.forall_mem_cons.mp h
    exact .mk here (every_of_preorderAll children below)

theorem every_of_preorderAll (es : List Element) (h : ∀ d ∈ preorderAll es, p d) :
    ∀ e ∈ es, e.Every p := by
  match es with
  | [] => simp
  | e :: es =>
    rw [preorderAll] at h
    obtain ⟨hfirst, hrest⟩ := List.forall_mem_append.mp h
    exact List.forall_mem_cons.mpr ⟨every_of_preorder e hfirst, every_of_preorderAll es hrest⟩

end

/-- Every element of a tree has the property if every one that is visited has it. -/
theorem every_iff_descendants : e.Every p ↔ ∀ d ∈ e.descendants, p d := by
  simp only [(descendants_perm e).mem_iff]
  refine ⟨fun h => ?_, every_of_preorder e⟩
  induction h with
  | @mk e here below ih =>
      rw [preorder_eq, preorderAll_eq_flatMap]
      refine List.forall_mem_cons.mpr ⟨here, fun d hd => ?_⟩
      obtain ⟨c, hc, hd⟩ := List.mem_flatMap.mp hd
      exact ih c hc d hd

/-- What a pass does to a single element keeps the property. -/
structure KeptByPasses (p : Element → Prop) : Prop where
  /-- Children may be others, but where there were none there are none. -/
  children : ∀ {e : Element} {cs : List Element}, (e.children = [] → cs = []) → p e →
    p { e with children := cs }
  annotate : ∀ {e : Element} (pass : Pass), p e → p (e.annotate pass.name)
  /-- A built-in predicate is left with some of its kinds. -/
  hints : ∀ {e : Element} {hints left : List Hint}, e.name = "builtin-predicate" →
    (e.attr? "hints").bind Hint.ofListText? = some hints → left.Sublist hints → left ≠ [] →
    p e → p (e.setAttr "hints" (Hint.listText left))
  /-- An internal predicate takes the place of a built-in one. -/
  internal : ∀ {clause : Element} {builtin : String} {n : Nat} {removed : String}
    {internal : Internal}, clause.Every p → clause.name = "builtin-predicate" →
    clause.attr? "name" = some builtin → clause.arguments[n]?.bind variableName? = some removed →
    Internal.findFor? builtin n = some internal →
    p (InternalPredicates.internalClause clause internal removed)

/-- A property of the element by itself, whatever the attributes are that passes set. -/
theorem KeptByPasses.of_setAttr
    (children : ∀ {e : Element} (cs : List Element), p e → p { e with children := cs })
    (setAttr : ∀ {e : Element} {name : String} (value : String),
      name ∈ ["hints", optimizedByName] → p e → p (e.setAttr name value))
    (internal : ∀ (clause : Element) (internal : Internal) (removed : String),
      p (InternalPredicates.internalClause clause internal removed)) : KeptByPasses p where
  children _ h := children _ h
  annotate {e} pass h := by
    unfold Element.annotate
    split
    · exact setAttr _ (by simp) h
    · split
      · exact h
      · exact setAttr _ (by simp) h
  hints _ _ _ _ h := setAttr _ (by simp) h
  internal _ _ _ _ _ := internal _ _ _

/-- A text stands in the element outside the lists of clauses. -/
inductive Shows (text : String) : Element → Prop
  | here {e : Element} (h : e.text = some text) : Shows text e
  | inside {e c : Element} (hlist : e.isClauseList = false) (hc : c ∈ e.children)
      (h : Shows text c) : Shows text e

theorem Every.not_shows {text : String} (h : e.Every (·.text ≠ some text)) : ¬e.Shows text := by
  induction h with
  | mk here below ih =>
      intro hshows
      cases hshows with
      | here htext => exact here htext
      | inside hlist hc hshows => exact ih _ hc hshows

/-! ## Properties of every element -/

section Kept

variable (hp : KeptByPasses p)

include hp

theorem Every.with_children (h : e.Every p) {cs : List Element} (hempty : e.children = [] → cs = [])
    (hcs : ∀ c ∈ cs, c.Every p) : Every p { e with children := cs } :=
  .mk (hp.children hempty (every_iff.mp h).1) hcs

theorem Every.annotate (h : e.Every p) (pass : Pass) : (e.annotate pass.name).Every p := by
  obtain ⟨here, below⟩ := every_iff.mp h
  apply Every.mk (hp.annotate pass here)
  rwa [children_annotate]

theorem Every.changeLists (pass : Pass) {change : List Element → Option (List Element)}
    (hchange : ∀ {cs cs'}, change cs = some cs' → cs' ⊆ cs) (h : e.Every p) :
    (e.changeLists pass.name change).Every p := by
  induction h with
  | @mk e here below ih =>
      obtain ⟨name, attributes, text, children⟩ := e
      have hchildren : ∀ c ∈ children.map (Element.changeLists pass.name change), c.Every p := by
        simpa using ih
      have hinner : Every p
          ⟨name, attributes, text, children.map (Element.changeLists pass.name change)⟩ :=
        .mk (hp.children (fun hnil => by simpa using hnil) here) hchildren
      rw [Element.changeLists, changeListsIn_eq_map, changeList]
      split
      · split
        · next cs hcs =>
          have hkept : ∀ c ∈ cs, c.Every p := fun c hc => hchildren c (hchange hcs hc)
          refine (hinner.with_children hp (fun hnil => ?_) hkept).annotate hp pass
          have hsubset := hchange hcs
          rw [hnil] at hsubset
          exact List.subset_nil.mp hsubset
        · exact hinner
      · exact hinner

theorem Every.narrow (h : e.Every p) (evidence : List NarrowHints.Evidence) :
    (NarrowHints.narrow evidence e).Every p := by
  obtain hsame | ⟨hname, hints, v, left, hhints, -, hleft, hne, hnarrow⟩ :=
    NarrowHints.narrow_eq evidence e
  · rw [hsame]
    exact h
  · rw [hnarrow]
    obtain ⟨here, below⟩ := every_iff.mp h
    have hsublist : left.Sublist hints := hleft ▸ List.filter_sublist
    exact Every.annotate hp (.mk (hp.hints hname hhints hsublist hne here) below) .narrowHints

theorem Every.narrowBelow (h : e.Every p) (outer : List NarrowHints.Evidence) :
    (NarrowHints.narrowBelow outer e).Every p := by
  induction h generalizing outer with
  | @mk e here below ih =>
      obtain ⟨name, attributes, text, children⟩ := e
      have hmembers : ∀ negated outer inner before (es : List Element), es ⊆ children →
          ∀ c ∈ NarrowHints.narrowMembers negated outer inner before es, c.Every p := by
        intro negated outer inner before es hes
        induction es generalizing before with
        | nil => simp [NarrowHints.narrowMembers]
        | cons e es ihes =>
            obtain ⟨he, hes⟩ := List.cons_subset.mp hes
            rw [NarrowHints.narrowMembers]
            exact List.forall_mem_cons.mpr ⟨(ih e he inner).narrow hp _, ihes _ hes⟩
      rw [NarrowHints.narrowBelow]
      dsimp only
      split
      · apply Every.mk (hp.children ?_ here) (hmembers _ _ _ _ _ (List.Subset.refl _))
        rintro (rfl : children = [])
        rfl
      · rw [NarrowHints.narrowEach_eq_map]
        apply Every.mk (hp.children (fun hnil => by simpa using hnil) here)
        simpa using fun c hc => ih c hc outer

theorem Every.replace (h : e.Every p) (counted : List String) :
    (InternalPredicates.replace counted e).Every p := by
  obtain hsame | ⟨hname, _, _, removed, internal, hbuiltin, hargument, -, hinternal, hreplace⟩ :=
    InternalPredicates.replace_eq counted e
  · rw [hsame]
    exact h
  · rw [hreplace]
    refine Every.annotate hp (.mk (hp.internal h hname hbuiltin hargument hinternal) ?_)
      .internalPredicates
    intro c hc
    exact (every_iff.mp h).2 c (InternalPredicates.withoutArgument_subset _ _ hc)

theorem Every.replaceBelow (h : e.Every p) (counted : List String) :
    (InternalPredicates.replaceBelow counted e).Every p := by
  induction h with
  | @mk e here below ih =>
      obtain ⟨name, attributes, text, children⟩ := e
      rw [InternalPredicates.replaceBelow, InternalPredicates.replaceIn_eq_map]
      apply Every.mk (hp.children (fun hnil => by simpa using hnil) here)
      intro c hc
      obtain ⟨d, hd, rfl⟩ := List.mem_map.mp hc
      split
      · exact (ih d hd).replace hp counted
      · exact ih d hd

theorem Every.replaceScope (h : e.Every p) : (InternalPredicates.replaceScope e).Every p := by
  unfold InternalPredicates.replaceScope
  split
  · exact h
  · exact h.replaceBelow hp _

/-- A pass leaves the property at every element. -/
theorem Every.apply (h : e.Every p) (pass : Pass) : (pass.apply e).Every p := by
  obtain ⟨here, below⟩ := every_iff.mp h
  cases pass with
  | removeDuplicates =>
      exact h.changeLists hp .removeDuplicates RemoveDuplicates.shorten?_subset
  | filtersLast =>
      exact h.changeLists hp .filtersLast FiltersLast.reorder?_subset
  | narrowHints =>
      rw [Pass.apply, NarrowHints.apply, NarrowHints.narrowEach_eq_map]
      apply h.with_children hp (fun hnil => by simpa using hnil)
      intro c hc
      obtain ⟨d, hd, rfl⟩ := List.mem_map.mp hc
      exact (below d hd).narrowBelow hp []
  | internalPredicates =>
      apply h.with_children hp (fun hnil => by simpa using hnil)
      intro c hc
      obtain ⟨d, hd, rfl⟩ := List.mem_map.mp hc
      exact (below d hd).replaceScope hp

/-- Every element of an optimized tree has the property if every element of the tree had it. -/
theorem Every.optimize (h : e.Every p) (passes : List Pass) :
    (TopicQuery.optimize passes e).Every p := by
  induction passes generalizing e with
  | nil => exact h
  | cons pass passes ih => exact ih (h.apply hp pass)

end Kept

/-! ## Outlines -/

end Element

namespace Outline

variable {p : Element → Prop}

/-- The elements of an outline are those of the containers and of the leaves it tells of. -/
theorem every_element_of_events (o : Outline)
    (hwithin : ∀ c children, .enter c ∈ o.events → p ⟨c.tag.name, c.attributes, none, children⟩)
    (hleaf : ∀ item, .leaf item ∈ o.events → p item.element) : o.element.Every p := by
  match o with
  | .leaf item =>
      apply Element.Every.mk (hleaf item (by simp [events]))
      intro c hc
      cases hc
  | .within c inner =>
      apply Element.Every.mk (hwithin c _ (by simp [events]))
      intro e he
      obtain ⟨o, ho, rfl⟩ : ∃ o ∈ inner, o.element = e := by
        simpa [element, elements_eq_map] using he
      have hevents : ∀ event ∈ o.events, event ∈ (within c inner).events := by
        intro event hevent
        have hinner : event ∈ eventsAll inner := mem_eventsAll.mpr ⟨o, ho, hevent⟩
        simp [events, hinner]
      exact every_element_of_events o (fun c children hc => hwithin c children (hevents _ hc))
        fun item hitem => hleaf item (hevents _ hitem)

theorem every_element
    (hwithin : ∀ (c : Container) children, p ⟨c.tag.name, c.attributes, none, children⟩)
    (o : Outline) (hleaf : ∀ item, .leaf item ∈ o.events → p item.element) : o.element.Every p :=
  o.every_element_of_events (fun c children _ => hwithin c children) hleaf

end Outline

namespace Element

/-! ## Texts -/

/-- A change that leaves texts alone and goes on to the children where no list is. -/
theorem Shows.map {text : String} {change : Element → Element}
    (htext : ∀ e, (change e).text = e.text)
    (hchange : ∀ {e : Element}, e.isClauseList = false →
      change e = { e with children := e.children.map change })
    (h : e.Shows text) : (change e).Shows text := by
  induction h with
  | here h => exact .here ((htext _).trans h)
  | inside hlist hc _ ih =>
      rw [hchange hlist]
      exact .inside hlist (List.mem_map_of_mem hc) ih

theorem text_annotate (e : Element) (pass : String) : (e.annotate pass).text = e.text := by
  unfold Element.annotate
  split
  · rfl
  · split <;> rfl

theorem text_changeLists {pass : String} {change : List Element → Option (List Element)}
    (e : Element) : (e.changeLists pass change).text = e.text := by
  obtain ⟨name, attributes, text, children⟩ := e
  rw [changeLists, changeList]
  split
  · split
    · rw [text_annotate]
    · rfl
  · rfl

theorem text_narrowBelow (outer : List NarrowHints.Evidence) (e : Element) :
    (NarrowHints.narrowBelow outer e).text = e.text := by
  obtain ⟨name, attributes, text, children⟩ := e
  rw [NarrowHints.narrowBelow]
  dsimp only
  split <;> rfl

theorem text_replaceBelow (counted : List String) (e : Element) :
    (InternalPredicates.replaceBelow counted e).text = e.text := by
  obtain ⟨name, attributes, text, children⟩ := e
  rw [InternalPredicates.replaceBelow]

theorem name_apply (pass : Pass) (e : Element) : (pass.apply e).name = e.name := by
  cases pass with
  | removeDuplicates => exact name_changeLists e
  | filtersLast => exact name_changeLists e
  | narrowHints => rfl
  | internalPredicates => rfl

theorem name_optimize (passes : List Pass) (e : Element) :
    (TopicQuery.optimize passes e).name = e.name := by
  induction passes generalizing e with
  | nil => rfl
  | cons pass passes ih => exact (ih (pass.apply e)).trans (name_apply pass e)

theorem Shows.apply {text : String} (h : e.Shows text) (hroot : e.isClauseList = false)
    (pass : Pass) : (pass.apply e).Shows text := by
  cases pass with
  | removeDuplicates => exact h.map text_changeLists changeLists_of_not_list
  | filtersLast => exact h.map text_changeLists changeLists_of_not_list
  | narrowHints =>
      have hbelow : NarrowHints.apply e = NarrowHints.narrowBelow [] e := by
        rw [NarrowHints.narrowBelow_of_not_list [] hroot, NarrowHints.apply,
          NarrowHints.narrowEach_eq_map]
      rw [Pass.apply, hbelow]
      exact h.map (text_narrowBelow []) (NarrowHints.narrowBelow_of_not_list [])
  | internalPredicates =>
      have hscope : ∀ c : Element, c.Shows text →
          (InternalPredicates.replaceScope c).Shows text := by
        intro c hc
        unfold InternalPredicates.replaceScope
        split
        · exact hc
        · exact hc.map (text_replaceBelow _) InternalPredicates.replaceBelow_of_not_list
      cases h with
      | here htext => exact .here htext
      | inside _ hc hshows => exact .inside hroot (List.mem_map_of_mem hc) (hscope _ hshows)

/-- A text outside the lists of clauses is kept by every pass. -/
theorem Shows.optimize {text : String} (h : e.Shows text) (hroot : e.isClauseList = false)
    (passes : List Pass) : (TopicQuery.optimize passes e).Shows text := by
  induction passes generalizing e with
  | nil => exact h
  | cons pass passes ih =>
      apply ih (h.apply hroot pass)
      rw [isClauseList, name_apply]
      exact hroot

end Element

end TopicQuery
