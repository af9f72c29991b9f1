import TopicQuery.Proofs.Optimized.Parsed
import TopicQuery.Proofs.Passes.Evidence
import TopicQuery.Proofs.Passes.Mentions
import TopicQuery.Proofs.Reparsed
import TopicQuery.Proofs.Reported

/-!
Passes whose order does not matter. Narrowing kinds, replacing predicates and putting
filters last look at different things: at the evidence that clauses give, at how often
variables are mentioned and at the names of clauses. Each of them leaves what the other two
look at, so in any order they make the same tree of a text.
-/

namespace TopicQuery

open Element

/-! ## Filters last -/

namespace FiltersLast

theorem reorder?_map {g : Element → Element} (hg : ∀ e, (g e).isFilter = e.isFilter)
    (clauses : List Element) :
    reorder? (clauses.map g) = (reorder? clauses).map fun found => found.map g := by
  have hfilter : Element.isFilter ∘ g = Element.isFilter := funext hg
  have hother : (fun e : Element => !e.isFilter) ∘ g = fun e => !e.isFilter := by
    funext e
    simp [hg]
  unfold reorder?
  rw [List.dropWhile_map, List.all_map, hfilter, hother]
  split
  · rfl
  · rw [List.filter_map, List.filter_map, hother, hfilter, Option.map_some, List.map_append]

variable {g : Element → Element}

/--
A change of the members of lists may come before the filters are put last, if it depends on the
order of the members as little as it changes which are filters.
-/
theorem changeList_interchange (member : String → List Element → Element → Element)
    (hlist : ∀ {e : Element}, e.isClauseList = true →
      g e = { e with children := e.children.map (member e.name e.children) })
    (hmarked : ∀ {e : Element} (pass : String), g (e.annotate pass) = (g e).annotate pass)
    (hfilter : ∀ name es e, (member name es e).isFilter = e.isFilter)
    (hperm : ∀ name {es es' : List Element}, es.Perm es' → ∀ e, member name es e = member name es' e)
    {e : Element} (h : e.isClauseList = true) :
    g (changeList name reorder? e) = changeList name reorder? (g e) := by
  have hafter : Element.isClauseList { e with children := e.children.map (member e.name e.children) } =
      true := h
  rw [changeList, if_pos h, hlist h, changeList, if_pos hafter]
  dsimp only
  rw [reorder?_map (hfilter e.name e.children)]
  cases hfound : reorder? e.children with
  | none => exact hlist h
  | some found =>
      have hmembers : found.map (member e.name found) = found.map (member e.name e.children) :=
        List.map_congr_left fun c _ => hperm e.name (reorder?_perm hfound).symm c
      dsimp only [Option.map_some]
      rw [hmarked, hlist (e := { e with children := found }) h, hmembers]

/-- Kinds are narrowed before filters are put last as behind it. -/
theorem narrowBelow_changeLists (outer : List NarrowHints.Evidence) (e : Element) :
    NarrowHints.narrowBelow outer (e.changeLists name reorder?) =
      (NarrowHints.narrowBelow outer e).changeLists name reorder? := by
  have hdescends := descends_changeLists name reorder?
  induction e using induction_children generalizing outer with
  | step e ih =>
      by_cases hlist : e.isClauseList = true
      · rw [changeLists_eq e, changeLists_eq (NarrowHints.narrowBelow outer e),
          changeList_interchange (NarrowHints.narrowMember outer) (NarrowHints.narrowBelow_of_list outer)
            (fun pass => NarrowHints.narrowBelow_annotate outer _ pass) ?_
            (fun name _ _ hperm => NarrowHints.narrowMember_perm outer name hperm)
            (e := { e with children := _ }) hlist]
        · rw [NarrowHints.narrowBelow_of_list outer hlist,
            NarrowHints.narrowBelow_of_list outer (e := { e with children := _ }) hlist,
            NarrowHints.map_narrowMember fun c _ => hdescends.implied_eq c]
          dsimp only
          congr 2
          rw [List.map_map]
          refine List.map_congr_left fun c hc => ?_
          rw [Function.comp_apply, NarrowHints.narrowMember, ← hdescends.narrow, ih c hc]
        · intro name es c
          rw [isFilter, NarrowHints.name_narrowMember]
          rfl
      · rw [Bool.not_eq_true] at hlist
        exact (descends_narrowBelow outer).comm_of_not_list hdescends hlist fun c hc => ih c hc outer

/-- Clauses are replaced before filters are put last as behind it. -/
theorem replaceBelow_changeLists (counted : List String) (e : Element) :
    InternalPredicates.replaceBelow counted (e.changeLists name reorder?) =
      (InternalPredicates.replaceBelow counted e).changeLists name reorder? := by
  have hdescends := descends_changeLists name reorder?
  induction e using induction_children with
  | step e ih =>
      by_cases hlist : e.isClauseList = true
      · rw [changeLists_eq e, changeLists_eq (InternalPredicates.replaceBelow counted e),
          changeList_interchange (fun _ _ c =>
              InternalPredicates.replace counted (InternalPredicates.replaceBelow counted c))
            InternalPredicates.replaceBelow_of_list
            (fun pass => InternalPredicates.replaceBelow_annotate counted _ pass) ?_
            (fun _ _ _ _ _ => rfl) (e := { e with children := _ }) hlist]
        · rw [InternalPredicates.replaceBelow_of_list hlist,
            InternalPredicates.replaceBelow_of_list (e := { e with children := _ }) hlist]
          dsimp only
          congr 2
          rw [List.map_map, List.map_map]
          refine List.map_congr_left fun c hc => ?_
          rw [Function.comp_apply, Function.comp_apply, ih c hc, hdescends.replace]
        · intro _ _ c
          rw [InternalPredicates.isFilter_replace,
            (descends_replaceBelow counted).isFilter_eq]
      · rw [Bool.not_eq_true] at hlist
        exact (descends_replaceBelow counted).comm_of_not_list hdescends hlist ih

end FiltersLast

/-! ## Narrowed and replaced clauses -/

namespace Element

/-- The clause calls a predicate that there are internal ones for. -/
def IsReplaceable (e : Element) : Prop :=
  e.name = "builtin-predicate" ∧ ∃ builtin n internal, e.attr? "name" = some builtin ∧
    Internal.findFor? builtin n = some internal

/-- If the clause can be replaced, it ranges over no kinds of construct. -/
def LacksKinds (e : Element) : Prop := e.IsReplaceable → e.attr? "hints" = none

theorem isReplaceable_congr {e e' : Element} (hname : e'.name = e.name)
    (hattr : e'.attr? "name" = e.attr? "name") : e'.IsReplaceable ↔ e.IsReplaceable := by
  rw [IsReplaceable, IsReplaceable, hname, hattr]

theorem lacksKinds_kept : KeptByPasses LacksKinds where
  children _ h := h
  annotate {e} pass h hreplaceable := by
    have hattr := (looksLike_annotate e pass.name).attr?
    rw [isReplaceable_congr (name_annotate e pass.name) (hattr "name" (by decide))] at hreplaceable
    rw [hattr "hints" (by decide)]
    exact h hreplaceable
  hints {e _ left} _ hhints _ _ h hreplaceable := by
    have hsame : (e.setAttr "hints" (Hint.listText left)).IsReplaceable ↔ e.IsReplaceable :=
      isReplaceable_congr rfl (Attributes.get?_put_ne (by decide))
    rw [h (hsame.mp hreplaceable)] at hhints
    cases hhints
  internal _ _ _ _ _ hreplaceable :=
    absurd hreplaceable.1 (show "internal-predicate" ≠ "builtin-predicate" by decide)

end Element

namespace InternalPredicates

theorem replace_of_not_replaceable (counted : List String) {e : Element} (h : ¬e.IsReplaceable) :
    replace counted e = e := by
  obtain hsame | ⟨hname, builtin, n, v, internal, hbuiltin, -, -, hinternal, -⟩ :=
    replace_eq counted e
  · exact hsame
  · exact absurd ⟨hname, builtin, n, internal, hbuiltin, hinternal⟩ h

/-- A predicate that can be replaced implies no kind of construct. -/
theorem implied_of_replaceable {e : Element} (h : e.IsReplaceable) : NarrowHints.implied e = [] := by
  obtain ⟨-, builtin, n, internal, hbuiltin, hinternal⟩ := h
  have hpositions : ∀ i ∈ Internal.table, NarrowHints.positions i.builtin = [] := by decide
  have hnone := hpositions internal (List.mem_of_find?_eq_some hinternal)
  rw [(find?_of_findFor? hinternal).2.1] at hnone
  simp [NarrowHints.implied, hbuiltin, hnone]

theorem implied_replace (counted : List String) (e : Element) :
    NarrowHints.implied (replace counted e) = NarrowHints.implied e := by
  obtain hsame | ⟨hname, builtin, n, v, internal, hbuiltin, -, -, hinternal, hreplace⟩ :=
    replace_eq counted e
  · rw [hsame]
  · rw [hreplace, implied_of_replaceable ⟨hname, builtin, n, internal, hbuiltin, hinternal⟩]
    simp [NarrowHints.implied, replacement]

/-- A clause is narrowed before it is replaced as behind it. -/
theorem narrow_replace (evidence : List NarrowHints.Evidence) (counted : List String) {e : Element}
    (h : e.LacksKinds) : NarrowHints.narrow evidence (replace counted e) =
      replace counted (NarrowHints.narrow evidence e) := by
  by_cases hreplaceable : e.IsReplaceable
  · have hsame : NarrowHints.narrow evidence e = e := by
      simp [NarrowHints.narrow, h hreplaceable]
    rw [hsame]
    obtain hkept | ⟨-, _, _, _, _, -, -, -, -, hreplace⟩ := replace_eq counted e
    · rw [hkept, hsame]
    · rw [hreplace]
      exact NarrowHints.narrow_of_ne evidence (by simp [replacement])
  · have hnarrowed : ¬(NarrowHints.narrow evidence e).IsReplaceable := by
      rwa [isReplaceable_congr (NarrowHints.name_narrow evidence e)
        (NarrowHints.attr?_name_narrow evidence e)]
    rw [replace_of_not_replaceable counted hreplaceable, replace_of_not_replaceable counted hnarrowed]

/-- Kinds are narrowed before clauses are replaced as behind it. -/
theorem narrowBelow_replaceBelow (outer : List NarrowHints.Evidence) (counted : List String)
    {e : Element} (h : e.Every LacksKinds) :
    NarrowHints.narrowBelow outer (replaceBelow counted e) =
      replaceBelow counted (NarrowHints.narrowBelow outer e) := by
  induction h generalizing outer with
  | @mk e here below ih =>
      by_cases hlist : e.isClauseList = true
      · have himplied : ∀ c ∈ e.children, NarrowHints.implied
            (replace counted (replaceBelow counted c)) = NarrowHints.implied c := by
          intro c _
          rw [implied_replace, (descends_replaceBelow counted).implied_eq]
        rw [replaceBelow_of_list hlist, NarrowHints.narrowBelow_of_list outer hlist,
          NarrowHints.narrowBelow_of_list outer (e := { e with children := _ }) hlist,
          replaceBelow_of_list (e := { e with children := _ }) hlist,
          NarrowHints.map_narrowMember himplied]
        dsimp only
        rw [List.map_map]
        congr 1
        refine List.map_congr_left fun c hc => ?_
        set inner := outer ++ NarrowHints.impliedIn (e.name == "not") e.children
        have hbelow : ((replaceBelow counted (NarrowHints.narrowBelow inner c))).LacksKinds :=
          (every_iff.mp (((below c hc).narrowBelow lacksKinds_kept inner).replaceBelow
            lacksKinds_kept counted)).1
        rw [Function.comp_apply, NarrowHints.narrowMember, ← (descends_replaceBelow counted).narrow,
          ← (descends_narrowBelow inner).replace, ih c hc inner, narrow_replace _ counted hbelow]
      · rw [Bool.not_eq_true] at hlist
        exact (descends_narrowBelow outer).comm_of_not_list (descends_replaceBelow counted) hlist
          fun c hc => ih c hc outer

end InternalPredicates

/-! ## Passes in any order -/

/-- The tree is no list of clauses, and what can be replaced in it ranges over no kinds. -/
structure Element.Exchanges (tree : Element) : Prop where
  root : tree.isClauseList = false
  lacksKinds : tree.Every LacksKinds

namespace Pass

/-- What a pass makes of the rules and statements of a tree. -/
def scopeChange : Pass → Element → Element
  | removeDuplicates => changeLists RemoveDuplicates.name RemoveDuplicates.shorten?
  | narrowHints => NarrowHints.narrowBelow []
  | internalPredicates => InternalPredicates.replaceScope
  | filtersLast => changeLists FiltersLast.name FiltersLast.reorder?

theorem apply_eq_map (pass : Pass) {tree : Element} (h : tree.isClauseList = false) :
    pass.apply tree = { tree with children := tree.children.map pass.scopeChange } := by
  cases pass with
  | removeDuplicates => exact changeLists_of_not_list h
  | narrowHints => rw [apply, NarrowHints.apply, NarrowHints.narrowEach_eq_map]; rfl
  | internalPredicates => rfl
  | filtersLast => exact changeLists_of_not_list h

/-- Two of the other passes may be interchanged in a rule or statement. -/
theorem scopeChange_comm {p q : Pass} (hp : p ≠ .removeDuplicates) (hq : q ≠ .removeDuplicates)
    {e : Element} (h : e.Every LacksKinds) :
    p.scopeChange (q.scopeChange e) = q.scopeChange (p.scopeChange e) := by
  have hfilters : InternalPredicates.replaceScope (e.changeLists FiltersLast.name FiltersLast.reorder?) =
      (InternalPredicates.replaceScope e).changeLists FiltersLast.name FiltersLast.reorder? :=
    InternalPredicates.replaceScope_interchange (name_changeLists e)
      (InternalPredicates.mentions_changeLists FiltersLast.reorder?_perm e)
      (FiltersLast.replaceBelow_changeLists _ e)
  have hkinds : InternalPredicates.replaceScope (NarrowHints.narrowBelow [] e) =
      NarrowHints.narrowBelow [] (InternalPredicates.replaceScope e) :=
    InternalPredicates.replaceScope_interchange (NarrowHints.name_narrowBelow [] e)
      (InternalPredicates.mentions_narrowBelow [] e)
      (InternalPredicates.narrowBelow_replaceBelow [] _ h).symm
  have horder := FiltersLast.narrowBelow_changeLists [] e
  cases p <;> cases q
  case narrowHints.internalPredicates => exact hkinds.symm
  case internalPredicates.narrowHints => exact hkinds
  case narrowHints.filtersLast => exact horder
  case filtersLast.narrowHints => exact horder.symm
  case internalPredicates.filtersLast => exact hfilters
  case filtersLast.internalPredicates => exact hfilters.symm
  all_goals first | rfl | exact absurd rfl hp | exact absurd rfl hq

theorem exchanges_apply (pass : Pass) {tree : Element} (h : tree.Exchanges) :
    (pass.apply tree).Exchanges where
  root := by
    rw [isClauseList, name_apply]
    exact h.root
  lacksKinds := h.lacksKinds.apply lacksKinds_kept pass

theorem apply_comm {p q : Pass} (hp : p ≠ .removeDuplicates) (hq : q ≠ .removeDuplicates)
    {tree : Element} (h : tree.Exchanges) : p.apply (q.apply tree) = q.apply (p.apply tree) := by
  rw [p.apply_eq_map (q.exchanges_apply h).root, q.apply_eq_map (p.exchanges_apply h).root,
    q.apply_eq_map h.root, p.apply_eq_map h.root]
  dsimp only
  rw [List.map_map, List.map_map]
  congr 1
  exact List.map_congr_left fun e he =>
    scopeChange_comm hp hq ((every_iff.mp h.lacksKinds).2 e he)

end Pass

theorem Element.Exchanges.optimize_eq {tree : Element} (h : tree.Exchanges) {passes passes' : List Pass}
    (hperm : passes.Perm passes') (hnot : .removeDuplicates ∉ passes) :
    optimize passes tree = optimize passes' tree := by
  induction hperm generalizing tree with
  | nil => rfl
  | cons pass _ ih =>
      exact ih (pass.exchanges_apply h) fun hmem => hnot (List.mem_cons_of_mem _ hmem)
  | swap p q passes =>
      have hp : p ≠ .removeDuplicates := fun heq => hnot (by simp [heq])
      have hq : q ≠ .removeDuplicates := fun heq => hnot (by simp [heq])
      exact congrArg (optimize passes) (Pass.apply_comm hp hq h)
  | trans hfirst _ ih ih' =>
      exact (ih h hnot).trans (ih' h fun hmem => hnot (hfirst.mem_iff.mpr hmem))

/-! ## Trees of texts -/

/-- The predicates that can be replaced range over no kinds in the table. -/
theorem lacksKinds_of_isTabled {c : Container} (h : c.isTabled = true) (children : List Element) :
    LacksKinds ⟨c.tag.name, c.attributes, none, children⟩ := by
  rintro ⟨hname, builtin, n, internal, hbuiltin, hinternal⟩
  have htable : ∀ i ∈ Internal.table, (Builtin.find? i.builtin).map Builtin.hints = some [] := by
    decide
  have hnone := htable internal (List.mem_of_find?_eq_some hinternal)
  rw [(InternalPredicates.find?_of_findFor? hinternal).2.1] at hnone
  have htag : c.tag = .builtin := Tag.name_injective hname
  cases c with
  | builtin name hints =>
      obtain rfl : name = builtin := Option.some.inj hbuiltin
      obtain rfl : [] = hints := by simpa [Container.isTabled, hnone] using h
      rfl
  | _ => cases htag

theorem lacksKinds_leaf (item : Leaf) : item.element.LacksKinds := by
  rintro ⟨hname, -⟩
  have hleaf := ofName?_leaf item
  rw [show item.name = "builtin-predicate" from hname] at hleaf
  cases hleaf

theorem Phrase.Document.exchanges (d : Phrase.Document) (c : Grammar.Setting) :
    (d.outline c).element.Exchanges where
  root := rfl
  lacksKinds := (d.outline c).every_element_of_events
    (fun _ children h => lacksKinds_of_isTabled (d.isTabled_of_mem h) children)
    fun item _ => lacksKinds_leaf item

/--
The tree of a text is the same behind all passes but the one that drops repetitions, in
whatever order they are run: narrowing kinds, replacing predicates and putting filters last.
-/
theorem optimize_perm {plus : Bool} {text : String} (hparses : (parse text plus).fault = none) :
    ∃ tree, Element.ofText plus text = .ok tree ∧ ∀ passes passes' : List Pass,
      passes.Perm passes' → .removeDuplicates ∉ passes →
        optimize passes tree = optimize passes' tree := by
  obtain ⟨d, hd⟩ := Phrase.exists_document hparses
  exact ⟨_, hd.tree, fun _ _ hperm hnot => (d.exchanges _).optimize_eq hperm hnot⟩

/-- A filter in front, kinds with evidence beside them and a variable that is mentioned once. -/
theorem optimize_perm_conditions :
    ∃ tree, Element.ofText false
        "not(topic($T)), type($X, $Y), occurrence($T, $X), { instance-of($T, $Z) | topic($Y) }?" =
          .ok tree ∧
      [.narrowHints, .internalPredicates, .filtersLast].Perm
        [Pass.filtersLast, .internalPredicates, .narrowHints] ∧
      Pass.removeDuplicates ∉ [Pass.narrowHints, .internalPredicates, .filtersLast] ∧
      optimize [.narrowHints, .internalPredicates, .filtersLast] tree =
        optimize [.filtersLast, .internalPredicates, .narrowHints] tree := by
  obtain ⟨tree, htree, horder⟩ := @optimize_perm false
    "not(topic($T)), type($X, $Y), occurrence($T, $X), { instance-of($T, $Z) | topic($Y) }?"
    (by decide +kernel)
  exact ⟨tree, htree, by decide, by decide, horder _ _ (by decide) (by decide)⟩

end TopicQuery
