import TopicQuery.Proofs.Passes.Evidence
import TopicQuery.Proofs.Passes.Mentions

/-!
Passes reach a fixed point at once. What a pass leaves behind is nothing that the same
pass would change: a list that was put in order or lost its repetitions stays as it is,
a narrowed clause has evidence for the kinds that are left, and the variables that remain
are mentioned as often as they were.
-/

namespace TopicQuery

open Element

/-! ## Changes of every list -/

namespace Element

variable {pass : String} {change : List Element → Option (List Element)}

theorem changeLists_eq_self {e : Element} (hchildren : ∀ c ∈ e.children, c.changeLists pass change = c)
    (hlist : e.isClauseList = true → change e.children = none) : e.changeLists pass change = e := by
  obtain ⟨name, attributes, text, children⟩ := e
  have hmap : children.map (changeLists pass change) = children :=
    (List.map_congr_left hchildren).trans (List.map_id' _)
  rw [changeLists_eq]
  dsimp only
  rw [hmap, changeList]
  split
  · next h => rw [show change children = none from hlist h]
  · rfl

/-- A list that was changed is not changed again if the change has nothing to do there. -/
theorem changeLists_changeLists (hsubset : ∀ {cs cs'}, change cs = some cs' → cs' ⊆ cs)
    (hdone : ∀ {cs cs'}, change cs = some cs' → change cs' = none) (e : Element) :
    (e.changeLists pass change).changeLists pass change = e.changeLists pass change := by
  induction e using induction_children with
  | step e ih =>
      have hchildren : ∀ c ∈ e.children.map (changeLists pass change),
          c.changeLists pass change = c := List.forall_mem_map.mpr ih
      rw [changeLists_eq e, changeList]
      split
      · split
        · next cs hcs =>
          apply changeLists_eq_self
          · rw [children_annotate]
            exact fun c hc => hchildren c (hsubset hcs hc)
          · rw [children_annotate]
            exact fun _ => hdone hcs
        · next hcs => exact changeLists_eq_self hchildren fun _ => hcs
      · next hlist => exact changeLists_eq_self hchildren fun h => absurd h hlist

end Element

namespace RemoveDuplicates

theorem firsts_firsts (kept clauses : List Element) :
    firsts kept (firsts kept clauses) = firsts kept clauses := by
  induction clauses generalizing kept with
  | nil => rfl
  | cons clause clauses ih =>
      by_cases hkept : kept.any (·.sameAs clause) = true
      · rw [firsts, if_pos hkept, ih kept]
      · have hfirst : firsts kept (clause :: clauses) = clause :: firsts (clause :: kept) clauses := by
          rw [firsts, if_neg hkept]
        rw [hfirst, firsts, if_neg hkept, ih]

/-- A list without repetitions has none to lose. -/
theorem shorten?_shortened {clauses found : List Element} (h : shorten? clauses = some found) :
    shorten? found = none := by
  obtain rfl := shorten?_eq h
  simp [shorten?, firsts_firsts]

end RemoveDuplicates

namespace FiltersLast

/-- No clause stands behind a filter once the filters stand behind the others. -/
theorem reorder?_reordered {clauses found : List Element} (h : reorder? clauses = some found) :
    reorder? found = none := by
  unfold reorder? at h
  split at h
  · cases h
  · obtain rfl := Option.some.inj h
    have hothers : ∀ c ∈ clauses.filter (!·.isFilter), (!c.isFilter) = true := fun c hc =>
      (List.mem_filter.mp hc).2
    rw [reorder?, List.dropWhile_append_of_pos hothers, if_pos]
    rw [List.all_eq_true]
    intro c hc
    exact (List.mem_filter.mp ((List.dropWhile_sublist _).subset hc)).2

end FiltersLast

/-! ## Replaced clauses -/

namespace InternalPredicates

variable {counted counted' : List String}

/-- A clause that was left is left again, and one that was put in its place is as well. -/
theorem replace_replace {e : Element}
    (h : ∀ v ∈ mentions (replace counted e), counted'.count v = counted.count v) :
    replace counted' (replace counted e) = replace counted e := by
  obtain hsame | ⟨-, _, _, v, internal, -, -, -, -, hreplace⟩ := replace_eq counted e
  · rw [replace_congr h, hsame, hsame]
  · rw [hreplace]
    exact replace_of_ne counted' (by simp [replacement])

theorem replaceBelow_eq_self {e : Element} (hlist : e.isClauseList = false)
    (h : ∀ c ∈ e.children, replaceBelow counted c = c) : replaceBelow counted e = e := by
  obtain ⟨name, attributes, text, children⟩ := e
  have hmap : children.map (replaceBelow counted) = children :=
    (List.map_congr_left h).trans (List.map_id' _)
  rw [replaceBelow_of_not_list hlist]
  exact congrArg (Element.mk name attributes text) hmap

/-- Below an element, and below the clause put in its place, nothing is replaced again where the
variables that remain are mentioned as often as they were. -/
theorem replaceBelow_settled (e : Element) :
    ∀ m, m = replaceBelow counted e ∨ m = replace counted (replaceBelow counted e) →
      (∀ v ∈ mentions m, counted'.count v = counted.count v) → replaceBelow counted' m = m := by
  induction e using induction_children with
  | step e ih =>
      have hbelow : (∀ v ∈ mentions (replaceBelow counted e), counted'.count v = counted.count v) →
          replaceBelow counted' (replaceBelow counted e) = replaceBelow counted e := by
        intro h
        have hchild : ∀ m ∈ (replaceBelow counted e).children, ∀ v ∈ mentions m,
            counted'.count v = counted.count v := fun m hm v hv => h v (mem_mentions_of_child hm hv)
        by_cases hlist : e.isClauseList = true
        · rw [replaceBelow_of_list hlist] at hchild ⊢
          rw [replaceBelow_of_list (e := { e with children := _ }) hlist, List.map_map]
          congr 1
          refine List.map_congr_left fun c hc => ?_
          have hmember := hchild _ (List.mem_map_of_mem hc)
          rw [Function.comp_apply, ih c hc _ (.inr rfl) hmember]
          exact replace_replace hmember
        · rw [Bool.not_eq_true] at hlist
          rw [replaceBelow_of_not_list hlist] at hchild ⊢
          apply replaceBelow_eq_self (e := { e with children := _ }) hlist
          intro m hm
          obtain ⟨c, hc, rfl⟩ := List.mem_map.mp hm
          exact ih c hc _ (.inl rfl) (hchild _ hm)
      rintro m (rfl | rfl) h
      · exact hbelow h
      · obtain hsame | ⟨hname, _, _, removed, internal, -, -, -, -, hreplace⟩ :=
          replace_eq counted (replaceBelow counted e)
        · rw [hsame] at h ⊢
          exact hbelow h
        · rw [hreplace] at h ⊢
          -- what is left of the clause are arguments it had, with nothing to replace below them
          have hlist := not_list_of_builtin ((name_replaceBelow e).symm.trans hname)
          apply replaceBelow_eq_self (by simp [replacement, isClauseList])
          intro m hm
          have hargument : m ∈ (replaceBelow counted e).children := by
            rw [replacement, children_annotate] at hm
            exact withoutArgument_subset _ _ hm
          rw [replaceBelow_of_not_list hlist] at hargument
          obtain ⟨c, hc, rfl⟩ := List.mem_map.mp hargument
          exact ih c hc _ (.inl rfl) fun v hv => h v (mem_mentions_of_child hm hv)

/-- The clauses of a rule or statement are replaced all at once. -/
theorem replaceScope_replaceScope {e : Element} (h : e.Every HoldsAsContainer) :
    replaceScope (replaceScope e) = replaceScope e := by
  by_cases hscope : (e.name == "base" || e.name == "namespace") = true
  · have hsame : replaceScope e = e := by rw [replaceScope, if_pos hscope]
    rw [hsame, hsame]
  · have hreplaced : replaceScope e = replaceBelow (mentions e) e := by
      rw [replaceScope, if_neg hscope]
    have hthins : Thins (mentions e) (mentions e) (mentions (replaceBelow (mentions e) e)) :=
      thins_replaceBelow h
    rw [hreplaced, replaceScope, name_replaceBelow, if_neg hscope]
    apply replaceBelow_settled e _ (.inl rfl)
    intro v hv
    by_cases hlone : (mentions e).count v = 1
    · have hremains := List.count_pos_iff.mpr hv
      have hle := hthins.le v
      omega
    · exact hthins.eq v hlone

end InternalPredicates

/-! ## Every pass -/

namespace Element

mutual

theorem holdsAsContainer_of_replay (e : Element) (h : e.replay.fault = none) :
    e.Every HoldsAsContainer := by
  match e with
  | ⟨name, attributes, text, children⟩ =>
    rw [replay] at h
    split at h
    · next tag htag =>
      split at h
      · have hchildren : (replayAll children).fault = none := by
          unfold Replay.within at h
          split at h
          · cases h
          · assumption
        refine .mk (fun hname => absurd htag ?_) (holdsAsContainer_of_replayAll children hchildren)
        rw [show Tag.ofName? name = none from hname]
        exact nofun
      · cases h
    · split at h
      · split at h
        · next hempty =>
          obtain rfl := List.isEmpty_iff.mp hempty
          exact .mk (fun _ => rfl) nofun
        · cases h
      · cases h

theorem holdsAsContainer_of_replayAll (es : List Element) (h : (replayAll es).fault = none) :
    ∀ e ∈ es, e.Every HoldsAsContainer := by
  match es with
  | [] => nofun
  | e :: es =>
    rw [replayAll, Replay.andThen] at h
    split at h
    · next hfault =>
      rw [hfault] at h
      cases h
    · next hfirst =>
      exact List.forall_mem_cons.mpr
        ⟨holdsAsContainer_of_replay e hfirst, holdsAsContainer_of_replayAll es h⟩

end

end Element

/-- What a pass made of a tree that can be replayed is not changed by the same pass again. -/
theorem Pass.apply_apply (pass : Pass) {tree : Element} (h : tree.replay.fault = none) :
    pass.apply (pass.apply tree) = pass.apply tree := by
  cases pass with
  | removeDuplicates =>
      exact changeLists_changeLists RemoveDuplicates.shorten?_subset
        RemoveDuplicates.shorten?_shortened tree
  | narrowHints =>
      simp only [Pass.apply, NarrowHints.apply, NarrowHints.narrowEach_eq_map, List.map_map]
      congr 1
      exact List.map_congr_left fun e _ => NarrowHints.narrowBelow_narrowBelow [] e
  | internalPredicates =>
      simp only [Pass.apply, InternalPredicates.apply, List.map_map]
      congr 1
      refine List.map_congr_left fun e he => ?_
      exact InternalPredicates.replaceScope_replaceScope
        ((every_iff.mp (holdsAsContainer_of_replay tree h)).2 e he)
  | filtersLast =>
      exact changeLists_changeLists FiltersLast.reorder?_subset FiltersLast.reorder?_reordered tree

/-- Two negations that become one when the first has lost its repetition. -/
theorem Pass.apply_apply_negations :
    let clause : Element := ⟨"builtin-predicate", [("name", "instance-of")], none,
      [⟨"variable", [("value", "a")], none, []⟩, ⟨"variable", [("value", "b")], none, []⟩]⟩
    let tree : Element := ⟨"select", [], none, [⟨"where", [], none,
      [⟨"not", [], none, [clause, clause]⟩, clause, ⟨"not", [], none, [clause]⟩]⟩]⟩
    tree.replay.fault = none ∧ Pass.removeDuplicates.apply tree ≠ tree ∧
      ∀ pass : Pass, pass.apply (pass.apply tree) = pass.apply tree := by
  intro clause tree
  have h : tree.replay.fault = none := by decide +kernel
  exact ⟨h, by decide +kernel, fun pass => Pass.apply_apply pass h⟩

end TopicQuery
