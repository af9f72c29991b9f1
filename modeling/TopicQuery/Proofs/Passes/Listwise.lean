import TopicQuery.Proofs.Passes.Evidence

/-!
What a pass that changes every list of clauses makes of a tree, told without the order in
which it goes through the tree: which tree belongs to which, list by list.
-/

namespace TopicQuery.Element

variable {pass : String} {result : List Element → List Element} {changes : List Element → Prop}
  {e e' : Element}

/-- The second tree is the first with `result` of every list of clauses in place of the list.
The lists are taken with what became of the lists inside of their members; those that the pass
`changes` bear its mark, and everything else is as it was. -/
inductive Listwise (pass : String) (result : List Element → List Element)
    (changes : List Element → Prop) : Element → Element → Prop
  | other {e : Element} {inner : List Element} (hlist : e.isClauseList = false)
      (hinner : List.Forall₂ (Listwise pass result changes) e.children inner) :
      Listwise pass result changes e { e with children := inner }
  | same {e : Element} {inner : List Element} (hlist : e.isClauseList = true)
      (hinner : List.Forall₂ (Listwise pass result changes) e.children inner)
      (hchanges : ¬changes inner) :
      Listwise pass result changes e { e with children := result inner }
  | changed {e : Element} {inner : List Element} (hlist : e.isClauseList = true)
      (hinner : List.Forall₂ (Listwise pass result changes) e.children inner)
      (hchanges : changes inner) :
      Listwise pass result changes e ({ e with children := result inner }.annotate pass)

theorem forall₂_iff_eq_map {α β : Type} {R : α → β → Prop} {f : α → β} {xs : List α}
    (h : ∀ x ∈ xs, ∀ {y}, R x y ↔ y = f x) {ys : List β} :
    List.Forall₂ R xs ys ↔ ys = xs.map f := by
  induction xs generalizing ys with
  | nil => exact List.forall₂_nil_left_iff
  | cons x xs ih =>
      obtain ⟨hx, hxs⟩ := List.forall_mem_cons.mp h
      rw [List.forall₂_cons_left_iff, List.map_cons]
      constructor
      · rintro ⟨y, rest, hy, hrest, rfl⟩
        rw [hx.mp hy, (ih hxs).mp hrest]
      · rintro rfl
        exact ⟨_, _, hx.mpr rfl, (ih hxs).mpr rfl, rfl⟩

theorem changeList_of_not_list {change : List Element → Option (List Element)}
    {inner : List Element} (hlist : e.isClauseList = false) :
    changeList pass change { e with children := inner } = { e with children := inner } := by
  rw [changeList, if_neg]
  rw [show isClauseList { e with children := inner } = false from hlist]
  exact Bool.false_ne_true

/-- The change of a list has this result: a new list where it `changes` the list, and else
nothing to do. -/
structure Makes (change : List Element → Option (List Element))
    (result : List Element → List Element) (changes : List Element → Prop) : Prop where
  some : ∀ {cs}, changes cs → change cs = some (result cs)
  none : ∀ {cs}, ¬changes cs → change cs = none ∧ result cs = cs

namespace Makes

variable {change : List Element → Option (List Element)} (hmakes : Makes change result changes)
  {inner : List Element}

include hmakes

theorem changeList_of_changes (hlist : e.isClauseList = true) (h : changes inner) :
    changeList pass change { e with children := inner } =
      { e with children := result inner }.annotate pass := by
  rw [changeList, if_pos (show isClauseList { e with children := inner } = true from hlist),
    hmakes.some h]

theorem changeList_of_not_changes (hlist : e.isClauseList = true) (h : ¬changes inner) :
    changeList pass change { e with children := inner } = { e with children := result inner } := by
  obtain ⟨hnone, hsame⟩ := hmakes.none h
  rw [changeList, if_pos (show isClauseList { e with children := inner } = true from hlist), hnone,
    hsame]

/-- What becomes of an element is told by what becomes of its children. -/
theorem listwise_iff_changeList : Listwise pass result changes e e' ↔
    ∃ inner, List.Forall₂ (Listwise pass result changes) e.children inner ∧
      e' = changeList pass change { e with children := inner } := by
  constructor
  · intro h
    cases h with
    | other hlist hinner => exact ⟨_, hinner, (changeList_of_not_list hlist).symm⟩
    | same hlist hinner h => exact ⟨_, hinner, (hmakes.changeList_of_not_changes hlist h).symm⟩
    | changed hlist hinner h => exact ⟨_, hinner, (hmakes.changeList_of_changes hlist h).symm⟩
  · rintro ⟨inner, hinner, rfl⟩
    cases hlist : e.isClauseList with
    | false =>
        rw [changeList_of_not_list hlist]
        exact .other hlist hinner
    | true =>
        by_cases h : changes inner
        · rw [hmakes.changeList_of_changes hlist h]
          exact .changed hlist hinner h
        · rw [hmakes.changeList_of_not_changes hlist h]
          exact .same hlist hinner h

/-- One tree belongs to a tree, the one in which every list is changed. -/
theorem listwise_iff :
    Listwise pass result changes e e' ↔ e' = e.changeLists pass change := by
  induction e using induction_children generalizing e' with
  | step e ih =>
      rw [hmakes.listwise_iff_changeList, changeLists_eq]
      simp only [forall₂_iff_eq_map ih, exists_eq_left]

end Makes

/-- A property of every list that results is one of every list of the tree, at any depth, if no
list results in members that it did not have. -/
theorem Listwise.every {q : List Element → Prop} (hresult : ∀ cs, q (result cs))
    (hsubset : ∀ cs, result cs ⊆ cs) (h : Listwise pass result changes e e') :
    e'.Every fun e => e.isClauseList = true → q e.children := by
  induction e using induction_children generalizing e' with
  | step e ih =>
      have hmembers : ∀ inner, List.Forall₂ (Listwise pass result changes) e.children inner →
          ∀ c' ∈ inner, c'.Every fun e => e.isClauseList = true → q e.children := by
        intro inner hinner c' hc'
        obtain ⟨c, hc, h⟩ := exists_of_mem_forall₂ hinner.flip hc'
        exact ih c hc h
      cases h with
      | @other _ inner hlist hinner =>
          refine .mk (fun hlist' => ?_) (hmembers inner hinner)
          exact absurd (hlist.symm.trans hlist') Bool.false_ne_true
      | @same _ inner _ hinner _ =>
          exact .mk (fun _ => hresult inner) fun c hc => hmembers inner hinner c (hsubset inner hc)
      | @changed _ inner _ hinner _ =>
          refine .mk (fun _ => ?_) ?_
          · rw [children_annotate]
            exact hresult inner
          · rw [children_annotate]
            exact fun c hc => hmembers inner hinner c (hsubset inner hc)

end TopicQuery.Element
