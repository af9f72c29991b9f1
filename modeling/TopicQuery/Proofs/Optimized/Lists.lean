import TopicQuery.Pass.FiltersLast
import TopicQuery.Pass.NarrowHints
import TopicQuery.Pass.RemoveDuplicates
import TopicQuery.Proofs.Optimized.Layers
import TopicQuery.Proofs.Words

/-!
Passes that change every list of clauses: its members are put in another order, those that
repeat an earlier one are left out, or the kinds of construct of each are narrowed by what
the others imply.
-/

namespace TopicQuery

open Element

variable {f : Factory} {read : Leaf → Except Failure Operand} {one : Clause → Clause → Prop}

/-! ## Changes of every list -/

namespace Element

variable {pass : String} {change : List Element → Option (List Element)} {e : Element}

theorem changeListsIn_eq_map (es : List Element) :
    changeListsIn pass change es = es.map (changeLists pass change) := by
  induction es with
  | nil => rfl
  | cons e es ih => rw [changeListsIn, ih, List.map_cons]

theorem changeLists_eq (e : Element) : e.changeLists pass change =
    changeList pass change { e with children := e.children.map (changeLists pass change) } := by
  obtain ⟨name, attributes, text, children⟩ := e
  rw [changeLists, changeListsIn_eq_map]

theorem changeLists_of_not_list (h : e.isClauseList = false) :
    e.changeLists pass change = { e with children := e.children.map (changeLists pass change) } := by
  obtain ⟨name, attributes, text, children⟩ := e
  have hlist : isClauseList ⟨name, attributes, text, children.map (changeLists pass change)⟩ = false := h
  rw [changeLists, changeListsIn_eq_map, changeList, hlist]
  rfl

theorem name_changeLists (e : Element) : (e.changeLists pass change).name = e.name := by
  obtain ⟨name, attributes, text, children⟩ := e
  rw [changeLists, changeList]
  split
  · split
    · rw [name_annotate]
    · rfl
  · rfl

/-- What a change of a list leaves are members of the list, and they mean fewer clauses. -/
structure Shortens (f : Factory) (read : Leaf → Except Failure Operand)
    (one : Clause → Clause → Prop) (change : List Element → Option (List Element)) : Prop where
  subset : ∀ {cs cs'}, change cs = some cs' → cs' ⊆ cs
  agree : ∀ {cs cs'}, change cs = some cs' →
    Agree (fun os os' => Reduces one (Operands.clauses os) (Operands.clauses os'))
      (cs.mapM (meaning f read)) (cs'.mapM (meaning f read))

theorem changeLists_improves (hf : f.IsUsual) (hchange : Shortens f read one change)
    (h : e.Layered) : Improves f read one e (e.changeLists pass change) := by
  induction h with
  | flat h =>
      rw [h.unchanged changeLists_of_not_list]
      exact .refl (.flat h)
  | @list e hlist _ ih =>
      obtain ⟨name, attributes, text, children⟩ := e
      have hinner : Improves f read one ⟨name, attributes, text, children⟩
          ⟨name, attributes, text, children.map (changeLists pass change)⟩ :=
        .of_children hf hlist
          (List.forall₂_map_right_iff.mpr (List.forall₂_same.mpr ih))
      rw [changeLists, changeListsIn_eq_map, changeList]
      split
      · next hclauses =>
        split
        · next cs hcs =>
          have hlayered : ∀ c ∈ cs, c.Layered := fun c hc =>
            hinner.layered.members hclauses c (hchange.subset hcs hc)
          exact (hinner.trans (.of_clauses hf hclauses hlayered (hchange.agree hcs))).annotate pass
        · exact hinner
      · exact hinner

end Element

/-! ## Filters behind the other clauses -/

namespace FiltersLast

theorem reorder?_perm {clauses found : List Element} (h : reorder? clauses = some found) :
    clauses.Perm found := by
  unfold reorder? at h
  split at h
  · cases h
  · cases h
    exact (List.filter_append_perm (!·.isFilter) clauses).symm.trans (by simp)

theorem reorder?_subset {clauses found : List Element} (h : reorder? clauses = some found) :
    found ⊆ clauses :=
  (reorder?_perm h).symm.subset

theorem shortens : Shortens f read one reorder? where
  subset := reorder?_subset
  agree h := (Agree.mapM_perm (reorder?_perm h)).imp fun hos => .reorder (hos.filterMap _)

end FiltersLast

/-! ## Clauses that repeat an earlier one -/

namespace RemoveDuplicates

theorem firsts_sublist (kept clauses : List Element) : (firsts kept clauses).Sublist clauses := by
  induction clauses generalizing kept with
  | nil => exact .slnil
  | cons clause clauses ih =>
      rw [firsts]
      split
      · exact (ih kept).cons _
      · exact (ih (clause :: kept)).cons_cons _

/-- A clause is dropped only if one that is the same is kept. -/
theorem firsts_covers {kept clauses : List Element} {clause : Element} (h : clause ∈ clauses) :
    ∃ c, (c ∈ kept ∨ c ∈ firsts kept clauses) ∧ c.sameAs clause = true := by
  induction clauses generalizing kept with
  | nil => simp at h
  | cons first clauses ih =>
      rw [firsts]
      obtain rfl | h := List.mem_cons.mp h
      · split
        · next hany =>
          obtain ⟨c, hc, hsame⟩ := List.any_eq_true.mp hany
          exact ⟨c, .inl hc, hsame⟩
        · exact ⟨clause, .inr (by simp), (agree_iff _ _ _).mpr rfl⟩
      · split
        · exact ih h
        · obtain ⟨c, hc, hsame⟩ := @ih (first :: kept) h
          refine ⟨c, ?_, hsame⟩
          obtain hc | hc := hc
          · exact (List.mem_cons.mp hc).elim (fun heq => .inr (by simp [heq])) .inl
          · exact .inr (by simp [hc])

theorem shorten?_eq {clauses found : List Element} (h : shorten? clauses = some found) :
    found = firsts [] clauses := by
  unfold shorten? at h
  dsimp only at h
  split at h
  · cases h
  · exact (Option.some.inj h).symm

theorem shorten?_subset {clauses found : List Element} (h : shorten? clauses = some found) :
    found ⊆ clauses :=
  shorten?_eq h ▸ (firsts_sublist _ _).subset

theorem shortens : Shortens f read one shorten? where
  subset := shorten?_subset
  agree {clauses found} h := by
    obtain rfl := shorten?_eq h
    have hcovers : ∀ c ∈ clauses, ∃ d ∈ firsts [] clauses, d.meaning f read = c.meaning f read := by
      intro c hc
      obtain ⟨d, hd, hsame⟩ := @firsts_covers [] clauses c hc
      exact ⟨d, by simpa using hd, meaning_eq_of_sameAs hsame⟩
    exact (Agree.mapM_sublist (firsts_sublist [] clauses) hcovers).imp fun hos =>
      .repeated (hos.1.filterMap _) (List.filterMap_subset _ hos.2)

end RemoveDuplicates

end TopicQuery

namespace TopicQuery.NarrowHints

open Element

variable {f : Factory} {read : Leaf → Except Failure Operand} {one : Clause → Clause → Prop}
  {e : Element}

theorem narrowEach_eq_map (outer : List Evidence) (es : List Element) :
    narrowEach outer es = es.map (narrowBelow outer) := by
  induction es with
  | nil => rfl
  | cons e es ih => rw [narrowEach, ih, List.map_cons]

theorem narrowBelow_of_not_list (outer : List Evidence) (h : e.isClauseList = false) :
    narrowBelow outer e = { e with children := e.children.map (narrowBelow outer) } := by
  obtain ⟨name, attributes, text, children⟩ := e
  rw [narrowBelow]
  dsimp only
  rw [h, narrowEach_eq_map]
  rfl

theorem name_narrowBelow (outer : List Evidence) (e : Element) :
    (narrowBelow outer e).name = e.name := by
  obtain ⟨name, attributes, text, children⟩ := e
  rw [narrowBelow]
  dsimp only
  split <;> rfl

/-! ## A single clause -/

theorem narrow_of_ne (evidence : List Evidence) (h : e.name ≠ "builtin-predicate") :
    narrow evidence e = e := by
  simp [narrow, h]

/-- A clause stays as it is, or some of its kinds are left and it is marked. -/
theorem narrow_eq (evidence : List Evidence) (e : Element) :
    narrow evidence e = e ∨ e.name = "builtin-predicate" ∧ ∃ hints v left,
      (e.attr? "hints").bind Hint.ofListText? = some hints ∧
      e.arguments.head?.bind variableName? = some v ∧
      left = (hints.filter fun h => evidence.contains (v, h)) ∧ left ≠ [] ∧
      narrow evidence e = (e.setAttr "hints" (Hint.listText left)).annotate name := by
  unfold narrow
  split
  · exact .inl rfl
  · next hname =>
    split
    · next hints v hhints hv =>
      dsimp only
      split
      · next hleft =>
        refine .inr ⟨by simpa using hname, hints, v, _, hhints, hv, rfl, ?_, rfl⟩
        intro hnil
        rw [hnil] at hleft
        simp at hleft
      · exact .inl rfl
    · exact .inl rfl

theorem name_narrow (evidence : List Evidence) (e : Element) :
    (narrow evidence e).name = e.name := by
  obtain h | ⟨-, _, _, _, -, -, -, -, h⟩ := narrow_eq evidence e
  · rw [h]
  · rw [h, name_annotate]
    rfl

theorem children_narrow (evidence : List Evidence) (e : Element) :
    (narrow evidence e).children = e.children := by
  obtain h | ⟨-, _, _, _, -, -, -, -, h⟩ := narrow_eq evidence e
  · rw [h]
  · rw [h, children_annotate]
    rfl

/-- Members of a list with fewer kinds are improvements. -/
theorem narrow_improves (hf : f.IsUsual)
    (hone : ∀ name hints left arguments, left.Sublist hints → left ≠ [] →
      one (.builtin name hints arguments) (.builtin name left arguments))
    (h : e.Layered) (evidence : List Evidence) :
    Improves f read one e (narrow evidence e) := by
  obtain hsame | ⟨hname, hints, v, left, hhints, -, rfl, hne, hnarrow⟩ := narrow_eq evidence e
  · rw [hsame]
    exact .refl h
  · rw [hnarrow]
    obtain ⟨text, htext, hread⟩ := Option.bind_eq_some_iff.mp hhints
    set left := hints.filter fun hint => evidence.contains (v, hint)
    have hbefore : e.hints = .ok hints := by simp [Element.hints, htext, hread]
    have hafter : (e.setAttr "hints" (Hint.listText left)).hints = .ok left := by
      simp [Element.hints, Element.attr?, setAttr]
    have himproves : Improves f read one e (e.setAttr "hints" (Hint.listText left)) := by
      refine ⟨h.congr rfl rfl, ?_⟩
      rw [meaning_builtin hf hname hbefore,
        @meaning_builtin f read (e.setAttr "hints" (Hint.listText left)) hf hname left hafter,
        show (e.setAttr "hints" (Hint.listText left)).required "name" = e.required "name" by
          simp [Element.required, Element.attr?, setAttr]]
      exact .bind_same _ fun name => .bind_same _ fun os => .bind_same _ fun ts =>
        .clause (.replace (hone name hints left ts List.filter_sublist hne))
    exact himproves.annotate name

/-! ## Every clause of a list -/

/-- The kinds of every built-in predicate in a list are narrowed to an improvement. -/
theorem narrowBelow_improves (hf : f.IsUsual)
    (hone : ∀ name hints left arguments, left.Sublist hints → left ≠ [] →
      one (.builtin name hints arguments) (.builtin name left arguments))
    (h : e.Layered) (outer : List Evidence) : Improves f read one e (narrowBelow outer e) := by
  induction h generalizing outer with
  | flat h =>
      rw [h.unchanged (narrowBelow_of_not_list outer)]
      exact .refl (.flat h)
  | @list e hlist _ ih =>
      obtain ⟨name, attributes, text, children⟩ := e
      have hmembers : ∀ negated outer inner before (es : List Element), es ⊆ children →
          List.Forall₂ (Improves f read one) es (narrowMembers negated outer inner before es) := by
        intro negated outer inner before es hes
        induction es generalizing before with
        | nil => exact .nil
        | cons e es ihes =>
            obtain ⟨he, hes⟩ := List.cons_subset.mp hes
            have hbelow := ih e he inner
            exact .cons (hbelow.trans (narrow_improves hf hone hbelow.layered _)) (ihes _ hes)
      rw [narrowBelow]
      dsimp only
      split
      · exact .of_children hf hlist (hmembers _ _ _ _ _ (List.Subset.refl _))
      · rw [narrowEach_eq_map]
        exact .of_children hf hlist
          (List.forall₂_map_right_iff.mpr (List.forall₂_same.mpr fun e he => ih e he outer))

end TopicQuery.NarrowHints
