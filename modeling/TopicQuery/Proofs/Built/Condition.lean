import TopicQuery.Proofs.Built.Clause

/-!
Conditions of a text are built into what their outlines are translated into. A
statement finds its condition by filtering its operands, which works because what
stands in front of a condition, and the condition with its order and extent, are
operands of different kinds.
-/

namespace TopicQuery

open Outline

/-! ## Operands in front of a condition -/

/-- The operand stands in front of a condition: it is no condition, no order and no extent. -/
def Operand.isFront : Operand → Bool
  | condition _ => false
  | orderBy _ => false
  | pagination _ _ => false
  | _ => true

namespace Operands

variable {α : Type} {front xs : List Operand}

theorem filterMap_front (select : Operand → Option α)
    (hselect : ∀ x, x.isFront = true → select x = none) (h : ∀ x ∈ front, x.isFront = true) :
    (front ++ xs).filterMap select = xs.filterMap select := by
  have hnone : front.filterMap select = [] :=
    List.filterMap_eq_nil_iff.mpr fun x hx => hselect x (h x hx)
  rw [List.filterMap_append, hnone, List.nil_append]

theorem filterMap_behind (select : Operand → Option α)
    (hselect : ∀ x, x.isFront = false → select x = none) (h : ∀ x ∈ xs, x.isFront = false) :
    (front ++ xs).filterMap select = front.filterMap select := by
  have hnone : xs.filterMap select = [] :=
    List.filterMap_eq_nil_iff.mpr fun x hx => hselect x (h x hx)
  rw [List.filterMap_append, hnone, List.append_nil]

theorem condition_front (h : ∀ x ∈ front, x.isFront = true) :
    condition (front ++ xs) = condition xs := by
  rw [condition, last?, filterMap_front _ (fun x hx => ?_) h]
  · rfl
  · cases x <;> first | rfl | cases hx

theorem modifiers_front (h : ∀ x ∈ front, x.isFront = true) :
    modifiers (front ++ xs) = modifiers xs := by
  rw [modifiers, last?, last?, filterMap_front Operand.pagination? (fun x hx => ?_) h,
    filterMap_front Operand.orderBy? (fun x hx => ?_) h]
  · rfl
  · cases x <;> first | rfl | cases hx
  · cases x <;> first | rfl | cases hx

theorem terms_behind (h : ∀ x ∈ xs, x.isFront = false) : terms (front ++ xs) = terms front := by
  rw [terms, filterMap_behind _ (fun x hx => ?_) h]
  · rfl
  · cases x <;> first | rfl | cases hx

theorem clauses_behind (h : ∀ x ∈ xs, x.isFront = false) :
    clauses (front ++ xs) = clauses front := by
  rw [clauses, filterMap_behind _ (fun x hx => ?_) h]
  · rfl
  · cases x <;> first | rfl | cases hx

/-- Every operand in front adds one result, and what is behind adds none. -/
theorem collect {g : Operand → Except Failure (List α)} {as : List α}
    (hfront : List.Forall₂ (fun x a => g x = .ok [a]) front as) (hxs : ∀ x ∈ xs, g x = .ok []) :
    ((front ++ xs).mapM g >>= fun found => .ok found.flatten) = .ok as := by
  have hall : (front ++ xs).mapM g = .ok (as.map (fun a => [a]) ++ xs.map fun _ => []) := by
    refine mapM_eq_ok_iff.mpr (List.rel_append ?_ ?_)
    · exact List.forall₂_map_right_iff.mpr hfront
    · exact List.forall₂_map_right_iff.mpr (List.forall₂_same.mpr hxs)
  rw [hall, ok_bind]
  simp [← List.flatMap_def]

end Operands

namespace Phrase

variable {f : Factory} {b : Builder} {flaw : Leaf → Failure → Prop} {c : Scope} {ts : List Token}

theorem builds_sure {item : Leaf} {x : Operand} (h : Explains f b flaw c ts) (hitem : item.IsSure)
    (hread : b.operand f item = .ok x) :
    Builds f (b.operand f) flaw (fun y => y = x) (.leaf item) := by
  refine builds_leaf (h item (.inl hitem)) fun y hy => ?_
  rw [hread] at hy
  exact (Except.ok.inj hy).symm

/-! ## Order and extent -/

theorem builds_order {keys : List SortKey} (h : Explains f b flaw c ts) :
    Builds f (b.operand f) flaw
      (fun x => ∃ orderings, x = .orderBy orderings ∧
        (Category.sortKey.list.outlines c keys).mapM ordering? = some orderings)
      (.within .ordering (Category.sortKey.list.outlines c keys)) := by
  have hinner : BuildsAll f (b.operand f) flaw
      (fun xs => ∃ orderings, xs = orderings.map .ordering ∧
        List.Forall₂ (fun o ordering => ordering? o = some ordering)
          (Category.sortKey.list.outlines c keys) orderings)
      (Category.sortKey.list.outlines c keys) := by
    refine (buildsAll_forall fun o ho => ?_).imp fun xs hxs => exists_of_holds hxs
    obtain ⟨k, -, ho⟩ := List.mem_flatMap.mp ho
    obtain rfl := List.mem_singleton.mp ho
    refine Outcome.imp (builds_sure h trivial rfl) ?_
    rintro x rfl
    exact ⟨_, rfl, rfl⟩
  refine builds_within hinner ?_
  rintro xs ⟨orderings, rfl, hall⟩
  refine ⟨_, ?_, orderings, rfl, mapM_of_forall₂ hall⟩
  rw [Operands.complete, filterMap_inject Operand.ordering? fun _ => rfl]

theorem buildsAll_bound {item : UInt64 → Leaf} {inject : UInt64 → Operand} (bound : Option Bound)
    (h : Explains f b flaw c ts) (hitem : ∀ n, (item n).IsSure)
    (hread : ∀ n, b.operand f (item n) = .ok (inject n)) :
    BuildsAll f (b.operand f) flaw (fun xs => xs = (bound.map fun n => inject n.number).toList)
      (Bound.outlines item bound) := by
  cases bound with
  | none => exact buildsAll_nil rfl
  | some n =>
      refine buildsAll_singleton (builds_sure h (hitem n.number) (hread n.number)) ?_
      rintro x rfl
      rfl

theorem builds_extent {limit offset : Option Bound} (h : Explains f b flaw c ts)
    (hsome : limit ≠ none ∨ offset ≠ none) :
    Builds f (b.operand f) flaw
      (fun x => ∃ l o, x = .pagination l o ∧
        extent? (Bound.outlines .limit limit ++ Bound.outlines .offset offset) = some (l, o))
      (.within .pagination (Bound.outlines .limit limit ++ Bound.outlines .offset offset)) := by
  have hlimit : BuildsAll f (b.operand f) flaw
      (fun xs => xs = (limit.map fun n => Operand.limit n.number).toList)
      (Bound.outlines .limit limit) :=
    buildsAll_bound limit h (fun _ => trivial) fun _ => rfl
  have hoffset : BuildsAll f (b.operand f) flaw
      (fun xs => xs = (offset.map fun n => Operand.offset n.number).toList)
      (Bound.outlines .offset offset) :=
    buildsAll_bound offset h (fun _ => trivial) fun _ => rfl
  have hinner : BuildsAll f (b.operand f) flaw
      (fun xs => xs = (limit.map fun n => Operand.limit n.number).toList ++
        (offset.map fun n => Operand.offset n.number).toList)
      (Bound.outlines .limit limit ++ Bound.outlines .offset offset) := by
    refine buildsAll_append hlimit hoffset ?_
    rintro xs ys rfl rfl
    rfl
  refine builds_within hinner ?_
  rintro xs rfl
  refine ⟨.pagination (limit.map Bound.number) (offset.map Bound.number), ?_, _, _, rfl, ?_⟩
  · cases limit <;> cases offset <;> rfl
  · cases limit <;> cases offset
    · simp at hsome
    all_goals rfl

/-- The operands of order and extent, each of which may be missing. -/
def tailOperands (order : Option (List Ordering))
    (extent : Option (Option UInt64 × Option UInt64)) : List Operand :=
  (order.map Operand.orderBy).toList ++ (extent.map fun e => .pagination e.1 e.2).toList

/-- Order and extent as they are taken over, where what is missing is empty. -/
def tailModifiers (order : Option (List Ordering))
    (extent : Option (Option UInt64 × Option UInt64)) : Modifiers :=
  ⟨order.getD [], (extent.getD (none, none)).1, (extent.getD (none, none)).2⟩

/-- The outlines are a sort order, or nothing if there is none. -/
def IsOrder (os : List Outline) (order : Option (List Ordering)) : Prop :=
  (os = [] ∧ order = none) ∨
    ∃ keys orderings, os = [.within .ordering keys] ∧ order = some orderings ∧
      keys.mapM ordering? = some orderings

/-- The outlines are an extent, or nothing if there is none. -/
def IsExtent (os : List Outline) (extent : Option (Option UInt64 × Option UInt64)) : Prop :=
  (os = [] ∧ extent = none) ∨
    ∃ bounds e, os = [.within .pagination bounds] ∧ extent = some e ∧ extent? bounds = some e

theorem modifiers?_tail {os ps : List Outline} {order : Option (List Ordering)}
    {extent : Option (Option UInt64 × Option UInt64)} (horder : IsOrder os order)
    (hextent : IsExtent ps extent) :
    modifiers? (os ++ ps) = some (tailModifiers order extent) := by
  obtain ⟨rfl, rfl⟩ | ⟨keys, orderings, rfl, rfl, hkeys⟩ := horder
  · obtain ⟨rfl, rfl⟩ | ⟨bounds, e, rfl, rfl, hbounds⟩ := hextent
    · rfl
    · simp [modifiers?, hbounds, tailModifiers]
  · obtain ⟨rfl, rfl⟩ | ⟨bounds, e, rfl, rfl, hbounds⟩ := hextent
    · simp [modifiers?, hkeys, tailModifiers]
    · simp [modifiers?, hkeys, hbounds, tailModifiers]

theorem buildsAll_order (order : List SortKey) (h : Explains f b flaw c ts) :
    BuildsAll f (b.operand f) flaw
      (fun xs => ∃ o, xs = (o.map Operand.orderBy).toList ∧ IsOrder (Tail.orderOutlines c order) o)
      (Tail.orderOutlines c order) := by
  cases order with
  | nil => exact buildsAll_nil ⟨none, rfl, .inl ⟨rfl, rfl⟩⟩
  | cons k ks =>
      refine buildsAll_singleton (builds_order h) ?_
      rintro x ⟨orderings, rfl, hkeys⟩
      exact ⟨some orderings, rfl, .inr ⟨_, orderings, rfl, rfl, hkeys⟩⟩

theorem buildsAll_extent (limit offset : Option Bound) (h : Explains f b flaw c ts) :
    BuildsAll f (b.operand f) flaw
      (fun xs => ∃ e, xs = (e.map fun e => Operand.pagination e.1 e.2).toList ∧
        IsExtent (Tail.extentOutlines limit offset) e)
      (Tail.extentOutlines limit offset) := by
  by_cases hsome : limit ≠ none ∨ offset ≠ none
  · have houtlines : Tail.extentOutlines limit offset =
        [.within .pagination (Bound.outlines .limit limit ++ Bound.outlines .offset offset)] := by
      cases limit <;> cases offset
      · simp at hsome
      all_goals rfl
    rw [houtlines]
    refine buildsAll_singleton (builds_extent h hsome) ?_
    rintro x ⟨l, o, rfl, hbounds⟩
    exact ⟨some (l, o), rfl, .inr ⟨_, (l, o), rfl, rfl, hbounds⟩⟩
  · obtain ⟨rfl, rfl⟩ : limit = none ∧ offset = none := by simpa [not_or] using hsome
    exact buildsAll_nil ⟨none, rfl, .inl ⟨rfl, rfl⟩⟩

/-! ## Conditions -/

/-- The operands are those of a condition, or there are none if there is no condition. -/
structure IsCondition (f : Factory) (b : Builder) (os : List Outline) (xs : List Operand) :
    Prop where
  translated : condition? (b.term? f) os = some (Operands.condition xs, Operands.modifiers xs)
  behind : ∀ x ∈ xs, x.isFront = false

theorem isCondition_none : IsCondition f b [] [] := ⟨rfl, by simp⟩

/-- The filters of a statement find a condition with its order and extent. -/
theorem operands_condition (clauses : List TopicQuery.Clause) (order : Option (List Ordering))
    (extent : Option (Option UInt64 × Option UInt64)) :
    Operands.condition (.condition clauses :: tailOperands order extent) = clauses ∧
      Operands.modifiers (.condition clauses :: tailOperands order extent) =
        tailModifiers order extent ∧
      ∀ x ∈ Operand.condition clauses :: tailOperands order extent, x.isFront = false := by
  cases order <;> cases extent <;> simp [tailOperands, Operand.isFront] <;> exact ⟨rfl, rfl⟩

theorem Clauses.outlines_ne_nil (xs : Clauses) : xs.outlines c ≠ [] := by
  cases xs <;> simp [Clauses.outlines]

theorem buildsAll_condition (hf : f.IsUsual) {x : Condition}
    (h : Explains f b flaw c (Category.condition.tokens x))
    (hrefers : Category.condition.Refers c x) :
    BuildsAll f (b.operand f) flaw
      (fun xs => IsCondition f b (Category.condition.outlines c x) xs ∧
        Operands.condition xs ≠ [])
      (Category.condition.outlines c x) := by
  have htokens : x.clauses.tokens ⊆ Category.condition.tokens x := List.subset_append_left _ _
  have hclauses := buildsAll_clauses hf x.clauses (h.of_subset htokens) hrefers.1
  have hcondition : Builds f (b.operand f) flaw
      (fun y => ∃ clauses, y = .condition clauses ∧
        List.Forall₂ (IsClause f b) (x.clauses.outlines c) clauses)
      (.within .condition (x.clauses.outlines c)) := by
    refine builds_list (fun clauses => ?_) hclauses
    rw [Operands.complete, Operands.clauses_clauses]
  have htail : BuildsAll f (b.operand f) flaw
      (fun xs => ∃ order extent, xs = tailOperands order extent ∧
        modifiers? (x.tail.outlines c) = some (tailModifiers order extent))
      (x.tail.outlines c) := by
    refine buildsAll_append (buildsAll_order x.tail.order h) (buildsAll_extent _ _ h) ?_
    rintro xs ys ⟨order, rfl, horder⟩ ⟨extent, rfl, hextent⟩
    exact ⟨order, extent, rfl, modifiers?_tail horder hextent⟩
  refine buildsAll_cons hcondition htail ?_
  rintro y ys ⟨clauses, rfl, hall⟩ ⟨order, extent, rfl, hmodifiers⟩
  obtain ⟨hfound, hmodifiersFound, hbehind⟩ := operands_condition clauses order extent
  refine ⟨⟨?_, hbehind⟩, ?_⟩
  · have houtlines : Category.condition.outlines c x =
        .within .condition (x.clauses.outlines c) :: x.tail.outlines c := rfl
    rw [houtlines, condition?, clauses?_forall₂ hall, hmodifiers, hfound, hmodifiersFound]
    rfl
  · rw [hfound]
    rintro rfl
    exact x.clauses.outlines_ne_nil (List.forall₂_nil_right_iff.mp hall)

end Phrase

end TopicQuery
