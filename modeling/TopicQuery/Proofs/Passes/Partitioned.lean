import TopicQuery.Proofs.Passes.Listwise

/-!
The exact effect of moving filters behind the other clauses. Every list, taken with its inner
lists already in order, is left as its stable partition. The pass looks at a list twice: it
gives up where nothing but filters stands behind the first filter, and only else divides the
list. Giving up is right since a list in order is its own partition.
-/

namespace TopicQuery

open Element

namespace FiltersLast

variable {clauses ordered : List Element}

/-- Nothing but filters stands behind a filter. -/
def InOrder (clauses : List Element) : Prop :=
  clauses.Pairwise fun a b => a.isFilter = true → b.isFilter = true

/-- Some clause that is no filter stands behind a filter. -/
def OutOfOrder (clauses : List Element) : Prop :=
  ∃ filter other, [filter, other].Sublist clauses ∧ filter.isFilter = true ∧ other.isFilter = false

/-- The clauses in another order: filters stand behind the other clauses, and filters as well as
the other clauses stand among themselves as they did. -/
structure StablePartition (clauses ordered : List Element) : Prop where
  perm : ordered.Perm clauses
  inOrder : InOrder ordered
  others : ordered.filter (!·.isFilter) = clauses.filter (!·.isFilter)
  filters : ordered.filter (·.isFilter) = clauses.filter (·.isFilter)

/-- The clauses that are no filters, then the filters. -/
def partitioned (clauses : List Element) : List Element :=
  clauses.filter (!·.isFilter) ++ clauses.filter (·.isFilter)

/-! ## One list -/

theorem inOrder_iff : InOrder clauses ↔ ¬OutOfOrder clauses := by
  rw [InOrder, List.pairwise_iff_forall_sublist]
  constructor
  · rintro h ⟨filter, other, hbehind, hfilter, hother⟩
    exact Bool.false_ne_true (hother.symm.trans (h hbehind hfilter))
  · intro h a b hbehind ha
    by_contra hb
    exact h ⟨a, b, hbehind, ha, Bool.eq_false_of_not_eq_true hb⟩

/-- A list in order is its own partition. -/
theorem partitioned_of_inOrder (h : InOrder clauses) : partitioned clauses = clauses := by
  induction clauses with
  | nil => rfl
  | cons c cs ih =>
      obtain ⟨hbehind, hcs⟩ := List.pairwise_cons.mp h
      cases hc : c.isFilter with
      | true =>
          have hfilters : ∀ d ∈ c :: cs, d.isFilter = true :=
            List.forall_mem_cons.mpr ⟨hc, fun d hd => hbehind d hd hc⟩
          have hothers : (c :: cs).filter (!·.isFilter) = [] :=
            List.filter_eq_nil_iff.mpr fun d hd => by simp [hfilters d hd]
          rw [partitioned, hothers, List.filter_eq_self.mpr hfilters, List.nil_append]
      | false =>
          have hfirst : partitioned (c :: cs) = c :: partitioned cs := by simp [partitioned, hc]
          rw [hfirst, ih hcs]

theorem stablePartition_partitioned (clauses : List Element) :
    StablePartition clauses (partitioned clauses) where
  perm := by
    have hnot : (fun c : Element => !(!c.isFilter)) = fun c => c.isFilter := by simp
    have hperm := List.filter_append_perm (!·.isFilter) clauses
    rwa [hnot] at hperm
  inOrder := by
    refine List.pairwise_append.mpr ⟨?_, ?_, fun _ _ b hb _ => (List.mem_filter.mp hb).2⟩
    · refine List.pairwise_of_forall_mem_list fun a ha b _ hfilter => ?_
      simp [hfilter] at ha
    · exact List.pairwise_of_forall_mem_list fun _ _ b hb _ => (List.mem_filter.mp hb).2
  others := by simp [partitioned, List.filter_filter]
  filters := by simp [partitioned, List.filter_filter]

/-- A list has one stable partition. -/
theorem stablePartition_iff : StablePartition clauses ordered ↔ ordered = partitioned clauses := by
  constructor
  · intro h
    rw [← partitioned_of_inOrder h.inOrder, partitioned, h.others, h.filters, partitioned]
  · rintro rfl
    exact stablePartition_partitioned clauses

/-- The test by which the pass leaves a list alone. -/
theorem all_dropWhile_iff :
    (clauses.dropWhile (!·.isFilter)).all (·.isFilter) = true ↔ InOrder clauses := by
  induction clauses with
  | nil => exact iff_of_true rfl .nil
  | cons c cs ih =>
      cases hc : c.isFilter with
      | true =>
          have hstop : (c :: cs).dropWhile (!·.isFilter) = c :: cs :=
            List.dropWhile_cons_of_neg (by simp [hc])
          rw [hstop, List.all_eq_true]
          constructor
          · exact fun h => List.pairwise_of_forall_mem_list fun _ _ b hb _ => h b hb
          · intro h
            exact List.forall_mem_cons.mpr ⟨hc, fun d hd => (List.pairwise_cons.mp h).1 d hd hc⟩
      | false =>
          have hpass : (c :: cs).dropWhile (!·.isFilter) = cs.dropWhile (!·.isFilter) :=
            List.dropWhile_cons_of_pos (by simp [hc])
          rw [hpass, ih]
          refine ⟨fun h => .cons (fun d _ hfilter => ?_) h, fun h => (List.pairwise_cons.mp h).2⟩
          exact absurd (hc.symm.trans hfilter) Bool.false_ne_true

/-- A list is changed where a clause stands behind a filter that is none. -/
theorem makes_partitioned : Makes reorder? partitioned OutOfOrder where
  some h := if_neg fun hall => inOrder_iff.mp (all_dropWhile_iff.mp hall) h
  none h := by
    have horder := inOrder_iff.mpr h
    exact ⟨if_pos (all_dropWhile_iff.mpr horder), partitioned_of_inOrder horder⟩

/-! ## Every list of a tree -/

theorem isFilter_apply (e : Element) : (apply e).isFilter = e.isFilter := by
  rw [isFilter, apply, name_changeLists, isFilter]

/-- The pass leaves every list in order, at any depth. It leaves of every list, with its inner
lists already in order, the one stable partition, whose members are filters exactly where they
were before; it marks those lists where some other clause stood behind a filter, and nothing
else is changed. -/
theorem apply_partitions (tree : Element) :
    (apply tree).Every (fun e => e.isClauseList = true → InOrder e.children) ∧
      (∀ clauses ordered, StablePartition clauses ordered ↔ ordered = partitioned clauses) ∧
      (∀ e, (apply e).isFilter = e.isFilter) ∧
      ∀ after, Listwise name partitioned OutOfOrder tree after ↔ after = apply tree := by
  have happly : Listwise name partitioned OutOfOrder tree (apply tree) :=
    makes_partitioned.listwise_iff.mpr rfl
  refine ⟨happly.every (fun clauses => ?_) (fun clauses => ?_),
    fun _ _ => stablePartition_iff, isFilter_apply, fun after => makes_partitioned.listwise_iff⟩
  · exact (stablePartition_partitioned clauses).inOrder
  · exact (stablePartition_partitioned clauses).perm.subset

-- a negation behind a call stays there, and only the list inside it is put in order and marked
example :
    let call : Element := ⟨"builtin-predicate", [("name", "instance-of")], none, []⟩
    let comparison : Element := ⟨"infix-predicate", [("operator", "ne")], none, []⟩
    apply ⟨"where", [], none, [call, ⟨"not", [], none, [comparison, call]⟩, comparison]⟩ =
      ⟨"where", [], none,
        [call, ⟨"not", [("optimized-by", "filters-last")], none, [call, comparison]⟩,
          comparison]⟩ := by
  decide +kernel

end FiltersLast

end TopicQuery
