import TopicQuery.Proofs.Passes.Listwise

/-!
The exact effect of leaving out repeated clauses. Of every list, taken with its inner lists
already without repetitions, those members are left that have no member in front of them
that is the same. Going through the list the pass only looks at the members it has kept;
that is enough since being the same carries over from one element to the next.
-/

namespace TopicQuery

open Element

namespace Element

theorem sameAs_trans {a b c : Element} (hab : a.sameAs b = true) (hbc : b.sameAs c = true) :
    a.sameAs c = true :=
  (agree_iff _ _ _).mpr (((agree_iff _ _ _).mp hab).trans ((agree_iff _ _ _).mp hbc))

end Element

namespace RemoveDuplicates

/-- The members of a list that are the same as none in front of them. -/
def firstMembers (clauses : List Element) : List Element :=
  (clauses.zipIdx.filter fun p => (clauses.take p.2).all (!·.sameAs p.1)).map Prod.fst

/-- A member of the list is not among the first ones. -/
def Repeats (clauses : List Element) : Prop := (firstMembers clauses).length < clauses.length

/-- No member of the list is the same as one behind it. -/
def Unrepeated (clauses : List Element) : Prop := clauses.Pairwise fun a b => a.sameAs b = false

/-! ## One list -/

/-- Behind `front`, where a member is the same as one that is kept exactly if it is the same as
one of them all, the first members are kept. -/
theorem firsts_behind (front kept rest : List Element)
    (hkept : ∀ clause, kept.any (·.sameAs clause) = front.any (·.sameAs clause)) :
    firsts kept rest = ((rest.zipIdx front.length).filter fun p =>
      ((front ++ rest).take p.2).all (!·.sameAs p.1)).map Prod.fst := by
  induction rest generalizing front kept with
  | nil => rfl
  | cons clause rest ih =>
      have hfirst : ((front ++ clause :: rest).take front.length).all (!·.sameAs clause) =
          !kept.any (·.sameAs clause) := by
        rw [List.take_left, hkept, List.not_any_eq_all_not]
      have hbehind : front ++ clause :: rest = front ++ [clause] ++ rest := by simp
      have hlength : front.length + 1 = (front ++ [clause]).length := by simp
      rw [firsts, List.zipIdx_cons, List.filter_cons, hfirst, hbehind, hlength]
      cases hany : kept.any (·.sameAs clause) with
      | true =>
          obtain ⟨c, hc, hsame⟩ := List.any_eq_true.mp hany
          refine ih (front ++ [clause]) kept fun other => ?_
          -- what is the same as the clause that is left out is the same as the kept one before it
          have hcovered : clause.sameAs other = true → kept.any (·.sameAs other) = true :=
            fun h => List.any_eq_true.mpr ⟨c, hc, sameAs_trans hsame h⟩
          rw [List.any_append, ← hkept, List.any_cons, List.any_nil, Bool.or_false]
          cases hother : clause.sameAs other with
          | true => rw [hcovered hother, Bool.or_true]
          | false => rw [Bool.or_false]
      | false =>
          refine congrArg (clause :: ·) (ih (front ++ [clause]) (clause :: kept) fun other => ?_)
          rw [List.any_append, ← hkept, List.any_cons, List.any_cons, List.any_nil, Bool.or_false,
            Bool.or_comm]

theorem firsts_eq_firstMembers (clauses : List Element) :
    firsts [] clauses = firstMembers clauses :=
  firsts_behind [] [] clauses fun _ => rfl

theorem firstMembers_sublist (clauses : List Element) : (firstMembers clauses).Sublist clauses :=
  firsts_eq_firstMembers clauses ▸ firsts_sublist [] clauses

theorem not_same_of_mem_firsts {kept clauses : List Element} {clause : Element}
    (h : clause ∈ firsts kept clauses) : ∀ c ∈ kept, c.sameAs clause = false := by
  induction clauses generalizing kept with
  | nil => cases h
  | cons first clauses ih =>
      rw [firsts] at h
      split at h
      · exact ih h
      · next hany =>
        obtain rfl | h := List.mem_cons.mp h
        · simpa using hany
        · exact fun c hc => ih h c (List.mem_cons_of_mem _ hc)

theorem unrepeated_firsts (kept clauses : List Element) : Unrepeated (firsts kept clauses) := by
  induction clauses generalizing kept with
  | nil => exact .nil
  | cons clause clauses ih =>
      rw [firsts]
      split
      · exact ih kept
      · refine .cons (fun c hc => ?_) (ih _)
        exact not_same_of_mem_firsts hc clause List.mem_cons_self

/-- A list is changed where a member of it is left out. -/
theorem makes_firstMembers : Makes shorten? firstMembers Repeats where
  some {clauses} h := by
    rw [Repeats, ← firsts_eq_firstMembers] at h
    rw [← firsts_eq_firstMembers]
    exact if_neg h.ne
  none {clauses} h := by
    rw [Repeats, ← firsts_eq_firstMembers] at h
    rw [← firsts_eq_firstMembers]
    have hlength : (firsts [] clauses).length = clauses.length :=
      Nat.le_antisymm (firsts_sublist [] clauses).length_le (Nat.not_lt.mp h)
    exact ⟨if_pos hlength, (firsts_sublist [] clauses).eq_of_length hlength⟩

/-! ## Every list of a tree -/

/-- The pass leaves no two members of a list that are the same, at any depth. Of every list, with
its inner lists already without repetitions, it leaves the members that are the same as none in
front of them, and marks those lists of which a member was left out; nothing else is changed. -/
theorem apply_keeps_firstMembers (tree : Element) :
    (apply tree).Every (fun e => e.isClauseList = true → Unrepeated e.children) ∧
      ∀ after, Listwise name firstMembers Repeats tree after ↔ after = apply tree := by
  have happly : Listwise name firstMembers Repeats tree (apply tree) :=
    makes_firstMembers.listwise_iff.mpr rfl
  refine ⟨happly.every (fun clauses => ?_) (fun clauses => (firstMembers_sublist clauses).subset),
    fun after => makes_firstMembers.listwise_iff⟩
  rw [← firsts_eq_firstMembers]
  exact unrepeated_firsts [] clauses

-- two negations that are the same once the first has lost its repetition, and the mark with it
example :
    let clause : Element := ⟨"builtin-predicate", [("name", "instance-of")], none, []⟩
    let marked := [("optimized-by", "remove-duplicates")]
    apply ⟨"where", [], none, [⟨"not", [], none, [clause, clause]⟩, ⟨"not", [], none, [clause]⟩]⟩ =
      ⟨"where", marked, none, [⟨"not", marked, none, [clause]⟩]⟩ := by
  decide +kernel

end RemoveDuplicates

end TopicQuery
