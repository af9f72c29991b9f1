/-!
First occurrences: a list without its later repetitions.
-/

namespace TopicQuery

/-- The members of a list that are not among those seen and not repeated, in order. -/
def distinctFrom {α : Type} [DecidableEq α] (seen : List α) : List α → List α
  | [] => []
  | x :: xs =>
    if x ∈ seen then distinctFrom seen xs else x :: distinctFrom (x :: seen) xs

/-- Each member of a list once, in the order of first occurrence. -/
def distinct {α : Type} [DecidableEq α] (xs : List α) : List α := distinctFrom [] xs

theorem mem_distinctFrom {α : Type} [DecidableEq α] {x : α} {seen xs : List α} :
    x ∈ distinctFrom seen xs ↔ x ∈ xs ∧ x ∉ seen := by
  induction xs generalizing seen with
  | nil => simp [distinctFrom]
  | cons y ys ih =>
      by_cases hy : y ∈ seen
      · simp only [distinctFrom, hy, if_true, ih, List.mem_cons]
        constructor
        · exact fun h => ⟨.inr h.1, h.2⟩
        · rintro ⟨rfl | h, hx⟩
          · exact absurd hy hx
          · exact ⟨h, hx⟩
      · simp only [distinctFrom, hy, if_false, List.mem_cons, ih]
        constructor
        · rintro (rfl | ⟨h, hx⟩)
          · exact ⟨.inl rfl, hy⟩
          · exact ⟨.inr h, fun hs => hx (.inr hs)⟩
        · rintro ⟨rfl | h, hx⟩
          · exact .inl rfl
          · by_cases hxy : x = y
            · exact .inl hxy
            · exact .inr ⟨h, by simp [hxy, hx]⟩

@[simp] theorem mem_distinct {α : Type} [DecidableEq α] {x : α} {xs : List α} :
    x ∈ distinct xs ↔ x ∈ xs := by
  simp [distinct, mem_distinctFrom]

theorem nodup_distinctFrom {α : Type} [DecidableEq α] (seen xs : List α) :
    (distinctFrom seen xs).Nodup := by
  induction xs generalizing seen with
  | nil => simp [distinctFrom]
  | cons y ys ih =>
      by_cases hy : y ∈ seen
      · simpa [distinctFrom, hy] using ih seen
      · simp only [distinctFrom, hy, if_false, List.nodup_cons]
        exact ⟨by simp [mem_distinctFrom], ih (y :: seen)⟩

theorem nodup_distinct {α : Type} [DecidableEq α] (xs : List α) : (distinct xs).Nodup :=
  nodup_distinctFrom [] xs

end TopicQuery
