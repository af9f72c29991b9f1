import Mathlib.Data.List.Nodup
import TopicQuery.Proofs.Passes.Mentions

/-!
Places in a tree. A place is the way from the root to an element, the number of a child for
each step, so that two elements are told apart even if they are equal. A variable is counted
once in a tree exactly if it is mentioned at one place only.
-/

namespace TopicQuery

namespace Element

/-- The element at a place of a tree. -/
def at? : Element → List Nat → Option Element
  | e, [] => some e
  | e, n :: place => e.children[n]?.bind (at? · place)

variable {e c d : Element} {n : Nat} {place : List Nat}

theorem at?_cons (e : Element) (n : Nat) (place : List Nat) :
    e.at? (n :: place) = e.children[n]?.bind (at? · place) := rfl

theorem at?_of_child (hc : e.children[n]? = some c) : e.at? (n :: place) = c.at? place := by
  rw [at?_cons, hc, Option.bind_some]

theorem at?_append (e : Element) (front behind : List Nat) :
    e.at? (front ++ behind) = (e.at? front).bind (at? · behind) := by
  induction front generalizing e with
  | nil => rfl
  | cons n front ih =>
      rw [List.cons_append, at?_cons, at?_cons, Option.bind_assoc]
      exact Option.bind_congr fun c _ => ih c

/-- The child of an element at a place stands one step behind it. -/
theorem at?_concat (hd : e.at? place = some d) : e.at? (place ++ [n]) = d.children[n]? := by
  rw [at?_append, hd, Option.bind_some, at?_cons]
  cases d.children[n]? <;> rfl

/-- Behind the first step a place is one of a child. -/
theorem exists_child_of_at? (h : e.at? (n :: place) = some d) :
    ∃ c, e.children[n]? = some c ∧ c.at? place = some d := Option.bind_eq_some_iff.mp h

theorem at?_of_childless (h : e.children = []) (hd : e.at? place = some d) : place = [] := by
  cases place with
  | nil => rfl
  | cons n place =>
      obtain ⟨c, hc, -⟩ := exists_child_of_at? hd
      simp [h] at hc

/-- Places other than the root are those of the children. -/
theorem at?_congr (h : d.children = e.children) (hplace : place ≠ []) : d.at? place = e.at? place := by
  obtain ⟨n, place, rfl⟩ := List.exists_cons_of_ne_nil hplace
  rw [at?_cons, at?_cons, h]

/-- What holds of all of a tree holds at each of its places. -/
theorem Every.at? {p : Element → Prop} (h : e.Every p) (hd : e.at? place = some d) : d.Every p := by
  induction place generalizing e with
  | nil => exact Option.some.inj hd ▸ h
  | cons n place ih =>
      obtain ⟨c, hc, hcd⟩ := exists_child_of_at? hd
      exact ih ((every_iff.mp h).2 c (List.mem_of_getElem? hc)) hcd

end Element

/-! ## Places that mention a variable -/

namespace InternalPredicates

open Element

variable {e : Element} {v : String}

/-- Topic map content mentions each of its variables once. -/
theorem count_mentioned_le (e : Element) (v : String) : (mentioned e).count v ≤ 1 := by
  unfold mentioned
  split
  · cases e.attr? "value" with
    | none => exact Nat.zero_le 1
    | some value => exact List.nodup_iff_count_le_one.mp (List.nodup_singleton value) v
  · split
    · exact List.nodup_iff_count_le_one.mp (nodup_distinct _) v
    · exact Nat.zero_le 1

theorem mem_mentions_iff :
    v ∈ mentions e ↔ ∃ place d, e.at? place = some d ∧ v ∈ mentioned d := by
  induction e using induction_children with
  | step e ih =>
      rw [(mentions_perm e).mem_iff, List.mem_append, List.mem_flatMap]
      constructor
      · rintro (hhere | ⟨c, hc, hv⟩)
        · exact ⟨[], e, rfl, hhere⟩
        · obtain ⟨n, hn⟩ := List.mem_iff_getElem?.mp hc
          obtain ⟨place, d, hd, hv⟩ := (ih c hc).mp hv
          exact ⟨n :: place, d, (at?_of_child hn).trans hd, hv⟩
      · rintro ⟨_ | ⟨n, place⟩, d, hd, hv⟩
        · obtain rfl : e = d := Option.some.inj hd
          exact .inl hv
        · obtain ⟨c, hc, hcd⟩ := exists_child_of_at? hd
          have hchild := List.mem_of_getElem? hc
          exact .inr ⟨c, hchild, (ih c hchild).mpr ⟨place, d, hcd, hv⟩⟩

/-- A variable is counted once at most in two lists if it is in each, and is in one of them only. -/
theorem count_append_le_one_iff {xs ys : List String} : (xs ++ ys).count v ≤ 1 ↔
    xs.count v ≤ 1 ∧ ys.count v ≤ 1 ∧ (v ∈ xs → v ∉ ys) := by
  rw [List.count_append]
  by_cases hx : v ∈ xs
  · have hxs := List.count_pos_iff.mpr hx
    by_cases hy : v ∈ ys
    · have hys := List.count_pos_iff.mpr hy
      simp only [hx, hy, not_true_eq_false, imp_false, and_false, iff_false]
      omega
    · simp [List.count_eq_zero.mpr hy, hy]
  · simp [List.count_eq_zero.mpr hx, hx]

/-- In some trees a variable is mentioned once at most if in each of them and in no two of them. -/
theorem count_flatMap_le_iff {es : List Element} :
    (es.flatMap mentions).count v ≤ 1 ↔ (∀ e ∈ es, (mentions e).count v ≤ 1) ∧
      ∀ (i j : Nat) (a b : Element), es[i]? = some a → es[j]? = some b →
        v ∈ mentions a → v ∈ mentions b → i = j := by
  induction es with
  | nil => simp
  | cons e es ih =>
      rw [List.flatMap_cons, count_append_le_one_iff, ih, List.forall_mem_cons]
      constructor
      · rintro ⟨hfirst, ⟨hcounts, hplaces⟩, hapart⟩
        have hother : ∀ {j b}, es[j]? = some b → v ∈ mentions b → v ∈ es.flatMap mentions :=
          fun hb hv => List.mem_flatMap.mpr ⟨_, List.mem_of_getElem? hb, hv⟩
        refine ⟨⟨hfirst, hcounts⟩, fun i j a b ha hb hva hvb => ?_⟩
        cases i <;> cases j
        · rfl
        · obtain rfl : e = a := by simpa using ha
          exact absurd (hother (by simpa using hb) hvb) (hapart hva)
        · obtain rfl : e = b := by simpa using hb
          exact absurd (hother (by simpa using ha) hva) (hapart hvb)
        · exact congrArg _ (hplaces _ _ a b (by simpa using ha) (by simpa using hb) hva hvb)
      · rintro ⟨⟨hfirst, hcounts⟩, hplaces⟩
        refine ⟨hfirst, ⟨hcounts, fun i j a b ha hb hva hvb =>
          Nat.succ.inj (hplaces (i + 1) (j + 1) a b ha hb hva hvb)⟩, fun he hes => ?_⟩
        obtain ⟨b, hb, hvb⟩ := List.mem_flatMap.mp hes
        obtain ⟨j, hj⟩ := List.mem_iff_getElem?.mp hb
        exact absurd (hplaces 0 (j + 1) e b rfl hj he hvb) (by omega)

/-- What a place behind the first step mentions is mentioned in a child. -/
theorem exists_child_of_mentioned {n : Nat} {place : List Nat} {d : Element}
    (hd : e.at? (n :: place) = some d) (hv : v ∈ mentioned d) :
    ∃ c, e.children[n]? = some c ∧ c.at? place = some d ∧ v ∈ mentions c ∧
      v ∈ e.children.flatMap mentions := by
  obtain ⟨c, hc, hcd⟩ := exists_child_of_at? hd
  have hmentions : v ∈ mentions c := mem_mentions_iff.mpr ⟨place, d, hcd, hv⟩
  exact ⟨c, hc, hcd, hmentions, List.mem_flatMap.mpr ⟨c, List.mem_of_getElem? hc, hmentions⟩⟩

/-- A variable is counted once at most exactly if no two places mention it. -/
theorem count_mentions_le_iff : (mentions e).count v ≤ 1 ↔
    ∀ p q a b, e.at? p = some a → e.at? q = some b → v ∈ mentioned a → v ∈ mentioned b → p = q := by
  induction e using induction_children with
  | step e ih =>
      rw [(mentions_perm e).count_eq, count_append_le_one_iff, count_flatMap_le_iff,
        and_iff_right (count_mentioned_le e v)]
      constructor
      · rintro ⟨⟨hcounts, hplaces⟩, hapart⟩ p q a b ha hb hva hvb
        cases p with
        | nil =>
            obtain rfl : e = a := Option.some.inj ha
            cases q with
            | nil => rfl
            | cons n q =>
                obtain ⟨-, -, -, -, hbelow⟩ := exists_child_of_mentioned hb hvb
                exact absurd hbelow (hapart hva)
        | cons m p =>
            obtain ⟨c, hc, hca, hvc, hbelow⟩ := exists_child_of_mentioned ha hva
            cases q with
            | nil =>
                obtain rfl : e = b := Option.some.inj hb
                exact absurd hbelow (hapart hvb)
            | cons n q =>
                obtain ⟨d, hd, hdb, hvd, -⟩ := exists_child_of_mentioned hb hvb
                obtain rfl := hplaces m n c d hc hd hvc hvd
                obtain rfl : c = d := Option.some.inj (hc.symm.trans hd)
                have hchild := List.mem_of_getElem? hc
                exact congrArg _ ((ih c hchild).mp (hcounts c hchild) p q a b hca hdb hva hvb)
      · intro h
        refine ⟨⟨fun c hc => (ih c hc).mpr ?_, fun i j a b ha hb hva hvb => ?_⟩, fun hhere hmem => ?_⟩
        · obtain ⟨n, hn⟩ := List.mem_iff_getElem?.mp hc
          intro p q a b ha hb hva hvb
          exact (List.cons.inj (h (n :: p) (n :: q) a b ((at?_of_child hn).trans ha)
            ((at?_of_child hn).trans hb) hva hvb)).2
        · obtain ⟨p, a', ha', hva'⟩ := mem_mentions_iff.mp hva
          obtain ⟨q, b', hb', hvb'⟩ := mem_mentions_iff.mp hvb
          exact (List.cons.inj (h (i :: p) (j :: q) a' b' ((at?_of_child ha).trans ha')
            ((at?_of_child hb).trans hb') hva' hvb')).1
        · obtain ⟨c, hc, hv⟩ := List.mem_flatMap.mp hmem
          obtain ⟨n, hn⟩ := List.mem_iff_getElem?.mp hc
          obtain ⟨place, d, hd, hvd⟩ := mem_mentions_iff.mp hv
          exact absurd (h [] (n :: place) e d rfl ((at?_of_child hn).trans hd) hhere hvd) (by simp)

/-- A variable that a place mentions is counted once exactly if no other place mentions it. -/
theorem count_mentions_eq_one_iff {place : List Nat} {d : Element} (hd : e.at? place = some d)
    (hv : v ∈ mentioned d) : (mentions e).count v = 1 ↔
      ∀ other c, e.at? other = some c → v ∈ mentioned c → other = place := by
  have hpos : 0 < (mentions e).count v :=
    List.count_pos_iff.mpr (mem_mentions_iff.mpr ⟨place, d, hd, hv⟩)
  have hle : (mentions e).count v = 1 ↔ (mentions e).count v ≤ 1 := by omega
  rw [hle, count_mentions_le_iff]
  refine ⟨fun h other c hc hvc => h other place c d hc hd hvc hv, fun h p q a b ha hb hva hvb => ?_⟩
  rw [h p a ha hva, h q b hb hvb]

end InternalPredicates

end TopicQuery
