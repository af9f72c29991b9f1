import Mathlib.Data.List.Shortlex
import TopicQuery.Proofs.Passes.Place

/-!
Visits level by level. What waits is always the rest of one level and, behind it, the children
of what was visited of that level; so a whole level is visited before the next one, and its
elements leave their children in the order they stand in. The visit is told by places, since
equal elements at different places are visited each.
-/

namespace TopicQuery.Element

/-! ## Levels -/

/-- The elements at a depth below an element, from left to right. -/
def level : Nat → Element → List Element
  | 0, e => [e]
  | depth + 1, e => e.children.flatMap (level depth)

/-- Waiting elements are visited before all others, in order; their children wait behind what
waits already. -/
theorem visit_append (front behind : List Element) :
    visit (front ++ behind) = front ++ visit (behind ++ front.flatMap children) := by
  induction front generalizing behind with
  | nil => simp
  | cons e front ih =>
      rw [List.cons_append, visit, List.append_assoc, ih, List.flatMap_cons, List.append_assoc,
        List.cons_append]

theorem size_eq (e : Element) : e.size = 1 + sizeAll e.children := by
  obtain ⟨name, attributes, text, children⟩ := e
  rfl

theorem sizeAll_children (es : List Element) :
    sizeAll es = es.length + sizeAll (es.flatMap children) := by
  induction es with
  | nil => rfl
  | cons e es ih =>
      rw [List.flatMap_cons, sizeAll_append, sizeAll, size_eq, ih, List.length_cons]
      omega

/-- Elements are visited level by level, and below some depth there are none. -/
theorem visit_eq_levels (es : List Element) : ∃ height,
    visit es = (List.range height).flatMap (fun depth => es.flatMap (level depth)) ∧
      ∀ depth, height ≤ depth → es.flatMap (level depth) = [] := by
  induction hn : sizeAll es using Nat.strong_induction_on generalizing es with
  | _ n ih =>
  cases es with
  | nil => exact ⟨0, by simp [visit], fun _ _ => rfl⟩
  | cons e rest =>
      have hbelow : ∀ depth, ((e :: rest).flatMap children).flatMap (level depth) =
          (e :: rest).flatMap (level (depth + 1)) := fun depth => List.flatMap_assoc
      have hsize : sizeAll ((e :: rest).flatMap children) < n := by
        have := sizeAll_children (e :: rest)
        rw [hn, List.length_cons] at this
        omega
      obtain ⟨height, hvisit, hempty⟩ := ih _ hsize _ rfl
      refine ⟨height + 1, ?_, fun depth hdepth => ?_⟩
      · have hfirst : (e :: rest).flatMap (level 0) = e :: rest := List.flatMap_singleton' _
        have hlevels := visit_append (e :: rest) []
        rw [List.append_nil, List.nil_append, hvisit, funext hbelow] at hlevels
        rw [hlevels, List.range_succ_eq_map, List.flatMap_cons, List.flatMap_map, hfirst]
      · obtain ⟨depth, rfl⟩ := Nat.exists_eq_add_of_le' (Nat.le_trans (Nat.le_add_left 1 height) hdepth)
        rw [← hbelow]
        exact hempty depth (Nat.le_of_add_le_add_right hdepth)

theorem length_visit (waiting : List Element) : (visit waiting).length = sizeAll waiting := by
  induction waiting using visit.induct with
  | case1 => simp [visit, sizeAll]
  | case2 e waiting ih =>
      rw [visit, List.length_cons, ih, sizeAll_append, sizeAll, size_eq]
      omega

/-! ## Places of a level -/

/-- The places at a depth below an element, from left to right. -/
def placesAt : Nat → Element → List (List Nat)
  | 0, _ => [[]]
  | depth + 1, e => e.children.zipIdx.flatMap fun (c, n) => (placesAt depth c).map (n :: ·)

theorem mem_placesAt_iff {depth : Nat} {e : Element} {place : List Nat} :
    place ∈ placesAt depth e ↔ place.length = depth ∧ (e.at? place).isSome = true := by
  induction depth generalizing e place with
  | zero =>
      rw [placesAt, List.mem_singleton, List.length_eq_zero_iff]
      exact ⟨fun h => ⟨h, h ▸ rfl⟩, And.left⟩
  | succ depth ih =>
      simp only [placesAt, List.mem_flatMap, List.mem_map]
      constructor
      · rintro ⟨⟨c, n⟩, hc, place, hplace, rfl⟩
        obtain ⟨hlength, hsome⟩ := ih.mp hplace
        have hchild : e.children[n]? = some c := List.mem_zipIdx_iff_getElem?.mp hc
        exact ⟨congrArg (· + 1) hlength, by rwa [at?_of_child hchild]⟩
      · rintro ⟨hlength, hsome⟩
        obtain ⟨n, place, rfl⟩ := List.exists_cons_of_length_eq_add_one hlength
        obtain ⟨d, hd⟩ := Option.isSome_iff_exists.mp hsome
        obtain ⟨c, hc, hcd⟩ := exists_child_of_at? hd
        have hplace : place ∈ placesAt depth c :=
          ih.mpr ⟨Nat.succ.inj hlength, Option.isSome_iff_exists.mpr ⟨d, hcd⟩⟩
        exact ⟨(c, n), List.mem_zipIdx_iff_getElem?.mpr hc, place, hplace, rfl⟩

/-- At the places of a level stand its elements. -/
theorem map_at?_placesAt (depth : Nat) (e : Element) :
    (placesAt depth e).map e.at? = (level depth e).map some := by
  induction depth generalizing e with
  | zero => rfl
  | succ depth ih =>
      have hchild : ∀ p ∈ e.children.zipIdx,
          ((placesAt depth p.1).map (p.2 :: ·)).map e.at? = (level depth p.1).map some := by
        rintro ⟨c, n⟩ hc
        rw [← ih c, List.map_map]
        refine List.map_congr_left fun place _ => ?_
        exact at?_of_child (List.mem_zipIdx_iff_getElem?.mp hc)
      calc (placesAt (depth + 1) e).map e.at?
          = e.children.zipIdx.flatMap fun p => ((placesAt depth p.1).map (p.2 :: ·)).map e.at? :=
            List.map_flatMap
        _ = e.children.zipIdx.flatMap fun p => (level depth p.1).map some :=
            List.flatMap_congr hchild
        _ = (e.children.zipIdx.map Prod.fst).flatMap fun c => (level depth c).map some :=
            (List.flatMap_map Prod.fst (fun c => (level depth c).map some) _).symm
        _ = (level (depth + 1) e).map some := by
            rw [List.zipIdx_map_fst, level, List.map_flatMap]

/-- Of two places of a level the one further left comes first. -/
theorem pairwise_placesAt (depth : Nat) (e : Element) :
    (placesAt depth e).Pairwise (List.Lex (· < ·)) := by
  induction depth generalizing e with
  | zero => exact List.pairwise_singleton _ _
  | succ depth ih =>
      refine List.pairwise_flatMap.mpr ⟨fun p _ => ?_, ?_⟩
      · exact List.pairwise_map.mpr ((ih p.1).imp .cons)
      · have hnumbers : (e.children.zipIdx.map Prod.snd).Pairwise (· < ·) := by
          rw [List.zipIdx_map_snd]
          exact List.pairwise_lt_range'
        refine (List.pairwise_map.mp hnumbers).imp fun {p q} hlt place hplace other hother => ?_
        obtain ⟨_, _, rfl⟩ := List.mem_map.mp hplace
        obtain ⟨_, _, rfl⟩ := List.mem_map.mp hother
        exact .rel hlt

/-! ## The visit of a tree -/

/-- The visit of a tree takes as many steps as the tree has elements. It goes through all places
of the tree, the root among them, and through each of them once: of two places the one nearer
to the root comes first, and of two at one depth the one further left. -/
theorem descendants_placed (e : Element) :
    e.descendants.length = e.size ∧ ∃ places : List (List Nat),
      e.descendants.map some = places.map e.at? ∧
        (∀ place, place ∈ places ↔ (e.at? place).isSome = true) ∧
        places.Pairwise (List.Shortlex (· < ·)) := by
  refine ⟨by rw [descendants, length_visit, sizeAll, sizeAll, Nat.add_zero], ?_⟩
  obtain ⟨height, hvisit, hempty⟩ := visit_eq_levels [e]
  simp only [List.flatMap_singleton] at hvisit hempty
  refine ⟨(List.range height).flatMap (placesAt · e), ?_, fun place => ?_, ?_⟩
  · rw [descendants, hvisit, List.map_flatMap, List.map_flatMap]
    simp only [map_at?_placesAt]
  · rw [List.mem_flatMap]
    constructor
    · rintro ⟨depth, -, hplace⟩
      exact (mem_placesAt_iff.mp hplace).2
    · intro hsome
      have hplace : place ∈ placesAt place.length e := mem_placesAt_iff.mpr ⟨rfl, hsome⟩
      refine ⟨place.length, List.mem_range.mpr (Nat.lt_of_not_le fun hle => ?_), hplace⟩
      have hnone := map_at?_placesAt place.length e
      rw [hempty _ hle, List.map_nil, List.map_eq_nil_iff] at hnone
      exact List.not_mem_nil (hnone ▸ hplace)
  · refine List.pairwise_flatMap.mpr ⟨fun depth _ => ?_, ?_⟩
    · refine (pairwise_placesAt depth e).imp_of_mem fun hplace hother hlex => ?_
      exact .of_lex ((mem_placesAt_iff.mp hplace).1.trans (mem_placesAt_iff.mp hother).1.symm) hlex
    · refine List.pairwise_lt_range.imp fun hlt place hplace other hother => ?_
      refine .of_length_lt ?_
      rwa [(mem_placesAt_iff.mp hplace).1, (mem_placesAt_iff.mp hother).1]

end TopicQuery.Element
