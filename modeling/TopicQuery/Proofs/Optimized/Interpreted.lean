import Mathlib.Data.List.Flatten
import Mathlib.Data.List.Perm.Subperm
import TopicQuery.Proofs.Optimized

/-!
What optimized queries mean. An interpretation says which single clauses hold,
whatever their kinds of construct; a list holds if all its clauses do, and
alternatives are judged by what is known of their branches. Optimization keeps
the truth value of every list, and leaves everything else in a query as it was.
-/

namespace TopicQuery

/-! ## Interpretations -/

/-- Truth values of single clauses, and how alternatives follow from their branches. -/
structure Interpretation where
  call (name : Term) (arguments : List Term) : Bool
  builtin (name : String) (arguments : List Term) : Bool
  internal (name : String) (removed : List String) (arguments : List Term) : Bool
  comparison (operator : Comparison) (left right : Term) : Bool
  association (name : Term) (roles : List Role) : Bool
  dynamic (name : Term) (arguments : List Term) : Bool
  /-- The branches in order, each with whether it is cut short and whether it holds. -/
  alternatives (branches : List (Bool × Bool)) : Bool

namespace Interpretation

variable (I : Interpretation)

mutual

/-- The truth value of a clause. -/
def holds : Clause → Bool
  | .call name arguments => I.call name arguments
  | .builtin name _ arguments => I.builtin name arguments
  | .internal name _ removed arguments => I.internal name removed arguments
  | .comparison operator left right => I.comparison operator left right
  | .association name roles => I.association name roles
  | .dynamic name arguments => I.dynamic name arguments
  | .negation clauses => !holdsAll clauses
  | .alternatives branches => I.alternatives (branchValues branches)

/-- The truth value of a list of clauses. -/
def holdsAll : List Clause → Bool
  | [] => true
  | clause :: clauses => holds clause && holdsAll clauses

/-- What is known of the branches of alternatives. -/
def branchValues : List Branch → List (Bool × Bool)
  | [] => []
  | .mk shortCircuit clauses :: branches =>
    (shortCircuit, holdsAll clauses) :: branchValues branches

end

theorem holdsAll_eq_all (xs : List Clause) : I.holdsAll xs = xs.all I.holds := by
  induction xs with
  | nil => rfl
  | cons x xs ih => rw [holdsAll, ih, List.all_cons]

theorem branchValues_append (bs bs' : List Branch) :
    I.branchValues (bs ++ bs') = I.branchValues bs ++ I.branchValues bs' := by
  induction bs with
  | nil => rfl
  | cons b bs ih =>
      obtain ⟨shortCircuit, clauses⟩ := b
      rw [List.cons_append, branchValues, branchValues, ih, List.cons_append]

/-- A list with the same members holds under the same interpretations. -/
theorem holdsAll_eq_of_mem_iff {xs ys : List Clause} (h : ∀ x, x ∈ xs ↔ x ∈ ys) :
    I.holdsAll ys = I.holdsAll xs := by
  rw [holdsAll_eq_all, holdsAll_eq_all, Bool.eq_iff_iff, List.all_eq_true, List.all_eq_true]
  exact forall_congr' fun x => by rw [h x]

/-- What is left of a list of clauses holds exactly if the list does. -/
theorem holdsAll_reduced {xs ys : List Clause} (h : Reduces Narrows xs ys) :
    I.holdsAll ys = I.holdsAll xs := by
  induction h with
  | refl xs => rfl
  | trans _ _ ih ih' => exact ih'.trans ih
  | append _ _ ih ih' =>
      rw [holdsAll_eq_all, holdsAll_eq_all] at ih ih' ⊢
      rw [List.all_append, List.all_append, ih, ih']
  | reorder h => exact I.holdsAll_eq_of_mem_iff fun x => h.mem_iff
  | repeated hsub hcovers =>
      exact I.holdsAll_eq_of_mem_iff fun x => ⟨fun hx => hcovers hx, fun hx => hsub.subset hx⟩
  | replace h =>
      cases h
      rfl
  | negation _ ih => simp only [holdsAll, holds, ih]
  | branch front behind shortCircuit _ ih =>
      simp only [holdsAll, holds, branchValues_append, branchValues, ih]

end Interpretation

/-! ## Kinds of construct -/

mutual

/-- The built-in predicates of a clause at any depth, each with its kinds and arguments. -/
def Clause.builtins : Clause → List (String × List Hint × List Term)
  | .builtin name hints arguments => [(name, hints, arguments)]
  | .negation clauses => builtinsIn clauses
  | .alternatives branches => builtinsInBranches branches
  | _ => []

/-- The built-in predicates of a list of clauses. -/
def builtinsIn : List Clause → List (String × List Hint × List Term)
  | [] => []
  | clause :: clauses => clause.builtins ++ builtinsIn clauses

/-- The built-in predicates of a list of branches. -/
def builtinsInBranches : List Branch → List (String × List Hint × List Term)
  | [] => []
  | .mk _ clauses :: branches => builtinsIn clauses ++ builtinsInBranches branches

end

/-- The second built-in predicate is the first with some of its kinds. -/
structure KeepsSome (x y : String × List Hint × List Term) : Prop where
  name : y.1 = x.1
  arguments : y.2.2 = x.2.2
  hints : y.2.1.Sublist x.2.1
  eq_nil : y.2.1 = [] → x.2.1 = []

namespace KeepsSome

variable {x y z : String × List Hint × List Term}

theorem refl (x : String × List Hint × List Term) : KeepsSome x x := ⟨rfl, rfl, .refl _, id⟩

theorem trans (h : KeepsSome x y) (h' : KeepsSome y z) : KeepsSome x z where
  name := h'.name.trans h.name
  arguments := h'.arguments.trans h.arguments
  hints := h'.hints.trans h.hints
  eq_nil := h.eq_nil ∘ h'.eq_nil

end KeepsSome

/-- Each built-in predicate of the second list was one of the first, and no two were the same one. -/
def NarrowsHints (xs ys : List (String × List Hint × List Term)) : Prop :=
  ∃ originals, originals.Subperm xs ∧ List.Forall₂ KeepsSome originals ys

/-- What some members were related to, in some order, stands in what all were related to. -/
theorem exists_subperm_of_forall₂ {α β : Type} {R : α → β → Prop} {xs : List α} {ys ys' : List β}
    (h : List.Forall₂ R xs ys) (hsub : ys'.Subperm ys) :
    ∃ xs', xs'.Subperm xs ∧ List.Forall₂ R xs' ys' := by
  obtain ⟨between, hperm, hbetween⟩ := hsub
  obtain ⟨cs, hcs, hrelated⟩ := exists_sublist_of_forall₂ h.flip hbetween
  obtain ⟨xs', hxs, hperm'⟩ := List.perm_comp_forall₂ hperm.symm hrelated
  exact ⟨xs', ⟨cs, hperm'.symm, hcs⟩, hxs.flip⟩

namespace NarrowsHints

variable {xs ys zs xs' ys' : List (String × List Hint × List Term)}

theorem of_subperm (h : ys.Subperm xs) : NarrowsHints xs ys :=
  ⟨ys, h, List.forall₂_same.mpr fun y _ => .refl y⟩

theorem trans (h : NarrowsHints xs ys) (h' : NarrowsHints ys zs) : NarrowsHints xs zs := by
  obtain ⟨originals, hsub, hkeeps⟩ := h
  obtain ⟨originals', hsub', hkeeps'⟩ := h'
  obtain ⟨first, hfirst, hboth⟩ := exists_subperm_of_forall₂ hkeeps hsub'
  exact ⟨first, hfirst.trans hsub, forall₂_trans hboth hkeeps' KeepsSome.trans⟩

theorem append (h : NarrowsHints xs ys) (h' : NarrowsHints xs' ys') :
    NarrowsHints (xs ++ xs') (ys ++ ys') := by
  obtain ⟨originals, hsub, hkeeps⟩ := h
  obtain ⟨originals', hsub', hkeeps'⟩ := h'
  exact ⟨originals ++ originals', hsub.append hsub', List.rel_append hkeeps hkeeps'⟩

end NarrowsHints

theorem builtinsIn_eq_flatMap (xs : List Clause) : builtinsIn xs = xs.flatMap Clause.builtins := by
  induction xs with
  | nil => rfl
  | cons x xs ih => rw [builtinsIn, ih, List.flatMap_cons]

theorem builtinsInBranches_append (bs bs' : List Branch) :
    builtinsInBranches (bs ++ bs') = builtinsInBranches bs ++ builtinsInBranches bs' := by
  induction bs with
  | nil => rfl
  | cons b bs ih =>
      obtain ⟨shortCircuit, clauses⟩ := b
      rw [List.cons_append, builtinsInBranches, builtinsInBranches, ih, List.append_assoc]

/-- The built-in predicates that are left have kinds that they had, and some if they had any. -/
theorem narrowsHints_reduced {xs ys : List Clause} (h : Reduces Narrows xs ys) :
    NarrowsHints (builtinsIn xs) (builtinsIn ys) := by
  induction h with
  | refl xs => exact .of_subperm (.refl _)
  | trans _ _ ih ih' => exact ih.trans ih'
  | append _ _ ih ih' =>
      simp only [builtinsIn_eq_flatMap, List.flatMap_append] at ih ih' ⊢
      exact ih.append ih'
  | reorder h =>
      simp only [builtinsIn_eq_flatMap]
      exact .of_subperm (h.symm.flatMap_right _).subperm
  | repeated hsub _ =>
      simp only [builtinsIn_eq_flatMap]
      exact .of_subperm (hsub.flatMap _).subperm
  | replace h =>
      cases h with
      | builtin name arguments hsub hne =>
          exact ⟨_, .refl _, .cons ⟨rfl, rfl, hsub, fun hnil => absurd hnil hne⟩ .nil⟩
  | negation _ ih => simpa [builtinsIn, Clause.builtins] using ih
  | branch front behind shortCircuit _ ih =>
      have hself := fun bs => NarrowsHints.of_subperm (.refl (builtinsInBranches bs))
      simp only [builtinsIn, Clause.builtins, List.append_nil, builtinsInBranches_append,
        builtinsInBranches]
      exact (hself front).append (ih.append (hself behind))

/-! ## Queries with the same meaning -/

/-- The lists hold under the same interpretations, and kinds are at most left out. -/
structure SameConditions (xs ys : List Clause) : Prop where
  holdsAll : ∀ I : Interpretation, I.holdsAll ys = I.holdsAll xs
  hints : NarrowsHints (builtinsIn xs) (builtinsIn ys)

theorem SameConditions.of_reduces {xs ys : List Clause} (h : Reduces Narrows xs ys) :
    SameConditions xs ys := ⟨fun I => I.holdsAll_reduced h, narrowsHints_reduced h⟩

/-- The queries differ in their conditions only, and these mean the same. -/
structure Query.SameMeaning (q q' : Query) : Prop where
  base : q.base = q'.base
  bindings : q.bindings = q'.bindings
  imported : q.imported = q'.imported
  rules : List.Forall₂ (fun r r' => r.name = r'.name ∧ r.parameters = r'.parameters ∧
    SameConditions r.body r'.body) q.rules q'.rules
  statement : Option.Rel (fun s s' => s' = s.withClauses s'.clauses ∧
    SameConditions s.clauses s'.clauses) q.statement q'.statement

theorem Query.Reduces.sameMeaning {q q' : Query} (h : q.Reduces (fun _ => Narrows) q') :
    q.SameMeaning q' where
  base := h.base
  bindings := h.bindings
  imported := h.imported
  rules := h.rules.imp fun _ _ hr => ⟨hr.name, hr.parameters, .of_reduces hr.body⟩
  statement := by
    have hstatement := h.statement
    generalize q.statement = s, q'.statement = s' at hstatement
    cases hstatement with
    | none => exact .none
    | some hs => exact .some ⟨hs.rest, .of_reduces hs.clauses⟩

/-! ## Restored predicates -/

theorem take_append_drop_eraseIdx {α : Type} {xs : List α} {n : Nat} {x : α} (h : xs[n]? = some x) :
    (xs.eraseIdx n).take n ++ [x] ++ (xs.eraseIdx n).drop n = xs := by
  induction xs generalizing n with
  | nil => simp at h
  | cons y xs ih =>
      cases n with
      | zero => simpa using h.symm
      | succ n => simpa using ih (by simpa using h)

/-- An internal predicate is made into the one that it was made of. -/
theorem restoring_internal {builtin : String} {n : Nat} {internal : Internal}
    (hfor : Internal.findFor? builtin n = some internal) {v : String} {arguments : List Term}
    (hv : arguments[n]? = some (.var v)) (hints : List Hint) :
    Factory.restoring.internal internal.name hints [v] (arguments.eraseIdx n) =
      .ok (.builtin builtin hints arguments) := by
  obtain ⟨hfind, hbuiltin, hremoved⟩ := InternalPredicates.find?_of_findFor? hfor
  have hrestore : Internal.restore? internal.name (arguments.eraseIdx n) [.var v] =
      some (builtin, arguments) := by
    rw [Internal.restore?, hfind, Option.map_some, hremoved, hbuiltin, take_append_drop_eraseIdx hv]
  simp only [Factory.restoring, List.map_cons, List.map_nil, hrestore]

theorem restoring_replaces (one : Clause → Clause → Prop) (keep : List String) :
    InternalPredicates.Replaces .restoring one keep :=
  fun hfor _ _ hints arguments hv =>
    ⟨.builtin _ hints arguments, restoring_internal hfor hv hints, .refl _⟩

theorem restoring_admits : Admits .restoring fun _ => Narrows where
  usual := ⟨_, _, _, _, rfl⟩
  narrowed _ name _ _ arguments hsub hne := .builtin name arguments hsub hne
  replaces keep := restoring_replaces Narrows keep
  rule h := Rule.create_agree (fun hxy _ _ => by rw [Narrows.occurrences_eq hxy]) h
  forget := id

/-- Optimization by any passes changes neither whether a query can be built nor what it means. -/
theorem Query.optimized_sameMeaning (plus : Bool) (passes : List Pass) (source : Source) :
    Agree Query.SameMeaning (Query.ofSource .restoring ⟨plus, some []⟩ source)
      (Query.ofSource .restoring ⟨plus, some (passes.map Pass.name)⟩ source) :=
  (Query.ofSource_agree restoring_admits plus passes source).imp Query.Reduces.sameMeaning

end TopicQuery
