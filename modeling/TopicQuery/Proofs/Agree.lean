import Mathlib.Data.List.Forall2

/-!
Steps that may fail: where their values come from, and when two of them agree,
whatever they fail with.
-/

namespace TopicQuery

theorem ok_bind {α β ε : Type} (a : α) (f : α → Except ε β) : (Except.ok a >>= f) = f a := rfl

/-- A value of two steps is one of the second step behind a value of the first. -/
theorem ok_of_bind {α β ε : Type} {r : Except ε α} {f : α → Except ε β} {b : β}
    (h : (r >>= f) = .ok b) : ∃ a, r = .ok a ∧ f a = .ok b := by
  cases r with
  | error fault => cases h
  | ok a => exact ⟨a, rfl, h⟩

section Steps

variable {α β γ ε : Type} {f : α → Except ε β} {xs : List α} {bs : List β} {n : Nat} {x : α} {b : β}

theorem mapM_eq_ok_iff : xs.mapM f = .ok bs ↔ List.Forall₂ (fun x b => f x = .ok b) xs bs := by
  induction xs generalizing bs with
  | nil =>
      rw [List.forall₂_nil_left_iff]
      exact ⟨fun h => (Except.ok.inj h).symm, fun h => h ▸ rfl⟩
  | cons x xs ih =>
      rw [List.mapM_cons, List.forall₂_cons_left_iff]
      constructor
      · intro h
        obtain ⟨b, hb, hrest⟩ := ok_of_bind h
        obtain ⟨bs', hbs, hok⟩ := ok_of_bind hrest
        exact ⟨b, bs', hb, ih.mp hbs, (Except.ok.inj hok).symm⟩
      · rintro ⟨b, bs', hb, hbs, rfl⟩
        rw [hb, ih.mpr hbs]
        rfl

/-- A step that succeeds can be left out, and with it its value. -/
theorem mapM_eraseIdx (hx : xs[n]? = some x) (hb : f x = .ok b) :
    (xs.eraseIdx n).mapM f = (xs.mapM f >>= fun bs => .ok (bs.eraseIdx n)) := by
  induction xs generalizing n with
  | nil => simp at hx
  | cons y xs ih =>
      cases n with
      | zero =>
          obtain rfl : y = x := by simpa using hx
          rw [List.mapM_cons, hb, List.eraseIdx_zero, List.tail_cons, ok_bind]
          cases xs.mapM f <;> rfl
      | succ n =>
          rw [List.eraseIdx_cons_succ, List.mapM_cons, List.mapM_cons, ih (by simpa using hx)]
          cases f y with
          | error fault => rfl
          | ok c => cases xs.mapM f <;> rfl

theorem getElem?_of_mapM (h : xs.mapM f = .ok bs) (hx : xs[n]? = some x) (hb : f x = .ok b) :
    bs[n]? = some b := by
  have hall := mapM_eq_ok_iff.mp h
  obtain ⟨hn, rfl⟩ := List.getElem?_eq_some_iff.mp hx
  have hn' : n < bs.length := hall.length_eq ▸ hn
  have hvalue : f xs[n] = .ok bs[n] := hall.get hn hn'
  rw [List.getElem?_eq_getElem hn', Except.ok.inj (hvalue.symm.trans hb)]

end Steps

/-- Both fail, or both succeed and the values are related. -/
def Agree {ε α β : Type} (R : α → β → Prop) : Except ε α → Except ε β → Prop
  | .ok a, .ok b => R a b
  | .error _, .error _ => True
  | .ok _, .error _ => False
  | .error _, .ok _ => False

namespace Agree

variable {ε α β γ δ : Type} {R : α → β → Prop} {S : γ → δ → Prop} {x : Except ε α} {y : Except ε β}

theorem refl {R : α → α → Prop} (hR : ∀ a, R a a) (x : Except ε α) : Agree R x x := by
  cases x with
  | error fault => trivial
  | ok a => exact hR a

theorem imp_of_ok {T : α → β → Prop} (h : Agree R x y)
    (hT : ∀ {a b}, x = .ok a → R a b → T a b) : Agree T x y := by
  cases x <;> cases y
  · trivial
  · exact h
  · exact h
  · exact hT rfl h

theorem imp {T : α → β → Prop} (h : Agree R x y) (hT : ∀ {a b}, R a b → T a b) : Agree T x y :=
  h.imp_of_ok fun _ hab => hT hab

theorem trans {T : β → γ → Prop} {U : α → γ → Prop} {z : Except ε γ} (h : Agree R x y)
    (h' : Agree T y z) (hU : ∀ {a b c}, R a b → T b c → U a c) : Agree U x z := by
  cases x <;> cases y <;> cases z
  · trivial
  · exact absurd h' id
  · exact absurd h id
  · exact absurd h id
  · exact absurd h id
  · exact absurd h id
  · exact absurd h' id
  · exact hU h h'

theorem bind_of_ok (h : Agree R x y) {f : α → Except ε γ} {g : β → Except ε δ}
    (hfg : ∀ a b, x = .ok a → R a b → Agree S (f a) (g b)) : Agree S (x >>= f) (y >>= g) := by
  cases x <;> cases y
  · trivial
  · exact absurd h id
  · exact absurd h id
  · exact hfg _ _ rfl h

theorem bind (h : Agree R x y) {f : α → Except ε γ} {g : β → Except ε δ}
    (hfg : ∀ a b, R a b → Agree S (f a) (g b)) : Agree S (x >>= f) (y >>= g) :=
  h.bind_of_ok fun a b _ hab => hfg a b hab

/-- The same step behind which others agree. -/
theorem bind_same {f : α → Except ε γ} {g : α → Except ε δ} (x : Except ε α)
    (hfg : ∀ a, Agree S (f a) (g a)) : Agree S (x >>= f) (x >>= g) := by
  cases x with
  | error fault => trivial
  | ok a => exact hfg a

theorem map (h : Agree R x y) {f : α → γ} {g : β → δ} (hfg : ∀ a b, R a b → S (f a) (g b)) :
    Agree S (x >>= fun a => .ok (f a)) (y >>= fun b => .ok (g b)) :=
  h.bind fun a b hab => hfg a b hab

theorem isOk_iff (h : Agree R x y) : (∃ a, x = .ok a) ↔ ∃ b, y = .ok b := by
  cases x <;> cases y
  · simp
  · exact absurd h id
  · exact absurd h id
  · simp

theorem mapM {κ τ : Type} {f : κ → Except ε α} {g : τ → Except ε β} {xs : List κ} {ys : List τ}
    (h : List.Forall₂ (fun x y => Agree R (f x) (g y)) xs ys) :
    Agree (List.Forall₂ R) (xs.mapM f) (ys.mapM g) := by
  induction h with
  | nil => exact List.Forall₂.nil
  | cons hfirst _ ih =>
      rw [List.mapM_cons, List.mapM_cons]
      exact hfirst.bind fun a b hab => ih.map fun as bs has => .cons hab has

/-- The values of steps in another order are the values in another order. -/
theorem mapM_perm {f : γ → Except ε α} {xs ys : List γ} (h : xs.Perm ys) :
    Agree List.Perm (xs.mapM f) (ys.mapM f) := by
  induction h with
  | nil => exact refl .refl _
  | @cons x xs ys _ ih =>
      rw [List.mapM_cons, List.mapM_cons]
      exact bind_same (f x) fun a => ih.map fun as bs has => has.cons a
  | swap x y xs =>
      simp only [List.mapM_cons]
      cases f x <;> cases f y <;> cases xs.mapM f
      all_goals first | trivial | exact List.Perm.swap _ _ _
  | trans _ _ ih ih' => exact ih.trans ih' .trans

/-- A step that succeeds can be left out, and its value with it. -/
theorem mapM_eraseIdx {f : γ → Except ε α} {xs : List γ} {n : Nat} {x : γ} {a : α}
    (hx : xs[n]? = some x) (ha : f x = .ok a) :
    Agree (fun as bs => as[n]? = some a ∧ bs = as.eraseIdx n) (xs.mapM f)
      ((xs.eraseIdx n).mapM f) := by
  rw [TopicQuery.mapM_eraseIdx hx ha]
  cases h : xs.mapM f with
  | error fault => trivial
  | ok as => exact ⟨getElem?_of_mapM h hx ha, rfl⟩

end Agree

/-! ## Steps of which some are left out -/

theorem forall₂_trans {α β γ : Type} {R : α → β → Prop} {S : β → γ → Prop} {T : α → γ → Prop}
    {xs : List α} {ys : List β} {zs : List γ} (h : List.Forall₂ R xs ys)
    (h' : List.Forall₂ S ys zs) (hT : ∀ {a b c}, R a b → S b c → T a c) :
    List.Forall₂ T xs zs := by
  induction h generalizing zs with
  | nil =>
      cases h'
      exact .nil
  | cons hfirst _ ih =>
      cases h' with
      | cons hfirst' hrest' => exact .cons (hT hfirst hfirst') (ih hrest')

section Sublist

variable {ε α β : Type} {f : α → Except ε β} {xs ys : List α} {bs : List β}

theorem exists_mapM_ok (h : ∀ x ∈ xs, ∃ b, f x = .ok b) : ∃ bs, xs.mapM f = .ok bs := by
  induction xs with
  | nil => exact ⟨[], rfl⟩
  | cons x xs ih =>
      obtain ⟨b, hb⟩ := h x (by simp)
      obtain ⟨bs, hbs⟩ := ih fun y hy => h y (by simp [hy])
      exact ⟨b :: bs, by rw [List.mapM_cons, hb, hbs]; rfl⟩

/-- What fewer members are mapped to stands in what all are mapped to. -/
theorem exists_sublist_of_forall₂ {R : α → β → Prop} (h : List.Forall₂ R xs bs)
    (hsub : ys.Sublist xs) : ∃ cs, cs.Sublist bs ∧ List.Forall₂ R ys cs := by
  induction hsub generalizing bs with
  | slnil => exact ⟨[], List.nil_sublist _, .nil⟩
  | cons x _ ih =>
      cases h with
      | cons _ hrest =>
          obtain ⟨cs, hcs, hys⟩ := ih hrest
          exact ⟨cs, hcs.cons _, hys⟩
  | cons_cons x _ ih =>
      cases h with
      | cons hfirst hrest =>
          obtain ⟨cs, hcs, hys⟩ := ih hrest
          exact ⟨_, hcs.cons_cons _, .cons hfirst hys⟩

theorem exists_of_mem_forall₂ {R : α → β → Prop} (h : List.Forall₂ R xs bs) {x : α} (hx : x ∈ xs) :
    ∃ b ∈ bs, R x b := by
  obtain ⟨i, hi, rfl⟩ := List.mem_iff_getElem.mp hx
  have hi' : i < bs.length := h.length_eq ▸ hi
  exact ⟨bs[i], List.getElem_mem hi', h.get hi hi'⟩

/-- Steps that only repeat others can be left out. -/
theorem Agree.mapM_sublist (hsub : ys.Sublist xs) (hcovers : ∀ x ∈ xs, ∃ y ∈ ys, f y = f x) :
    Agree (fun as bs => bs.Sublist as ∧ as ⊆ bs) (xs.mapM f) (ys.mapM f) := by
  cases hxs : xs.mapM f with
  | ok as =>
      have hall := mapM_eq_ok_iff.mp hxs
      obtain ⟨bs, hbs, hys⟩ := exists_sublist_of_forall₂ hall hsub
      rw [mapM_eq_ok_iff.mpr hys]
      refine ⟨hbs, fun a ha => ?_⟩
      obtain ⟨x, hx, hxa⟩ := exists_of_mem_forall₂ hall.flip ha
      obtain ⟨y, hy, hyx⟩ := hcovers x hx
      obtain ⟨b, hb, hyb⟩ := exists_of_mem_forall₂ hys hy
      obtain rfl : a = b := Except.ok.inj (hxa.symm.trans (hyx.symm.trans hyb))
      exact hb
  | error fault =>
      cases hys : ys.mapM f with
      | error fault' => trivial
      | ok bs =>
          have hall := mapM_eq_ok_iff.mp hys
          have hsome : ∀ x ∈ xs, ∃ b, f x = .ok b := fun x hx => by
            obtain ⟨y, hy, hyx⟩ := hcovers x hx
            obtain ⟨b, -, hb⟩ := exists_of_mem_forall₂ hall hy
            exact ⟨b, hyx ▸ hb⟩
          obtain ⟨as, has⟩ := exists_mapM_ok hsome
          rw [has] at hxs
          cases hxs

end Sublist

end TopicQuery
