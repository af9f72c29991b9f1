import TopicQuery.Proofs.Optimized.Taken
import TopicQuery.Proofs.Outline

/-!
The operand of an outline, by recursion over the outline. A builder that walks
through the events of an outline inside an open container adds that operand to the
container and changes nothing else; so what may go wrong in the walk is what may go
wrong in a leaf or in putting the operands of one container together.
-/

namespace TopicQuery

/-! ## Steps with known failures -/

/-- The step fails only with a flaw and succeeds only without one; its value keeps a law. -/
def Outcome {α : Type} (flaw : Failure → Prop) (law : α → Prop) : Except Failure α → Prop
  | .ok a => (∀ failure, ¬flaw failure) ∧ law a
  | .error failure => flaw failure

namespace Outcome

variable {α β : Type} {flaw flaw' : Failure → Prop} {law : α → Prop} {law' : β → Prop}
  {r : Except Failure α} {g : α → Except Failure β}

theorem ok {a : α} (hflaw : ∀ failure, ¬flaw failure) (hlaw : law a) :
    Outcome flaw law (.ok a) := ⟨hflaw, hlaw⟩

theorem of_iff (h : Outcome flaw law r) (hflaw : ∀ failure, flaw' failure ↔ flaw failure) :
    Outcome flaw' law r := by
  cases r with
  | error failure => exact (hflaw failure).mpr h
  | ok a => exact ⟨fun failure hfailure => h.1 failure ((hflaw failure).mp hfailure), h.2⟩

theorem imp {law' : α → Prop} (h : Outcome flaw law r) (hlaw : ∀ a, law a → law' a) :
    Outcome flaw law' r := by
  cases r with
  | error failure => exact h
  | ok a => exact ⟨h.1, hlaw a h.2⟩

/-- Two steps in a row fail with the flaws of both. -/
theorem bind (h : Outcome flaw law r) (hg : ∀ a, law a → Outcome flaw' law' (g a)) :
    Outcome (fun failure => flaw failure ∨ flaw' failure) law' (r >>= g) := by
  cases r with
  | error failure => exact .inl h
  | ok a =>
      obtain ⟨hflaw, hlaw⟩ := h
      have hrest := hg a hlaw
      rw [ok_bind]
      cases hvalue : g a with
      | error failure =>
          rw [hvalue] at hrest
          exact .inr hrest
      | ok b =>
          rw [hvalue] at hrest
          refine ⟨fun failure hfailure => ?_, hrest.2⟩
          obtain hfirst | hsecond := hfailure
          · exact hflaw failure hfirst
          · exact hrest.1 failure hsecond

/-- A step behind which nothing can fail. -/
theorem bind_ok (h : Outcome flaw law r) (hg : ∀ a, law a → ∃ b, g a = .ok b ∧ law' b) :
    Outcome flaw law' (r >>= g) := by
  cases r with
  | error failure => exact h
  | ok a =>
      obtain ⟨b, hb, hlaw⟩ := hg a h.2
      rw [ok_bind, hb]
      exact ⟨h.1, hlaw⟩

/-- Steps one behind the other have the flaws of all of them. -/
theorem mapM {γ : Type} {flaw : γ → Failure → Prop} {law : γ → α → Prop}
    {g : γ → Except Failure α} {xs : List γ} (h : ∀ x ∈ xs, Outcome (flaw x) (law x) (g x)) :
    Outcome (fun failure => ∃ x ∈ xs, flaw x failure) (List.Forall₂ law xs) (xs.mapM g) := by
  induction xs with
  | nil => exact .ok (by simp) .nil
  | cons x xs ih =>
      have hrest := ih fun y hy => h y (List.mem_cons_of_mem _ hy)
      have hall : ∀ a, law x a → Outcome (fun failure => ∃ y ∈ xs, flaw y failure)
          (List.Forall₂ law (x :: xs)) (xs.mapM g >>= fun as => .ok (a :: as)) :=
        fun a ha => hrest.bind_ok fun as has => ⟨a :: as, rfl, .cons ha has⟩
      rw [List.mapM_cons]
      refine ((h x List.mem_cons_self).bind hall).of_iff fun failure => ?_
      rw [List.exists_mem_cons_iff]

/-- Where the outcome is known, the step fails if and only if there is a flaw. -/
theorem fails_iff (h : Outcome flaw law r) :
    (∀ failure, r = .error failure → flaw failure) ∧
      ((∃ failure, r = .error failure) ↔ ∃ failure, flaw failure) ∧
      ((∀ failure, ¬flaw failure) → ∃ a, r = .ok a) := by
  cases r with
  | error failure =>
      refine ⟨fun other hother => ?_, ⟨fun _ => ⟨failure, h⟩, fun _ => ⟨failure, rfl⟩⟩,
        fun hnone => absurd h (hnone failure)⟩
      obtain rfl := Except.error.inj hother
      exact h
  | ok a =>
      refine ⟨by simp, ⟨by simp, ?_⟩, fun _ => ⟨a, rfl⟩⟩
      rintro ⟨failure, hflaw⟩
      exact absurd hflaw (h.1 failure)

end Outcome

/-! ## The operand of an outline -/

namespace Outline

mutual

/-- The operand of an outline, where leaves are read as told. -/
def operand (f : Factory) (read : Leaf → Except Failure Operand) :
    Outline → Except Failure Operand
  | .leaf item => read item
  | .within c inner => operands f read inner >>= Operands.complete f c

/-- The operands of some outlines. -/
def operands (f : Factory) (read : Leaf → Except Failure Operand) :
    List Outline → Except Failure (List Operand)
  | [] => .ok []
  | o :: os => do
    let first ← operand f read o
    return first :: (← operands f read os)

end

end Outline

/-! ## Flaws of leaves -/

/-- A leaf among the events has a flaw. -/
def FlawIn (flaw : Leaf → Failure → Prop) (events : List Event) (failure : Failure) : Prop :=
  ∃ item, .leaf item ∈ events ∧ flaw item failure

theorem flawIn_append {flaw : Leaf → Failure → Prop} {events events' : List Event}
    {failure : Failure} :
    FlawIn flaw (events ++ events') failure ↔
      FlawIn flaw events failure ∨ FlawIn flaw events' failure := by
  simp only [FlawIn, List.mem_append, or_and_right, exists_or]

theorem flawIn_eventsAll {flaw : Leaf → Failure → Prop} {os : List Outline} {failure : Failure} :
    FlawIn flaw (Outline.eventsAll os) failure ↔ ∃ o ∈ os, FlawIn flaw o.events failure := by
  induction os with
  | nil => simp [FlawIn, Outline.eventsAll]
  | cons o os ih =>
      rw [List.exists_mem_cons_iff, ← ih, Outline.eventsAll, flawIn_append]

namespace Outline

section Builds

variable (f : Factory) (read : Leaf → Except Failure Operand) (flaw : Leaf → Failure → Prop)

/-- The outline has an operand, which keeps a law, unless a leaf in it has a flaw. -/
def Builds (law : Operand → Prop) (o : Outline) : Prop :=
  Outcome (FlawIn flaw o.events) law (o.operand f read)

/-- The outlines have operands, which keep a law, unless a leaf in one of them has a flaw. -/
def BuildsAll (law : List Operand → Prop) (os : List Outline) : Prop :=
  Outcome (FlawIn flaw (eventsAll os)) law (operands f read os)

end Builds

/-- The operand is of a kind, and a law connects what it holds with its outline. -/
def Holds {α : Type} (inject : α → Operand) (law : Outline → α → Prop) (o : Outline)
    (x : Operand) : Prop :=
  ∃ a, x = inject a ∧ law o a

theorem exists_of_holds {α : Type} {inject : α → Operand} {law : Outline → α → Prop}
    {os : List Outline} {xs : List Operand} (h : List.Forall₂ (Holds inject law) os xs) :
    ∃ as, xs = as.map inject ∧ List.Forall₂ law os as := by
  induction h with
  | nil => exact ⟨[], rfl, .nil⟩
  | cons hfirst _ ih =>
      obtain ⟨a, rfl, ha⟩ := hfirst
      obtain ⟨as, rfl, has⟩ := ih
      exact ⟨a :: as, rfl, .cons ha has⟩

variable {f : Factory} {read : Leaf → Except Failure Operand} {flaw : Leaf → Failure → Prop}
  {law law' : Operand → Prop} {laws laws' : List Operand → Prop} {o : Outline}
  {os ps : List Outline}

theorem builds_leaf {item : Leaf}
    (hflaw : ∀ failure, flaw item failure ↔ read item = .error failure)
    (hlaw : ∀ x, read item = .ok x → law x) : Builds f read flaw law (.leaf item) := by
  have hin : ∀ failure, FlawIn flaw (events (.leaf item)) failure ↔ read item = .error failure := by
    intro failure
    simp [FlawIn, events, hflaw]
  unfold Builds
  rw [operand]
  cases hread : read item with
  | error failure => exact (hin failure).mpr hread
  | ok x =>
      refine ⟨fun failure hfailure => ?_, hlaw x hread⟩
      have herror := (hin failure).mp hfailure
      rw [hread] at herror
      cases herror

theorem buildsAll_nil (h : laws []) : BuildsAll f read flaw laws [] := by
  refine Outcome.ok ?_ h
  rintro failure ⟨item, hitem, -⟩
  cases hitem

theorem buildsAll_cons (h : Builds f read flaw law o) (h' : BuildsAll f read flaw laws os)
    (hlaws : ∀ x xs, law x → laws xs → laws' (x :: xs)) :
    BuildsAll f read flaw laws' (o :: os) := by
  have hboth := h.bind fun x hx => h'.bind_ok (g := fun xs => .ok (x :: xs))
    fun xs hxs => ⟨_, rfl, hlaws x xs hx hxs⟩
  unfold BuildsAll
  rw [operands]
  exact hboth.of_iff fun failure => by rw [eventsAll, flawIn_append]

theorem buildsAll_singleton (h : Builds f read flaw law o) (hlaws : ∀ x, law x → laws [x]) :
    BuildsAll f read flaw laws [o] := by
  have hnil : BuildsAll f read flaw (fun xs => xs = []) [] := buildsAll_nil rfl
  refine buildsAll_cons h hnil ?_
  rintro x xs hx rfl
  exact hlaws x hx

theorem operands_eq_mapM (os : List Outline) :
    operands f read os = os.mapM (operand f read) := by
  induction os with
  | nil => rfl
  | cons o os ih => rw [operands, ih, List.mapM_cons]

theorem buildsAll_append {laws'' : List Operand → Prop} (h : BuildsAll f read flaw laws os)
    (h' : BuildsAll f read flaw laws' ps)
    (hlaws : ∀ xs ys, laws xs → laws' ys → laws'' (xs ++ ys)) :
    BuildsAll f read flaw laws'' (os ++ ps) := by
  have hboth := h.bind fun xs hxs => h'.bind_ok (g := fun ys => .ok (xs ++ ys))
    fun ys hys => ⟨_, rfl, hlaws xs ys hxs hys⟩
  unfold BuildsAll
  rw [operands_eq_mapM, List.mapM_append, ← operands_eq_mapM, ← operands_eq_mapM]
  exact hboth.of_iff fun failure => by rw [eventsAll_append, flawIn_append]

/-- One law for every outline and its operand. -/
theorem buildsAll_forall {rel : Outline → Operand → Prop}
    (h : ∀ o ∈ os, Builds f read flaw (rel o) o) :
    BuildsAll f read flaw (List.Forall₂ rel os) os := by
  unfold BuildsAll
  rw [operands_eq_mapM]
  refine (Outcome.mapM h).of_iff fun failure => ?_
  exact flawIn_eventsAll

/-- A container has an operand if it can be put together from those of its inside. -/
theorem builds_within {k : Container} (h : BuildsAll f read flaw laws os)
    (hcomplete : ∀ xs, laws xs → ∃ x, Operands.complete f k xs = .ok x ∧ law x) :
    Builds f read flaw law (.within k os) := by
  unfold Builds
  rw [operand]
  refine (h.bind_ok hcomplete).of_iff fun failure => ?_
  simp [FlawIn, events]

end Outline

/-- The event belongs inside a document: it is no directive, and no start of a document. -/
def Event.isInside : Event → Bool
  | .enter .document => false
  | .leaf (.base _) => false
  | .leaf (.binding _ _ _) => false
  | _ => true

namespace Builder

variable {f : Factory}

mutual

/-- Walking through an outline adds its operand to the innermost container. -/
theorem run_events (o : Outline) (h : ∀ e ∈ o.events, e.isInside = true) {b : Builder}
    (hquery : b.query = none) (hframes : b.frames ≠ []) :
    b.run f o.events = (o.operand f (b.operand f) >>= b.push) := by
  match o with
  | .leaf item =>
      have hitem : Event.isInside (.leaf item) = true := h _ List.mem_cons_self
      rw [Outline.events, run_leaf, Outline.operand]
      apply leaf_eq
      · rintro iri rfl
        cases hitem
      · rintro identifier iri kind rfl
        cases hitem
  | .within c inner =>
      have hc : c ≠ .document := by
        rintro rfl
        have henter := h _ List.mem_cons_self
        cases henter
      have hinner : ∀ e ∈ Outline.eventsAll inner, e.isInside = true := by
        intro e he
        apply h
        simp [Outline.events, he]
      rw [Outline.events, run_enter, enter_inside hquery hframes, if_neg hc, ok_bind, run_append,
        run_eventsAll inner hinner hquery, Outline.operand]
      cases Outline.operands f (b.operand f) inner with
      | error failure => rfl
      | ok operands =>
          rw [ok_bind, ok_bind, ok_bind, run_leave rfl, finish, List.nil_append, if_neg (by simp),
            if_neg hc]

/-- Walking through outlines adds their operands one after the other. -/
theorem run_eventsAll (os : List Outline) (h : ∀ e ∈ Outline.eventsAll os, e.isInside = true)
    {b : Builder} (hquery : b.query = none) {c : Container} {operands : List Operand}
    {outer : List Frame} :
    ({ b with frames := ⟨c, operands⟩ :: outer } : Builder).run f (Outline.eventsAll os) =
      (Outline.operands f (b.operand f) os >>= fun more =>
        .ok { b with frames := ⟨c, operands ++ more⟩ :: outer }) := by
  match os with
  | [] => simp [Outline.eventsAll, Outline.operands, run, ok_bind]
  | o :: os =>
      rw [Outline.eventsAll] at h
      have hfirst : ({ b with frames := ⟨c, operands⟩ :: outer } : Builder).run f o.events =
          (o.operand f (b.operand f) >>= fun first =>
            .ok { b with frames := ⟨c, operands ++ [first]⟩ :: outer }) := by
        have hrun := run_events o (fun e he => h e (List.mem_append_left _ he))
          (b := { b with frames := ⟨c, operands⟩ :: outer }) hquery (by simp)
        rw [hrun, @operand_congr f _ b rfl rfl]
        rfl
      rw [Outline.eventsAll, run_append, hfirst, Outline.operands]
      cases o.operand f (b.operand f) with
      | error failure => rfl
      | ok first =>
          have hrest : ∀ e ∈ Outline.eventsAll os, e.isInside = true := fun e he =>
            h e (List.mem_append_right _ he)
          rw [ok_bind, ok_bind, ok_bind, run_eventsAll os hrest hquery]
          cases Outline.operands f (b.operand f) os with
          | error failure => rfl
          | ok more =>
              rw [ok_bind, ok_bind, List.append_assoc]
              rfl

end

end Builder

end TopicQuery
