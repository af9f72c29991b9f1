import TopicQuery.Query.Builder

/-!
Events told as functions of the builder. Everything that can fail is done before the builder
is changed, except that a closing event takes the innermost frame off first. So an event is
told by a function that yields the builder behind it or a failure, and a failure leaves the
builder as it was, or without that frame: what its container amounts to is found before
anything is handed on.
-/

namespace TopicQuery

namespace Builder

/-- The builder with an operand added to the innermost container. -/
def push (b : Builder) (operand : Operand) : Except Failure Builder :=
  match b.frames with
  | [] => .error (.builder (.outside operand))
  | frame :: outer =>
    .ok { b with frames := { frame with operands := frame.operands ++ [operand] } :: outer }

/-- The builder with a container opened. -/
def enter (b : Builder) (container : Container) : Except Failure Builder :=
  if b.query.isSome then .error (.builder .afterEnd)
  else if container = .document ∧ b.frames ≠ [] then .error (.builder .nestedStart)
  else if container ≠ .document ∧ b.frames = [] then .error (.builder (.beforeStart container.tag))
  else .ok { b with frames := ⟨container, []⟩ :: b.frames }

/-- The builder behind a leaf. -/
def leaf (f : Factory) (b : Builder) (leaf : Leaf) : Except Failure Builder :=
  match leaf with
  | .base iri => do return { b with base := ← f.resolveIri b.document iri }
  | .binding identifier iri kind => do
    let iri ← f.resolveIri b.base iri
    let binding : Binding := ⟨identifier, iri, kind⟩
    return { b with prefixes := binding :: b.prefixes, bindings := b.bindings ++ [binding] }
  | leaf => do
    match ← b.operand? f leaf with
    | some operand => b.push operand
    | none => pure b

/-- The builder behind the end of a frame that has been taken off. -/
def finish (f : Factory) (b : Builder) (frame : Frame) (tag : Tag) : Except Failure Builder :=
  if frame.container.tag ≠ tag then .error (.builder (.crossed tag frame.container.tag))
  else if frame.container = .document then do
    let (rules, statement) ← Operands.document frame.operands
    return { b with query := some ⟨b.base, b.bindings, rules, statement, []⟩, bindings := [] }
  else do
    b.push (← Operands.complete f frame.container frame.operands)

/-- A builder that a failure leaves as it was. -/
def orUnchanged (b : Builder) : Except Failure Builder → Builder × Option Failure
  | .ok b => (b, none)
  | .error failure => (b, some failure)

end Builder

namespace Building

/-- On this builder the work yields what is told, and changes nothing if that is a failure. -/
def Does (work : Building Unit) (b : Builder) (told : Except Failure Builder) : Prop :=
  work.run b =
    match told with
    | .ok b' => .ok () b'
    | .error failure => .error failure b

variable {f : Factory} {b : Builder}

/-- A step that leaves the builder alone fails before anything is changed. -/
theorem does_demand {α : Type} {r : Except Failure α} {more : α → Building Unit}
    {told : α → Except Failure Builder} (h : ∀ a, (more a).Does b (told a)) :
    Does (demand r >>= more) b (r >>= told) := by
  cases r with
  | error failure => rfl
  | ok a => exact h a

theorem push_does (operand : Operand) : (push operand).Does b (b.push operand) := by
  obtain ⟨document, base, prefixes, bindings, _ | ⟨frame, outer⟩, query⟩ := b <;> rfl

theorem enter_does (container : Container) : (enter container).Does b (b.enter container) := by
  unfold Does Builder.enter
  change (if _ then _ else _ : Building Unit).run b = _
  split
  · rfl
  · split
    · rfl
    · split <;> rfl

theorem leaf_does (item : Leaf) : (leaf f item).Does b (b.leaf f item) := by
  have hoperand : Does (demand (b.operand? f item) >>= fun operand =>
        match operand with
        | some operand => push operand
        | none => pure ()) b
      (b.operand? f item >>= fun operand =>
        match operand with
        | some operand => b.push operand
        | none => pure b) := by
    refine does_demand fun operand => ?_
    cases operand with
    | none => rfl
    | some operand => exact push_does operand
  cases item with
  | base iri => exact does_demand fun base => rfl
  | binding identifier iri kind => exact does_demand fun iri => rfl
  | _ => exact hoperand

theorem finish_does (tag : Tag) (frame : Frame) :
    (finish f tag frame).Does b (b.finish f frame tag) := by
  unfold Does finish Builder.finish
  split
  · rfl
  · split
    · exact does_demand fun parts => rfl
    · exact does_demand fun operand => push_does operand

end Building

namespace Builder

open Building

variable {f : Factory} {b : Builder}

/-- What an event does is told by work that starts where the event has nothing more to check. -/
theorem step_of_does {event : Event} {work : Building Unit} {rest : Builder}
    {told : Except Failure Builder} (hrun : (Building.event f event).run b = work.run rest)
    (h : work.Does rest told) : b.step f event = rest.orUnchanged told := by
  rw [step, hrun, h]
  cases told <;> rfl

theorem step_enter (container : Container) :
    b.step f (.enter container) = b.orUnchanged (b.enter container) :=
  step_of_does rfl (enter_does container)

theorem step_leaf (item : Leaf) : b.step f (.leaf item) = b.orUnchanged (b.leaf f item) :=
  step_of_does rfl (leaf_does item)

/-- Where nothing is open there is no frame to be taken off. -/
theorem step_leave_of_nil (hb : b.frames = []) (tag : Tag) :
    b.step f (.leave tag) = (b, some (.builder (.unopened tag))) := by
  obtain ⟨document, base, prefixes, bindings, frames, query⟩ := b
  obtain rfl : frames = [] := hb
  rfl

/-- The innermost frame is taken off first, whatever becomes of its container. -/
theorem step_leave_of_cons {frame : Frame} {outer : List Frame} (hb : b.frames = frame :: outer)
    (tag : Tag) : b.step f (.leave tag) =
      ({ b with frames := outer } : Builder).orUnchanged
        (({ b with frames := outer } : Builder).finish f frame tag) := by
  obtain ⟨document, base, prefixes, bindings, frames, query⟩ := b
  obtain rfl : frames = frame :: outer := hb
  exact step_of_does rfl (finish_does tag frame)

/-! ## How far a failure reaches -/

/-- The builder behind some events, those that failed included. -/
def behind (f : Factory) (b : Builder) (events : List Event) : Builder :=
  events.foldl (fun b event => (b.step f event).1) b

/-- All that is different behind an event that has failed. -/
structure Contained (event : Event) (b b' : Builder) : Prop where
  document : b'.document = b.document
  base : b'.base = b.base
  prefixes : b'.prefixes = b.prefixes
  bindings : b'.bindings = b.bindings
  query : b'.query = b.query
  /-- Of the open containers a closing event takes away the innermost one, if there is one. -/
  frames : b'.frames =
    match event with
    | .leave _ => b.frames.tail
    | _ => b.frames

theorem orUnchanged_failed {told : Except Failure Builder} {failure : Failure}
    (h : (b.orUnchanged told).2 = some failure) : (b.orUnchanged told).1 = b := by
  cases told with
  | ok b' => cases h
  | error failure' => rfl

/-- Whatever is open, an event that fails is contained. -/
theorem contained_step {event : Event} {failure : Failure} (h : (b.step f event).2 = some failure) :
    Contained event b (b.step f event).1 := by
  cases event with
  | enter c =>
      rw [step_enter] at h ⊢
      rw [orUnchanged_failed h]
      exact ⟨rfl, rfl, rfl, rfl, rfl, rfl⟩
  | leaf item =>
      rw [step_leaf] at h ⊢
      rw [orUnchanged_failed h]
      exact ⟨rfl, rfl, rfl, rfl, rfl, rfl⟩
  | leave tag =>
      cases hframes : b.frames with
      | nil =>
          rw [step_leave_of_nil hframes]
          exact ⟨rfl, rfl, rfl, rfl, rfl, by simp [hframes]⟩
      | cons frame outer =>
          rw [step_leave_of_cons hframes] at h ⊢
          rw [orUnchanged_failed h]
          exact ⟨rfl, rfl, rfl, rfl, rfl, by simp [hframes]⟩

/-- An event that fails behind any events leaves everything as it was but for the innermost
frame, which a closing event takes off. -/
theorem behind_contained (f : Factory) (document : Iri) (events : List Event) {event : Event}
    {failure : Failure}
    (h : (((new document).behind f events).step f event).2 = some failure) :
    Contained event ((new document).behind f events)
      (((new document).behind f events).step f event).1 :=
  contained_step h

/-- A `select` without conditions, closed behind a mismatch that has taken its own frame off. -/
theorem behind_contained_select :
    let b := (new ⟨"http", some "x", "/", none, none⟩).behind .plain
      [.start, .enter .select, .leaf (.atom .var "x"), .enter .condition, .leave .body]
    (b.step .plain (.leave .select)).2 = some (.builder .selectWithoutClauses) ∧
      Contained (.leave .select) b (b.step .plain (.leave .select)).1 ∧
        b.frames.length = 2 ∧ (b.step .plain (.leave .select)).1.frames.length = 1 := by
  intro b
  have hfails : (b.step .plain (.leave .select)).2 = some (.builder .selectWithoutClauses) := rfl
  exact ⟨hfails, behind_contained .plain _ _ hfails, rfl, rfl⟩

end Builder

end TopicQuery
