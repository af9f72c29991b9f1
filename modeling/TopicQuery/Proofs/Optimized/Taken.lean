import TopicQuery.Proofs.Building
import TopicQuery.Proofs.Optimized.Meaning

/-!
The builder and the operands of elements: taking in the events of an element that
lies in an open container adds the operand of the element to that container.
-/

namespace TopicQuery

open Element

variable {f : Factory}

/-! ## Taking in what is replayed -/

namespace Builder

/-- Takes in the events of some elements. -/
def take (f : Factory) (b : Builder) (r : Replay) : Except Failure Builder :=
  b.run f r.events >>= fun b =>
    match r.fault with
    | none => .ok b
    | some fault => .error (.ofTree fault)

/-- The operand of a leaf that is one. -/
def operand (f : Factory) (b : Builder) (item : Leaf) : Except Failure Operand :=
  b.operand? f item >>= fun operand =>
    match operand with
    | some operand => .ok operand
    | none => .error (.builder .incomplete)

theorem run_append (events events' : List Event) (b : Builder) :
    b.run f (events ++ events') = (b.run f events >>= fun b => b.run f events') := by
  induction events generalizing b with
  | nil => rfl
  | cons event events ih =>
      rw [List.cons_append, run, run]
      split
      · exact ih _
      · rfl

theorem run_enter (b : Builder) (c : Container) (events : List Event) :
    b.run f (.enter c :: events) = (b.enter c >>= fun b => b.run f events) := by
  rw [run, step_enter]
  cases b.enter c <;> rfl

theorem run_leaf (b : Builder) (item : Leaf) : b.run f [.leaf item] = b.leaf f item := by
  rw [run, step_leaf]
  cases b.leaf f item <;> rfl

theorem run_leave {b : Builder} {frame : Frame} {outer : List Frame} (hb : b.frames = frame :: outer)
    (tag : Tag) : b.run f [.leave tag] = ({ b with frames := outer } : Builder).finish f frame tag := by
  rw [run, step_leave_of_cons hb]
  cases ({ b with frames := outer } : Builder).finish f frame tag <;> rfl

theorem take_andThen (b : Builder) (r r' : Replay) :
    b.take f (r.andThen r') = (b.take f r >>= fun b => b.take f r') := by
  obtain ⟨events, fault⟩ := r
  cases fault with
  | none =>
      simp only [take, Replay.andThen, run_append]
      cases b.run f events <;> rfl
  | some fault =>
      simp only [take, Replay.andThen]
      cases b.run f events <;> rfl

theorem take_within (b : Builder) (c : Container) (r : Replay) :
    b.take f (r.within c) =
      (b.enter c >>= fun b => b.take f r >>= fun b => b.run f [.leave c.tag]) := by
  obtain ⟨events, fault⟩ := r
  cases fault with
  | none =>
      simp only [take, Replay.within, List.cons_append, run_enter, run_append]
      cases b.enter c with
      | error failure => rfl
      | ok b' =>
          cases hrun : b'.run f events with
          | error failure => simp [hrun, bind, Except.bind]
          | ok b'' =>
              simp only [hrun, bind, Except.bind]
              cases b''.run f [.leave c.tag] <;> rfl
  | some fault =>
      simp only [take, Replay.within, run_enter]
      cases b.enter c with
      | error failure => rfl
      | ok b' =>
          cases hrun : b'.run f events <;> simp [hrun, bind, Except.bind]

/-- The operand of a leaf does not depend on what is open. -/
theorem operand_congr {b b' : Builder} (hbase : b.base = b'.base)
    (hprefixes : b.prefixes = b'.prefixes) : b.operand f = b'.operand f := by
  obtain ⟨document, base, prefixes, bindings, frames, query⟩ := b
  obtain ⟨document', base', prefixes', bindings', frames', query'⟩ := b'
  obtain rfl : base = base' := hbase
  obtain rfl : prefixes = prefixes' := hprefixes
  funext item
  cases item with
  | qname kind name => cases kind <;> rfl
  | literal value datatype => cases datatype <;> rfl
  | atom kind value => cases kind <;> rfl
  | _ => rfl

/-- A leaf that is no directive adds its operand. -/
theorem leaf_eq (b : Builder) {item : Leaf} (hbase : ∀ iri, item ≠ .base iri)
    (hbinding : ∀ identifier iri kind, item ≠ .binding identifier iri kind) :
    b.leaf f item = (b.operand f item >>= b.push) := by
  have hsome : ∀ r : Except Failure (Option Operand), (∀ o, r = .ok o → o.isSome = true) →
      (r >>= fun o =>
        match o with
        | some operand => b.push operand
        | none => pure b) =
      ((r >>= fun o =>
        match o with
        | some operand => Except.ok operand
        | none => .error (.builder .incomplete)) >>= b.push) := by
    intro r hr
    cases r with
    | error failure => rfl
    | ok o =>
        obtain ⟨operand, rfl⟩ := Option.isSome_iff_exists.mp (hr o rfl)
        rfl
  have hoperand : ∀ o, b.operand? f item = .ok o → o.isSome = true := by
    have hmap : ∀ {α : Type} {r : Except Failure α} {g : α → Operand} {o : Option Operand},
        (r >>= fun a => .ok (some (g a))) = .ok o → o.isSome = true := by
      intro α r g o h
      cases r with
      | error failure => cases h
      | ok a =>
          cases h
          rfl
    intro o ho
    cases item with
    | base iri => exact absurd rfl (hbase iri)
    | binding identifier iri kind => exact absurd rfl (hbinding identifier iri kind)
    | content text =>
        cases ho
        rfl
    | order name descending =>
        cases ho
        rfl
    | limit number =>
        cases ho
        rfl
    | offset number =>
        cases ho
        rfl
    | atom kind value => exact hmap ho
    | count name => exact hmap ho
    | curie kind name => exact hmap ho
    | qname kind name => cases kind <;> exact hmap ho
    | literal value datatype => cases datatype <;> exact hmap ho
  cases item with
  | base iri => exact absurd rfl (hbase iri)
  | binding identifier iri kind => exact absurd rfl (hbinding identifier iri kind)
  | _ => exact hsome _ hoperand

end Builder

/-! ## Elements inside a container -/

/-- No directive lies in the element. -/
inductive Element.Inside : Element → Prop
  | intro {e : Element} (base : e.name ≠ "base") (binding : e.name ≠ "namespace")
      (children : ∀ c ∈ e.children, Inside c) : Inside e

namespace Builder

theorem enter_inside {b : Builder} (hquery : b.query = none) (hframes : b.frames ≠ [])
    (c : Container) : b.enter c =
      if c = .document then .error (.builder .nestedStart)
      else .ok { b with frames := ⟨c, []⟩ :: b.frames } := by
  unfold enter
  simp [hquery, hframes]

theorem leaf_name_ne {e : Element} {item : Leaf} (h : e.leaf = .ok item)
    (hbase : e.name ≠ "base") (hbinding : e.name ≠ "namespace") :
    (∀ iri, item ≠ .base iri) ∧ ∀ identifier iri kind, item ≠ .binding identifier iri kind := by
  have hmap : ∀ {α : Type} {r : Except TreeFault α} {g : α → Leaf},
      (∀ a, (∀ iri, g a ≠ .base iri) ∧ ∀ identifier iri kind, g a ≠ .binding identifier iri kind) →
      (r >>= fun a => .ok (g a)) = .ok item →
      (∀ iri, item ≠ .base iri) ∧ ∀ identifier iri kind, item ≠ .binding identifier iri kind := by
    intro α r g hg hr
    obtain ⟨a, -, ha⟩ := ok_of_bind hr
    cases ha
    exact hg a
  unfold Element.leaf at h
  split at h
  · exact hmap (by simp) h
  · unfold Element.otherLeaf at h
    split at h
    · exact absurd ‹_› hbase
    · exact absurd ‹_› hbinding
    · cases h
      simp
    · exact hmap (by simp) h
    · exact hmap (by simp) h
    · exact hmap (by simp) h
    · exact hmap (by simp) h
    · exact hmap (by simp) h
    · exact hmap (by simp) h
    · exact hmap (by simp) h
    · obtain ⟨datatype, -, hrest⟩ := ok_of_bind h
      exact hmap (by simp) hrest
    · cases h

theorem take_leaf (b : Builder) (item : Leaf) : b.take f ⟨[.leaf item], none⟩ = b.leaf f item := by
  rw [take, run_leaf]
  cases b.leaf f item <;> rfl

mutual

/-- Taking in an element adds its operand to the innermost container. -/
theorem take_replay (e : Element) (h : e.Inside) {b : Builder} (hquery : b.query = none)
    (hframes : b.frames ≠ []) : b.take f e.replay = (e.meaning f (b.operand f) >>= b.push) := by
  match e with
  | ⟨name, attributes, text, children⟩ =>
      obtain ⟨hbase, hbinding, hchildren⟩ := h
      rw [replay, meaning]
      cases htag : Tag.ofName? name with
      | some tag =>
          dsimp only
          cases hcontainer : Element.container ⟨name, attributes, text, children⟩ tag with
          | error fault => rfl
          | ok c =>
              dsimp only [Except.orFailure]
              rw [take_within, enter_inside hquery hframes, ok_bind]
              by_cases hc : c = .document
              · rw [if_pos hc, if_pos hc]
                rfl
              · rw [if_neg hc, if_neg hc, ok_bind, take_replayAll children hchildren hquery]
                cases meanings f (b.operand f) children with
                | error failure => rfl
                | ok operands =>
                    rw [ok_bind, ok_bind, ok_bind, run_leave rfl, finish, List.nil_append,
                      if_neg (by simp), if_neg hc]
      | none =>
          dsimp only
          cases hleaf : Element.leaf ⟨name, attributes, text, children⟩ with
          | error fault => rfl
          | ok item =>
              obtain ⟨hnotBase, hnotBinding⟩ := leaf_name_ne hleaf hbase hbinding
              dsimp only [Except.orFailure]
              rw [ok_bind]
              by_cases hempty : children.isEmpty = true
              · rw [if_pos hempty, if_pos hempty, take_leaf, leaf_eq b hnotBase hnotBinding]
              · rw [if_neg hempty, if_neg hempty]
                rfl

/-- Taking in elements adds their operands one after the other. -/
theorem take_replayAll (es : List Element) (h : ∀ e ∈ es, e.Inside) {b : Builder}
    (hquery : b.query = none) {c : Container} {operands : List Operand} {outer : List Frame} :
    ({ b with frames := ⟨c, operands⟩ :: outer } : Builder).take f (replayAll es) =
      (meanings f (b.operand f) es >>= fun more =>
        .ok { b with frames := ⟨c, operands ++ more⟩ :: outer }) := by
  match es with
  | [] => simp [replayAll, meanings, take, Replay.none, run, ok_bind]
  | e :: es =>
      have hfirst : ({ b with frames := ⟨c, operands⟩ :: outer } : Builder).take f e.replay =
          (e.meaning f (b.operand f) >>= fun first =>
            .ok { b with frames := ⟨c, operands ++ [first]⟩ :: outer }) := by
        refine (take_replay e (h e (by simp)) (b := { b with frames := ⟨c, operands⟩ :: outer })
          hquery (by simp)).trans ?_
        rw [@operand_congr f _ b rfl rfl]
        rfl
      rw [replayAll, take_andThen, hfirst, meanings]
      cases e.meaning f (b.operand f) with
      | error failure => rfl
      | ok first =>
          rw [ok_bind, ok_bind, ok_bind, take_replayAll es (fun e he => h e (by simp [he])) hquery]
          cases meanings f (b.operand f) es with
          | error failure => rfl
          | ok more =>
              rw [ok_bind, ok_bind, List.append_assoc]
              rfl

end

end Builder

end TopicQuery
