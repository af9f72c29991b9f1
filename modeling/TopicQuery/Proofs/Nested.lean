import TopicQuery.Proofs.Compositional
import TopicQuery.Proofs.Outline

/-!
The events of a text are well nested. A recognizer nests if what it reports is
the walk through some outlines when it succeeds, and the beginning of such a walk
when it ends with a mistake. Every recognizer of the grammar nests, because the
steps they are built from do; so the events of a text are the beginning of a
document, and all of one when the text is accepted. What may come at any point of
such a beginning is told by the containers that are open there.
-/

namespace TopicQuery

/-! ## Beginnings of well-nested streams -/

namespace Nesting

/-- The containers open behind some events, the innermost first. -/
def openAfter (opened : List Tag) (events : List Event) : List Tag :=
  events.foldl
    (fun opened event =>
      match event with
      | .enter c => c.tag :: opened
      | .leave _ => opened.tail
      | .leaf _ => opened)
    opened

/-- The event can come while these containers are open: a closing must close the innermost. -/
def Follows (opened : List Tag) : Event → Prop
  | .leave tag => opened.head? = some tag
  | _ => opened ≠ []

/-- A beginning of a well-nested stream. -/
structure Beginning (events : List Event) : Prop where
  /-- It begins with the start of the document. -/
  starts : events.head? = some .start
  /-- Every later event comes inside the document and closes nothing but the innermost container. -/
  follows : ∀ before event after, events = before ++ event :: after → before ≠ [] →
    Follows (openAfter [] before) event
  /-- More events can complete it. -/
  completes : ∃ rest, check (events ++ rest) = .ok ()

theorem step_ok {index : Nat} {opened next : List Tag} {event : Event}
    (h : step index opened event = .ok next) :
    next = openAfter opened [event] ∧ (opened ≠ [] → Follows opened event) := by
  cases event with
  | enter c =>
      simp only [step, Except.ok.injEq] at h
      exact ⟨h.symm, fun hne => hne⟩
  | leaf item =>
      cases opened with
      | nil => simp [step] at h
      | cons innermost outer =>
          simp only [step, Except.ok.injEq] at h
          exact ⟨h.symm, fun hne => hne⟩
  | leave tag =>
      cases opened with
      | nil => simp [step] at h
      | cons innermost outer =>
          by_cases htag : innermost = tag
          · simp only [step, htag, if_true, Except.ok.injEq] at h
            exact ⟨h.symm, fun _ => by simp [Follows, htag]⟩
          · simp [step, htag] at h

/-- A list that passes the check from some open containers on has every event in its place. -/
theorem follows_of_checkFrom {events : List Event} :
    ∀ {index : Nat} {opened : List Tag}, opened ≠ [] → checkFrom index opened events = .ok () →
      ∀ before event after, events = before ++ event :: after →
        Follows (openAfter opened before) event := by
  induction events with
  | nil =>
      intro index opened _ _ before event after hsplit
      simp at hsplit
  | cons first rest ih =>
      intro index opened hopen hcheck before event after hsplit
      simp only [checkFrom, bind, Except.bind] at hcheck
      cases hstep : step index opened first with
      | error fault => simp [hstep] at hcheck
      | ok next =>
          obtain ⟨hnext, hfollows⟩ := step_ok hstep
          simp only [hstep] at hcheck
          cases before with
          | nil =>
              obtain ⟨rfl, -⟩ : first = event ∧ rest = after := by simpa using hsplit
              exact hfollows hopen
          | cons b before =>
              obtain ⟨rfl, hrest⟩ : first = b ∧ rest = before ++ event :: after := by
                simpa using hsplit
              have hnonempty : next.isEmpty = false := by
                cases hempty : next.isEmpty with
                | false => rfl
                | true => simp [hempty, hrest] at hcheck
              have hcheck' : checkFrom (index + 1) next rest = .ok () := by
                simpa [hnonempty] using hcheck
              have hlater := ih (by simpa using hnonempty) hcheck' before event after hrest
              rw [hnext] at hlater
              exact hlater

/-- Every beginning of the events of a document is a beginning of a well-nested stream. -/
theorem beginning_of_prefix {events : List Event} (inner : List Outline) (hne : events ≠ [])
    (h : events <+: (Outline.within .document inner).events) : Beginning events := by
  obtain ⟨rest, hrest⟩ := h
  have hcheck : check (events ++ rest) = .ok () := by
    rw [hrest]
    exact Outline.check_document inner
  obtain ⟨first, others, rfl⟩ := List.exists_cons_of_ne_nil hne
  have hfirst : first = .start := by
    have := congrArg List.head? hrest
    simpa [Outline.events, Event.start] using this
  subst hfirst
  refine ⟨rfl, ?_, rest, hcheck⟩
  intro before event after hsplit hbefore
  obtain ⟨b, before, rfl⟩ := List.exists_cons_of_ne_nil hbefore
  obtain ⟨rfl, hothers⟩ : Event.start = b ∧ others = before ++ event :: after := by
    simpa using hsplit
  have hbody : checkFrom 1 [.document] (others ++ rest) = .ok () := by
    cases hlast : (others ++ rest).isEmpty with
    | true =>
        have : others = [] := by
          have := List.isEmpty_iff.mp hlast
          exact (List.append_eq_nil_iff.mp this).1
        simp [this] at hothers
    | false =>
        simpa [check, checkFrom, step, Event.start, Container.tag, bind, Except.bind] using hcheck
  exact follows_of_checkFrom (by simp) hbody before event (after ++ rest) (by simp [hothers])

end Nesting

namespace Grammar

open Parser

/-! ## Recognizers that nest -/

/-- A reply whose events are a walk through outlines, or the beginning of one before a mistake. -/
def Reply.Nests {α : Type} (r : Reply α) : Prop :=
  match r.result with
  | .ok _ => ∃ os, r.events = Outline.eventsAll os
  | .error _ => ∃ os, r.events <+: Outline.eventsAll os

/-- A recognizer that nests in every state. -/
def Parser.Nests {α : Type} (p : Parser α) : Prop := ∀ s, (p s).Nests

section Steps

variable {α β : Type}

theorem nests_silent {p : Parser α} (h : ∀ s, (p s).events = []) : p.Nests := by
  intro s
  unfold Reply.Nests
  split
  · exact ⟨[], by simp [h s, Outline.eventsAll]⟩
  · exact ⟨[], by simp [h s]⟩

theorem nests_value (a : α) : (pure a : Parser α).Nests := nests_silent fun _ => rfl

theorem nests_fail (fault : ParseFault) : (fail fault : Parser α).Nests := nests_silent fun _ => rfl

theorem nests_state : state.Nests := nests_silent fun _ => rfl

theorem nests_change (f : State → State) : (change f).Nests := nests_silent fun _ => rfl

theorem nests_leaf (item : Leaf) : (emit (.leaf item)).Nests :=
  fun _ => ⟨[.leaf item], by simp [emit, Outline.events]⟩

theorem nests_bind {p : Parser α} {f : α → Parser β} (hp : p.Nests) (hf : ∀ a, (f a).Nests) :
    (p >>= f).Nests := by
  intro s
  have h := hp s
  change (next p f s).Nests
  unfold next
  generalize p s = reply at h
  obtain ⟨events, result⟩ := reply
  cases result with
  | error fault => exact h
  | ok value =>
      obtain ⟨a, s'⟩ := value
      obtain ⟨os, hos⟩ : ∃ os, events = Outline.eventsAll os := h
      have h' := hf a s'
      unfold Reply.Nests at h' ⊢
      dsimp only
      split at h'
      · obtain ⟨ps, hps⟩ := h'
        exact ⟨os ++ ps, by simp [hos, hps]⟩
      · obtain ⟨ps, hps⟩ := h'
        exact ⟨os ++ ps, by simpa [hos] using hps⟩

/-- What a recognizer reports inside a container, in full. -/
theorem within_apply (c : Container) (p : Parser Unit) (s : State) :
    within c p s =
      match p s with
      | ⟨events, .error fault⟩ => ⟨.enter c :: events, .error fault⟩
      | ⟨events, .ok (_, s')⟩ => ⟨.enter c :: (events ++ [.leave c.tag]), .ok ((), s')⟩ := by
  change next (emit (.enter c)) (fun _ => next p fun _ => emit (.leave c.tag)) s = _
  simp only [next, emit]
  generalize p s = reply
  obtain ⟨events, result⟩ := reply
  cases result with
  | error fault => rfl
  | ok value => rfl

theorem nests_within (c : Container) {p : Parser Unit} (hp : p.Nests) : (within c p).Nests := by
  intro s
  have h := hp s
  rw [within_apply]
  generalize p s = reply at h
  obtain ⟨events, result⟩ := reply
  cases result with
  | error fault =>
      obtain ⟨os, hos⟩ : ∃ os, events <+: Outline.eventsAll os := h
      refine ⟨[.within c os], ?_⟩
      simpa [Outline.events] using hos.trans (List.prefix_append _ _)
  | ok value =>
      obtain ⟨os, hos⟩ : ∃ os, events = Outline.eventsAll os := h
      exact ⟨[.within c os], by simp [Outline.events, hos]⟩

end Steps

/-- The steps of the grammar nest, and so do recognizers that are put together from them. -/
theorem compositional_nests : Compositional @Parser.Nests where
  value := nests_value
  fail := nests_fail
  leaf := nests_leaf
  within := nests_within
  bind := nests_bind
  read hf _ := nests_bind nests_state hf
  change _ := nests_change _
  requirePlus t what := by
    refine nests_bind nests_state fun s => ?_
    split
    · exact nests_value _
    · exact nests_fail _

/-- What a document reports inside its own container. -/
theorem nests_content (n : Nat) :
    (do directives n; rules n; ending : Parser Unit).Nests :=
  compositional_nests.content n

end Grammar

open Grammar

/--
The events of a text are the beginning of a well-nested stream. When the text is
accepted they are all of one: they pass the nesting check, end with the end of the
document, and close as many elements of every name as they open.
-/
theorem parse_nested (text : String) (plus : Bool) :
    Nesting.Beginning (parse text plus).events ∧
      ((parse text plus).fault = none →
        Nesting.check (parse text plus).events = .ok () ∧
          (parse text plus).events.getLast? = some .finish ∧
          ∀ name, Outline.openings name (parse text plus).events =
            Outline.closings name (parse text plus).events) := by
  have hcontent := nests_content (scan text).tokens.length (initial (scan text) plus)
  have hdocument : document (initial (scan text) plus) =
      within .document (do
        directives (scan text).tokens.length
        rules (scan text).tokens.length
        ending) (initial (scan text) plus) := rfl
  unfold parse
  rw [hdocument, within_apply]
  generalize ((do
    directives (scan text).tokens.length
    rules (scan text).tokens.length
    ending : Parser Unit) (initial (scan text) plus)) = reply at hcontent
  obtain ⟨events, result⟩ := reply
  cases result with
  | error fault =>
      obtain ⟨os, hos⟩ : ∃ os, events <+: Outline.eventsAll os := hcontent
      refine ⟨Nesting.beginning_of_prefix os (by simp) ?_, fun h => by simp at h⟩
      simpa [Outline.events] using hos.trans (List.prefix_append _ _)
  | ok value =>
      obtain ⟨os, rfl⟩ : ∃ os, events = Outline.eventsAll os := hcontent
      have hevents : Event.enter .document ::
          (Outline.eventsAll os ++ [Event.leave Container.document.tag]) =
            (Outline.within .document os).events := by
        simp [Outline.events]
      dsimp only
      rw [hevents]
      refine ⟨Nesting.beginning_of_prefix os (by simp [Outline.events])
        (List.prefix_refl _), fun _ => ⟨Outline.check_document os, ?_, fun name =>
          Outline.openings_eq_closings name _⟩⟩
      rw [← hevents, ← List.cons_append]
      exact List.getLast?_concat

end TopicQuery
