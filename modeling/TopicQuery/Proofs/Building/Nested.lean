import TopicQuery.Proofs.Optimized.Taken
import TopicQuery.Proofs.Tree.Nesting

/-!
Only well-nested events make a query. Directives may stand anywhere, also in front of the
document and behind it. Of the other events the builder takes in nothing but a document: the
start, then whatever lies in it, where the open frames are those of the containers that the
nesting check has open, and the end, behind which it takes in nothing more.
-/

namespace TopicQuery

/-- The event only settles how terms are read. -/
def Event.isDirective : Event → Bool
  | .leaf (.base _) => true
  | .leaf (.binding _ _ _) => true
  | _ => false

/-- The events without the directives. -/
def Event.undirected (events : List Event) : List Event := events.filter (!·.isDirective)

open Event (undirected)

theorem Event.undirected_of_directive {event : Event} {events : List Event}
    (h : event.isDirective = true) : undirected (event :: events) = undirected events := by
  simp [undirected, h]

theorem Event.undirected_of_not {event : Event} {events : List Event}
    (h : event.isDirective = false) :
    undirected (event :: events) = event :: undirected events := by
  simp [undirected, h]

/-! ## The rest of a document -/

namespace Nesting

/-- With these containers open the events lead to the end of the document, and not beyond it. -/
structure Completes (opened : List Tag) (events : List Event) : Prop where
  checked : ∀ index, checkFrom index opened events = .ok ()
  starts : events.count .start = 0
  finishes : events.count .finish = 1
  last : events.getLast? = some .finish

theorem completes_finish : Completes [.document] [.finish] :=
  ⟨fun _ => rfl, rfl, rfl, rfl⟩

/-- Behind an event that does not end the document the end is still the last one. -/
theorem Completes.last_cons {opened : List Tag} {events : List Event} (h : Completes opened events)
    (event : Event) : (event :: events).getLast? = some .finish := by
  have hevents : events ≠ [] := by
    rintro rfl
    cases h.last
  rw [List.getLast?_cons_of_ne_nil hevents]
  exact h.last

theorem Completes.cons {opened next : List Tag} {event : Event} {events : List Event}
    (h : Completes next events) (hstep : ∀ index, step index opened event = .ok next)
    (hnext : next ≠ []) (hstart : event ≠ .start) (hfinish : event ≠ .finish) :
    Completes opened (event :: events) where
  checked index := (checkFrom_of_step (hstep index) hnext).trans (h.checked _)
  starts := (List.count_cons_of_ne hstart).trans h.starts
  finishes := (List.count_cons_of_ne hfinish).trans h.finishes
  last := h.last_cons event

end Nesting

/-! ## Events that the builder takes in -/

namespace Builder

/-- The open containers, the innermost first. -/
def opened (b : Builder) : List Container := b.frames.map Frame.container

/-- What an event that is taken in does to the open containers and the finished query. -/
inductive Takes (b b' : Builder) : Event → Prop
  | directive {event : Event} (h : event.isDirective = true) (opened : b'.opened = b.opened)
      (query : b'.query = b.query) : Takes b b' event
  | enter {c : Container} (fresh : b.query = none) (outermost : c = .document ↔ b.opened = [])
      (opened : b'.opened = c :: b.opened) (query : b'.query = none) : Takes b b' (.enter c)
  | leaf {item : Leaf} (h : Event.isDirective (.leaf item) = false) (inside : b.opened ≠ [])
      (opened : b'.opened = b.opened) (query : b'.query = b.query) : Takes b b' (.leaf item)
  | leave {c : Container} {outer : List Container} (inner : c ≠ .document)
      (before : b.opened = c :: outer) (opened : b'.opened = outer) (query : b'.query = b.query) :
      Takes b b' (.leave c.tag)
  | finish {outer : List Container} (before : b.opened = .document :: outer)
      (opened : b'.opened = outer) (query : b'.query ≠ none) : Takes b b' .finish

variable {f : Factory} {b b' : Builder} {event : Event} {events : List Event}

theorem of_push {operand : Operand} (h : b.push operand = .ok b') :
    b.opened ≠ [] ∧ b'.opened = b.opened ∧ b'.query = b.query := by
  obtain ⟨document, base, prefixes, bindings, _ | ⟨frame, outer⟩, query⟩ := b
  · cases h
  · cases h
    exact ⟨List.cons_ne_nil _ _, rfl, rfl⟩

theorem takes_enter {c : Container} (h : b.enter c = .ok b') : Takes b b' (.enter c) := by
  have hopened : b.opened = [] ↔ b.frames = [] := List.map_eq_nil_iff
  unfold enter at h
  split at h
  · cases h
  · next hquery =>
    split at h
    · cases h
    · next hnested =>
      split at h
      · cases h
      · next hbefore =>
        cases h
        have hfresh : b.query = none := by simpa using hquery
        refine .enter hfresh ⟨fun hc => ?_, fun hempty => ?_⟩ rfl hfresh
        · exact hopened.mpr (by simpa [hc] using hnested)
        · simpa [hopened.mp hempty] using hbefore

theorem takes_leaf {item : Leaf} (h : b.leaf f item = .ok b') : Takes b b' (.leaf item) := by
  by_cases hdirective : Event.isDirective (.leaf item) = true
  · cases item with
    | base iri =>
        obtain ⟨base, -, hb⟩ := ok_of_bind h
        cases hb
        exact .directive rfl rfl rfl
    | binding identifier iri kind =>
        obtain ⟨iri, -, hb⟩ := ok_of_bind h
        cases hb
        exact .directive rfl rfl rfl
    | _ => cases hdirective
  · have hbase : ∀ iri, item ≠ .base iri := by
      rintro iri rfl
      exact hdirective rfl
    have hbinding : ∀ identifier iri kind, item ≠ .binding identifier iri kind := by
      rintro identifier iri kind rfl
      exact hdirective rfl
    rw [leaf_eq b hbase hbinding] at h
    obtain ⟨operand, -, hpush⟩ := ok_of_bind h
    obtain ⟨hinside, hopened, hquery⟩ := of_push hpush
    exact .leaf (by simpa using hdirective) hinside hopened hquery

theorem takes_leave {frame : Frame} {outer : List Frame} {tag : Tag}
    (hframes : b.frames = frame :: outer)
    (h : ({ b with frames := outer } : Builder).finish f frame tag = .ok b') :
    Takes b b' (.leave tag) := by
  have hbefore : b.opened = frame.container :: outer.map Frame.container := by
    rw [opened, hframes, List.map_cons]
  unfold finish at h
  split at h
  · cases h
  · next htag =>
    obtain rfl : frame.container.tag = tag := by simpa using htag
    split at h
    · next hdocument =>
      obtain ⟨parts, -, hb⟩ := ok_of_bind h
      cases hb
      rw [hdocument] at hbefore ⊢
      exact .finish hbefore rfl (Option.some_ne_none _)
    · next hinner =>
      obtain ⟨operand, -, hpush⟩ := ok_of_bind h
      obtain ⟨-, hopened, hquery⟩ := of_push hpush
      exact .leave hinner hbefore hopened hquery

/-- An event is taken in as one of these. -/
theorem takes_of_step (h : b.step f event = (b', none)) : Takes b b' event := by
  have hok : ∀ {b : Builder} {told : Except Failure Builder},
      b.orUnchanged told = (b', none) → told = .ok b' := by
    intro b told h
    cases told with
    | ok b'' =>
        cases h
        rfl
    | error failure => cases h
  cases event with
  | enter c => exact takes_enter (hok ((step_enter c).symm.trans h))
  | leaf item => exact takes_leaf (hok ((step_leaf item).symm.trans h))
  | leave tag =>
      cases hframes : b.frames with
      | nil =>
          rw [step_leave_of_nil hframes] at h
          cases h
      | cons frame outer =>
          exact takes_leave hframes (hok ((step_leave_of_cons hframes tag).symm.trans h))

theorem run_cons (h : b.run f (event :: events) = .ok b') :
    ∃ next, Takes b next event ∧ next.run f events = .ok b' := by
  rw [run] at h
  split at h
  · next next hstep => exact ⟨next, takes_of_step hstep, h⟩
  · cases h

/-! ## Runs -/

/-- The containers open inside a document: it is the outermost one, and no other is one. -/
def Rooted (opened : List Container) : Prop :=
  ∃ inner, opened = inner ++ [.document] ∧ Container.document ∉ inner

theorem Rooted.cons {c : Container} {opened : List Container} (h : Rooted opened)
    (hc : c ≠ .document) : Rooted (c :: opened) := by
  obtain ⟨inner, rfl, hinner⟩ := h
  exact ⟨c :: inner, rfl, by simp [hc.symm, hinner]⟩

theorem Rooted.ne_nil {opened : List Container} (h : Rooted opened) : opened ≠ [] := by
  obtain ⟨inner, rfl, -⟩ := h
  simp

/-- Without the innermost container the others are still rooted, if it is not the document. -/
theorem Rooted.tail {c : Container} {outer : List Container} (h : Rooted (c :: outer)) :
    (c = .document ∧ outer = []) ∨ (c ≠ .document ∧ Rooted outer) := by
  obtain ⟨_ | ⟨c', inner⟩, hsplit, hinner⟩ := h
  · exact .inl (by simpa using hsplit)
  · obtain ⟨rfl, rfl⟩ : c = c' ∧ outer = inner ++ [Container.document] := by simpa using hsplit
    rw [List.mem_cons, not_or] at hinner
    exact .inr ⟨Ne.symm hinner.1, inner, rfl, hinner.2⟩

/-- Behind the document only directives are taken in. -/
theorem undirected_of_ended (hopened : b.opened = []) (hquery : b.query ≠ none)
    (hrun : b.run f events = .ok b') : undirected events = [] := by
  induction events generalizing b with
  | nil => rfl
  | cons event events ih =>
      obtain ⟨next, htakes, hrest⟩ := run_cons hrun
      cases htakes with
      | directive hdirective hopened' hquery' =>
          rw [Event.undirected_of_directive hdirective]
          exact ih (hopened'.trans hopened) (hquery' ▸ hquery) hrest
      | enter hfresh => exact absurd hfresh hquery
      | leaf _ hinside => exact absurd hopened hinside
      | leave _ hbefore => simp [hopened] at hbefore
      | finish hbefore => simp [hopened] at hbefore

/-- Inside the document the events lead to its end. -/
theorem completes_of_rooted (hrooted : Rooted b.opened) (hfresh : b.query = none)
    (hrun : b.run f events = .ok b') (hquery : b'.query ≠ none) :
    Nesting.Completes (b.opened.map Container.tag) (undirected events) := by
  induction events generalizing b with
  | nil =>
      cases hrun
      exact absurd hfresh hquery
  | cons event events ih =>
      obtain ⟨next, htakes, hrest⟩ := run_cons hrun
      cases htakes with
      | directive hdirective hopened hsame =>
          rw [Event.undirected_of_directive hdirective, ← hopened]
          exact ih (hopened ▸ hrooted) (hsame.trans hfresh) hrest
      | @enter c _ houtermost hopened hnext =>
          have hc : c ≠ .document := fun hc => hrooted.ne_nil (houtermost.mp hc)
          have hrest := ih (hopened ▸ hrooted.cons hc) hnext hrest
          rw [Event.undirected_of_not rfl]
          refine hrest.cons (fun index => ?_) (by simp [hopened]) (by simpa [Event.start])
            (by simp [Event.finish])
          rw [hopened]
          rfl
      | leaf hitem hinside hopened hsame =>
          have hrest := ih (hopened ▸ hrooted) (hsame.trans hfresh) hrest
          rw [Event.undirected_of_not hitem]
          refine hrest.cons (fun index => ?_) (by simpa [hopened])
            (by simp [Event.start]) (by simp [Event.finish])
          obtain ⟨c, outer, hopened'⟩ := List.exists_cons_of_ne_nil hinside
          rw [hopened, hopened']
          rfl
      | @leave c outer hc hbefore hopened hsame =>
          obtain ⟨hdocument, -⟩ | ⟨-, houter⟩ := (hbefore ▸ hrooted).tail
          · exact absurd hdocument hc
          · have hrest := ih (hopened ▸ houter) (hsame.trans hfresh) hrest
            rw [Event.undirected_of_not rfl]
            refine hrest.cons (fun index => ?_) (by simpa [hopened] using houter.ne_nil)
              (by simp [Event.start]) ?_
            · rw [hbefore, hopened]
              exact if_pos rfl
            · simpa [Event.finish] using fun h => hc (Container.eq_document_of_tag h)
      | @finish outer hbefore hopened hfound =>
          obtain ⟨-, rfl⟩ | ⟨hdocument, -⟩ := (hbefore ▸ hrooted).tail
          · rw [Event.undirected_of_not rfl, undirected_of_ended hopened hfound hrest, hbefore]
            exact Nesting.completes_finish
          · exact absurd rfl hdocument

/-- In front of the document only directives are taken in. -/
theorem exists_start (hopened : b.opened = []) (hfresh : b.query = none)
    (hrun : b.run f events = .ok b') (hquery : b'.query ≠ none) :
    ∃ rest, undirected events = .start :: rest ∧ Nesting.Completes [.document] rest := by
  induction events generalizing b with
  | nil =>
      cases hrun
      exact absurd hfresh hquery
  | cons event events ih =>
      obtain ⟨next, htakes, hrest⟩ := run_cons hrun
      cases htakes with
      | directive hdirective hopened' hsame =>
          rw [Event.undirected_of_directive hdirective]
          exact ih (hopened'.trans hopened) (hsame.trans hfresh) hrest
      | enter _ houtermost hopened' hnext =>
          obtain rfl := houtermost.mpr hopened
          rw [hopened] at hopened'
          have hrooted : Rooted next.opened := ⟨[], hopened', List.not_mem_nil⟩
          have hcompletes := completes_of_rooted hrooted hnext hrest hquery
          rw [hopened'] at hcompletes
          exact ⟨_, Event.undirected_of_not rfl, hcompletes⟩
      | leaf _ hinside => exact absurd hopened hinside
      | leave _ hbefore => simp [hopened] at hbefore
      | finish hbefore => simp [hopened] at hbefore

/--
Events that are all taken in and yield a query are a document, but for directives: they pass
the nesting check, start once, end once, and the end comes last.
-/
theorem run_nested {document : Iri} {query : Query} (hrun : (new document).run f events = .ok b)
    (hresult : b.result = .ok query) :
    Nesting.check (undirected events) = .ok () ∧ (undirected events).count .start = 1 ∧
      (undirected events).count .finish = 1 ∧ (undirected events).getLast? = some .finish := by
  have hquery : b.query ≠ none := by
    intro hnone
    rw [result, hnone] at hresult
    cases hresult
  obtain ⟨rest, hevents, hcompletes⟩ := exists_start rfl rfl hrun hquery
  rw [hevents]
  refine ⟨(Nesting.check_enter .document rest).mpr ⟨rfl, hcompletes.checked 1⟩, ?_, ?_,
    hcompletes.last_cons .start⟩
  · rw [List.count_cons_self, hcompletes.starts]
  · rw [List.count_cons_of_ne (by decide), hcompletes.finishes]

/-- Directives in front of the document, in it and behind it. -/
theorem run_nested_directives :
    let events := [.leaf (.base "m/"), .start, .leaf (.binding "p" "q#" .subjectIdentifier),
      .enter .select, .leaf (.atom .var "x"), .enter .condition, .enter .call, .enter .callee,
      .leaf (.qname .subjectIdentifier ⟨"p", "r"⟩), .leave .callee, .leaf (.atom .var "x"),
      .leave .call, .leave .condition, .leave .select, .finish, .leaf (.base "n/")]
    ∃ b query, (new ⟨"http", some "x", "/", none, none⟩).run .plain events = .ok b ∧
      b.result = .ok query ∧ Nesting.check (undirected events) = .ok () ∧
        (undirected events).count .start = 1 ∧ (undirected events).count .finish = 1 ∧
          (undirected events).getLast? = some .finish := by
  intro events
  have hfinished : (((new ⟨"http", some "x", "/", none, none⟩).run .plain events).toOption.bind
      Builder.query).isSome = true := by
    decide +kernel
  obtain ⟨query, hquery⟩ := Option.isSome_iff_exists.mp hfinished
  cases hrun : (new ⟨"http", some "x", "/", none, none⟩).run .plain events with
  | error failure =>
      rw [hrun] at hquery
      cases hquery
  | ok b =>
      have hresult : b.result = .ok query := by
        rw [hrun] at hquery
        rw [result, show b.query = some query from hquery]
      exact ⟨b, query, rfl, hresult, run_nested hrun hresult⟩

end Builder

end TopicQuery
