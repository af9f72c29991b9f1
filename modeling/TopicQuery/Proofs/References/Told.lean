import TopicQuery.Proofs.Compositional
import TopicQuery.Proofs.Recognized.Statement
import TopicQuery.Proofs.References

/-!
Recognizers that tell the references of a text. What such a recognizer reports is allowed,
and it reports the prefixed names in the tokens that it takes; if it ends with a mistake,
it has reported the first of those ahead of it. Recognizers tell what they should when
they are put together from steps that do.
-/

namespace TopicQuery.Grammar

open Parser Phrase

/-! ## Recognizers that report nothing -/

/-- The recognizer never reports an event. -/
def Parser.Silent {α : Type} (p : Parser α) : Prop := ∀ s, (p s).events = []

/-- The recognizer has reported nothing when it ends with a mistake. -/
def Parser.FailsSilently {α : Type} (p : Parser α) : Prop :=
  ∀ ⦃s events fault⦄, p s = ⟨events, .error fault⟩ → events = []

/-- The recognizer ends with a mistake at once. -/
def Parser.Fails {α : Type} (p : Parser α) : Prop := ∀ s, ∃ fault, p s = ⟨[], .error fault⟩

section Silent

variable {α β : Type} {s : State}

/-- What a recognizer does that others follow: it ends with a mistake, or they go on behind it. -/
theorem bind_cases (p : Parser α) (f : α → Parser β) (s : State) :
    (∃ events fault, p s = ⟨events, .error fault⟩ ∧ (p >>= f) s = ⟨events, .error fault⟩) ∨
      ∃ events a s', p.Runs s events a s' ∧
        (p >>= f) s = ⟨events ++ (f a s').events, (f a s').result⟩ := by
  change (∃ events fault, _ ∧ next p f s = _) ∨ ∃ events a s', _ ∧ next p f s = _
  unfold next Parser.Runs
  generalize p s = reply
  obtain ⟨events, fault | ⟨a, s'⟩⟩ := reply
  · exact .inl ⟨events, fault, rfl, rfl⟩
  · exact .inr ⟨events, a, s', rfl, rfl⟩

theorem silent_bind {p : Parser α} {f : α → Parser β} (hp : p.Silent) (hf : ∀ a, (f a).Silent) :
    (p >>= f).Silent := by
  intro s
  have hevents := hp s
  obtain ⟨events, fault, hfault, hbind⟩ | ⟨events, a, s', hrun, hbind⟩ := bind_cases p f s
  · rw [hbind]
    rwa [hfault] at hevents
  · rw [hrun] at hevents
    obtain rfl : events = [] := hevents
    rw [hbind]
    exact hf a s'

/-- The steps without events report nothing. -/
theorem quiet_silent : Quiet @Parser.Silent where
  value _ _ := rfl
  fail _ _ := rfl
  bind := silent_bind
  read hf _ := silent_bind (fun _ => rfl) hf
  change _ _ := rfl
  requirePlus t what := by
    refine silent_bind (fun _ => rfl) fun s => ?_
    split
    · exact fun _ => rfl
    · exact fun _ => rfl

/-- What holds of a mistake at once and of what comes behind the steps that report nothing. -/
theorem bind_of_silent {p : Parser α} {f : α → Parser β} {C : Reply β → Prop} (hp : p.Silent)
    (hfault : ∀ fault, C ⟨[], .error fault⟩) (h : ∀ a s', p.Runs s [] a s' → C (f a s')) :
    C ((p >>= f) s) := by
  have hsilent := hp s
  obtain ⟨events, fault, heq, hbind⟩ | ⟨events, a, s', hrun, hbind⟩ := bind_cases p f s
  · rw [heq] at hsilent
    obtain rfl : events = [] := hsilent
    rw [hbind]
    exact hfault fault
  · rw [hrun] at hsilent
    obtain rfl : events = [] := hsilent
    rw [hbind]
    exact h a s' hrun

theorem failsSilently_bind {p : Parser α} {f : α → Parser β} (hp : p.Silent)
    (hf : ∀ a, (f a).FailsSilently) : (p >>= f).FailsSilently := by
  intro s events fault
  refine bind_of_silent (C := fun r => r = ⟨events, .error fault⟩ → events = []) hp ?_ ?_
  · intro fault' h
    exact (Reply.mk.inj h).1.symm
  · intro a s' _ h
    exact hf a h

theorem Parser.Silent.failsSilently {p : Parser α} (hp : p.Silent) : p.FailsSilently := by
  intro s events fault h
  simpa [h] using hp s

theorem failsSilently_emit (event : Event) : (emit event).FailsSilently := by
  intro s events fault h
  cases (Reply.mk.inj h).2

theorem fails_failExpected (t : PlacedToken) (what : String) :
    (failExpected t what : Parser α).Fails := fun _ => ⟨_, rfl⟩

end Silent

/-! ## Recognizers that tell references -/

/--
From a state on, with some tokens in front of it, events are allowed and tell the references
among the tokens that were taken, or the first references ahead if there was a mistake.
-/
def Reply.Tells {α : Type} (c : Scope) (outside : Bool) (s : State) (b : Before) (r : Reply α)
    (Q : α → State → Before → Prop) : Prop :=
  Allowed c outside r.events ∧
    match r.result with
    | .ok (a, s') => ∃ ts, s.Passes ts s' ∧ references r.events = b.named c ts ∧ Q a s' (b.after ts)
    | .error _ => references r.events <+: b.named c s.ahead

/-- Where the first condition holds, the recognizer tells references and ends where the second
one does. -/
def Parser.Tells {α : Type} (c : Scope) (outside : Bool) (P : State → Before → Prop) (p : Parser α)
    (Q : α → State → Before → Prop) : Prop :=
  ∀ s b, s.setting.scope = c → P s b → (p s).Tells c outside s b Q

/-- No token stands in front that matters. -/
def Begins (_ : State) (b : Before) : Prop := b = .nothing

/-- Any token may stand in front. -/
def Anyhow (_ : State) (_ : Before) : Prop := True

section Tells

variable {c : Scope} {outside : Bool} {α β : Type} {P P' : State → Before → Prop}
  {Q Q' : α → State → Before → Prop} {R : β → State → Before → Prop}

theorem Parser.Tells.imp {p : Parser α} (h : p.Tells c outside P Q) (hP : ∀ s b, P' s b → P s b)
    (hQ : ∀ a s b, Q a s b → Q' a s b) : p.Tells c outside P' Q' := by
  intro s b hc hb
  have hreply := h s b hc (hP s b hb)
  unfold Reply.Tells at hreply ⊢
  refine ⟨hreply.1, ?_⟩
  split
  · next a s' hresult =>
    rw [hresult] at hreply
    obtain ⟨ts, hpasses, hreferences, hpost⟩ := hreply.2
    exact ⟨ts, hpasses, hreferences, hQ _ _ _ hpost⟩
  · next fault hresult =>
    rw [hresult] at hreply
    exact hreply.2

theorem Parser.Tells.outer {p : Parser α} (h : p.Tells c false P Q) : p.Tells c outside P Q :=
  fun s b hc hb => ⟨(h s b hc hb).1.outer, (h s b hc hb).2⟩

/-- A recognizer that reports nothing takes no prefixed name. -/
theorem tells_of_silent {p : Parser α} (hp : p.Silent)
    (h : ∀ ⦃s b a s'⦄, s.setting.scope = c → P s b → p.Runs s [] a s' →
      ∃ ts, s.Passes ts s' ∧ b.named c ts = [] ∧ Q a s' (b.after ts)) :
    p.Tells c outside P Q := by
  intro s b hc hb
  have hevents := hp s
  generalize hreply : p s = reply at hevents
  obtain ⟨events, fault | ⟨a, s'⟩⟩ := reply
  · obtain rfl : events = [] := hevents
    exact ⟨.nil, List.nil_prefix⟩
  · obtain rfl : events = [] := hevents
    obtain ⟨ts, hpasses, hnamed, hpost⟩ := h hc hb hreply
    exact ⟨.nil, ts, hpasses, hnamed.symm, hpost⟩

theorem tells_of_fails {p : Parser α} (h : p.Fails) : p.Tells c outside P Q := by
  intro s b _ _
  obtain ⟨fault, hfault⟩ := h s
  rw [hfault]
  exact ⟨.nil, List.nil_prefix⟩

/-- With or without a mistake, the first references ahead are told. -/
theorem Reply.Tells.first {s : State} {b : Before} {r : Reply α} (h : r.Tells c outside s b Q) :
    references r.events <+: b.named c s.ahead := by
  obtain ⟨-, h⟩ := h
  obtain ⟨events, fault | ⟨a, s'⟩⟩ := r
  · exact h
  · obtain ⟨ts, hpasses, hreferences, -⟩ := h
    change references events <+: b.named c s.ahead
    rw [hpasses.ahead, Before.named_append]
    change references events = _ at hreferences
    rw [hreferences]
    exact List.prefix_append _ _

/-- What is told behind some tokens is told in front of them together with what they tell. -/
theorem Reply.Tells.behind {s s' : State} {b : Before} {ts : List Token} {events : List Event}
    {r : Reply β} (h : r.Tells c outside s' (b.after ts) R) (hallowed : Allowed c outside events)
    (hpasses : s.Passes ts s') (hreferences : references events = b.named c ts) :
    (⟨events ++ r.events, r.result⟩ : Reply β).Tells c outside s b R := by
  obtain ⟨hallowed', hrest⟩ := h
  refine ⟨hallowed.append hallowed', ?_⟩
  obtain ⟨events', fault | ⟨a, s''⟩⟩ := r
  · change references (events ++ events') <+: b.named c s.ahead
    rw [hpasses.ahead, Before.named_append, references_append, hreferences]
    exact (List.prefix_append_right_inj _).mpr hrest
  · obtain ⟨us, hpasses', hreferences', hpost⟩ := hrest
    refine ⟨ts ++ us, hpasses.trans hpasses', ?_, by rwa [Before.after_append]⟩
    change references (events ++ events') = _
    rw [Before.named_append, references_append, hreferences, hreferences']

theorem tells_bind {p : Parser α} {f : α → Parser β} (hp : p.Tells c outside P Q)
    (hf : ∀ a, (f a).Tells c outside (Q a) R) : (p >>= f).Tells c outside P R := by
  intro s b hc hb
  have hfirst := hp s b hc hb
  obtain ⟨events, fault, hfault, hbind⟩ | ⟨events, a, s', hrun, hbind⟩ := bind_cases p f s
  · rw [hbind]
    rwa [hfault] at hfirst
  · rw [hbind]
    rw [hrun] at hfirst
    obtain ⟨hallowed, ts, hpasses, hreferences, hpost⟩ := hfirst
    exact (hf a s' _ (by rw [hpasses.scope, hc]) hpost).behind hallowed hpasses hreferences

theorem tells_pure {a : α} (h : ∀ s b, P s b → Q a s b) :
    (pure a : Parser α).Tells c outside P Q :=
  tells_of_silent (quiet_silent.value a) fun s b _ _ _ hb hrun => by
    obtain ⟨-, rfl, rfl⟩ := runs_pure.mp hrun
    exact ⟨[], State.Passes.refl s, rfl, h s b hb⟩

theorem tells_state : state.Tells c outside P fun _ => P :=
  tells_of_silent (fun _ => rfl) fun s b _ _ _ hb hrun => by
    obtain ⟨-, -, rfl⟩ := runs_state.mp hrun
    exact ⟨[], State.Passes.refl s, rfl, hb⟩

theorem tells_leaf {item : Leaf} (hitem : (Event.leaf item).Ordinary c outside)
    (hreference : item.reference? = none) :
    (emit (.leaf item)).Tells c outside P fun _ => P := by
  intro s b _ hb
  refine ⟨.cons hitem .nil, [], State.Passes.refl s, ?_, hb⟩
  simp [emit, hreference]

theorem tells_within {k : Container} {p : Parser Unit} {Q : Unit → State → Before → Prop}
    (hk : (Event.enter k).Ordinary c outside) (h : p.Tells c outside P Q) :
    (within k p).Tells c outside P Q := by
  have henter : (emit (.enter k)).Tells c outside P fun _ => P := fun s b _ hb =>
    ⟨.cons hk .nil, [], State.Passes.refl s, rfl, hb⟩
  have hleave : ∀ u, (emit (.leave k.tag)).Tells c outside (Q u) Q := fun u s b _ hb =>
    ⟨.cons trivial .nil, [], State.Passes.refl s, rfl, hb⟩
  exact tells_bind henter fun _ => tells_bind h hleave

/-! ## Tokens -/

theorem next_of_not_inert {t : Token} (ht : ¬ Inert t) (b : Before) :
    b.next t = .nothing ∧ b.named c [t] = [] := by
  cases t with
  | symbol mark => cases mark <;> first | exact ⟨rfl, rfl⟩ | exact absurd (by simp [Inert]) ht
  | keyword word => exact ⟨rfl, rfl⟩
  | directive name => exact ⟨rfl, rfl⟩
  | fragment content => exact ⟨rfl, rfl⟩
  | _ => exact absurd trivial ht

/-- Behind a token that is no part of a term, nothing stands in front that matters. -/
theorem tells_of_passes_one {p : Parser α} (hp : p.Silent)
    (h : ∀ ⦃s b a s'⦄, P s b → p.Runs s [] a s' → ∃ t, ¬ Inert t ∧ s.Passes [t] s') :
    p.Tells c outside P fun _ => Begins :=
  tells_of_silent hp fun _ b _ _ _ hb hrun => by
    obtain ⟨t, ht, hpasses⟩ := h hb hrun
    obtain ⟨hnext, hnamed⟩ := next_of_not_inert (c := c) ht b
    exact ⟨[t], hpasses, hnamed, hnext⟩

theorem tells_expect {t : Token} (ht : ¬ Inert t) :
    (expect t).Tells c outside P fun _ => Begins :=
  tells_of_passes_one (quiet_silent.expect t) fun _ _ _ _ _ hrun =>
    ⟨t, ht, (passes_of_expect hrun).2⟩

theorem tells_accept {t : Token} (ht : ¬ Inert t) :
    (accept t).Tells c outside P fun taken s b => if taken then Begins s b else P s b :=
  tells_of_silent (quiet_silent.accept t) fun s b taken s' _ hb hrun => by
    obtain ⟨-, ⟨rfl, first, rest, htokens, rfl, rfl⟩ | ⟨rfl, -, -, rfl⟩⟩ := runs_accept.mp hrun
    · obtain ⟨hnext, hnamed⟩ := next_of_not_inert (c := c) ht b
      exact ⟨[first.token], State.passes_behind htokens, hnamed, hnext⟩
    · exact ⟨[], State.Passes.refl s, rfl, hb⟩

theorem tells_look {view : List PlacedToken → View α} :
    (look view).Tells c outside P fun a s b => P s b ∧ (view s.tokens).value = a :=
  tells_of_silent (quiet_silent.look view) fun s b _ _ _ hb hrun => by
    obtain ⟨-, hvalue, rfl, -⟩ := runs_look.mp hrun
    exact ⟨[], State.Passes.refl s, rfl, hb, hvalue⟩

theorem tells_peek : peek.Tells c outside P fun a s b => P s b ∧ s.ahead.head? = a :=
  tells_of_silent quiet_silent.peek fun s b _ _ _ hb hrun => by
    obtain ⟨-, hvalue, rfl, -⟩ := runs_peek.mp hrun
    exact ⟨[], State.Passes.refl s, rfl, hb, hvalue⟩

/-- Takes the token that was seen. -/
theorem tells_take?_seen {t : Token} (ht : ¬ Inert t) :
    take?.Tells c outside (fun s b => P s b ∧ s.ahead.head? = some t) fun _ => Begins :=
  tells_of_passes_one quiet_silent.take? fun _ _ _ _ hb hrun =>
    ⟨t, ht, (passes_of_take? hrun hb.2).2⟩

theorem tells_take_seen {t : Token} {what : String} (ht : ¬ Inert t) :
    (take what).Tells c outside (fun s b => P s b ∧ s.ahead.head? = some t) fun _ => Begins :=
  tells_of_passes_one (quiet_silent.take what) fun _ _ first _ hb hrun => by
    have hpasses := (passes_of_take hrun).2
    obtain rfl : first.token = t := by simpa [hpasses.ahead] using hb.2
    exact ⟨_, ht, hpasses⟩

/-- Takes a token and goes on if it is no part of a term. -/
theorem tells_take_bind {what : String} {f : PlacedToken → Parser β}
    (hf : ∀ t, (f t).Fails ∨ ¬ Inert t.token ∧ (f t).Tells c outside Begins R) :
    (take what >>= f).Tells c outside P R := by
  intro s b hc hb
  refine bind_of_silent (C := fun r => r.Tells c outside s b R) (quiet_silent.take what)
    (fun _ => ⟨.nil, List.nil_prefix⟩) fun t s' hrun => ?_
  obtain ⟨-, hpasses⟩ := passes_of_take hrun
  obtain hfails | ⟨ht, htells⟩ := hf t
  · obtain ⟨fault, hfault⟩ := hfails s'
    rw [hfault]
    exact ⟨.nil, List.nil_prefix⟩
  · obtain ⟨hnext, hnamed⟩ := next_of_not_inert (c := c) ht b
    have hrest := htells s' (b.after [t.token]) (by rw [hpasses.scope, hc]) hnext
    exact hrest.behind .nil hpasses hnamed.symm

/-- Items with commas between them begin behind a comma, or where the first one does. -/
theorem tells_items {item : Parser Unit} {Q : Unit → State → Before → Prop}
    (hitem : item.Tells c outside P Q) (hP : ∀ s, P s .nothing) :
    (items item).Tells c outside P Q := by
  have hupTo : ∀ n, (itemsUpTo item n).Tells c outside P Q := by
    intro n
    induction n with
    | zero => exact hitem
    | succ n ih =>
        refine tells_bind hitem fun u => tells_bind (tells_accept (by simp [Inert])) fun more => ?_
        split
        · refine ih.imp (fun s b hb => ?_) fun _ _ _ h => h
          obtain rfl : b = .nothing := by simpa [Begins] using hb
          exact hP s
        · exact tells_pure fun s b hb => hb
  exact tells_bind tells_state fun s => hupTo _

/-- What fails silently is told by the phrase that was recognized. -/
theorem tells_of_yields {γ : Type} {k : Category γ} {p : Parser Unit}
    {Q : Unit → State → Before → Prop} (hp : p.FailsSilently) (hyields : p.Yields k)
    (hk : ∀ x, k.Refers c x → Allowed c outside (k.events c x) ∧ ∀ ⦃s b s'⦄, P s b →
      s.Passes (k.tokens x) s' →
      references (k.events c x) = b.named c (k.tokens x) ∧ Q () s' (b.after (k.tokens x))) :
    p.Tells c outside P Q := by
  intro s b hc hb
  generalize hreply : p s = reply
  obtain ⟨events, fault | ⟨a, s'⟩⟩ := reply
  · obtain rfl := hp hreply
    exact ⟨.nil, List.nil_prefix⟩
  · obtain ⟨x, hx⟩ := hyields hreply
    have hrefers := hx.refers
    have hevents := hx.events
    rw [hc] at hrefers hevents
    obtain ⟨hallowed, htold⟩ := hk x hrefers
    obtain ⟨hreferences, hpost⟩ := htold hb hx.passes
    subst hevents
    exact ⟨hallowed, _, hx.passes, hreferences, hpost⟩

end Tells

end TopicQuery.Grammar
