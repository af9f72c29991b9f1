import TopicQuery.Proofs.References.Told

/-!
Terms, calls and clauses tell their references.
-/

namespace TopicQuery.Grammar

open Parser Phrase

section Clauses

variable {c : Scope} {outside : Bool} {α β : Type} {s s' : State} {b : Before}
  {P : State → Before → Prop} {Q : α → State → Before → Prop} {R : β → State → Before → Prop}

theorem Parser.Tells.anyhow {p : Parser α} (h : p.Tells c outside P Q) :
    p.Tells c outside P fun _ => Anyhow :=
  h.imp (fun _ _ hb => hb) fun _ _ _ _ => trivial

/-- What was told is told of a run. -/
theorem Parser.Tells.run {p : Parser α} (h : p.Tells c outside P Q) :
    p.Tells c outside P fun a s' b' =>
      Q a s' b' ∧ ∃ s b events, s.setting.scope = c ∧ P s b ∧ p.Runs s events a s' := by
  intro s b hc hb
  have hreply := h s b hc hb
  generalize hrun : p s = reply at hreply ⊢
  obtain ⟨events, fault | ⟨a, s'⟩⟩ := reply
  · exact hreply
  · obtain ⟨hallowed, ts, hpasses, hreferences, hpost⟩ := hreply
    exact ⟨hallowed, ts, hpasses, hreferences, hpost, s, b, events, hc, hb, hrun⟩

theorem fails_failAtEnd (what : String) : (failAtEnd what : Parser α).Fails := fun _ => ⟨_, rfl⟩

/-! ## Terms -/

theorem ordinary_term {x : Phrase.Term} (h : x.Refers c) :
    (Event.leaf (x.leaf c)).Ordinary c outside := by
  cases x with
  | atom kind value =>
      intro r hr
      cases hr
  | literal value datatype =>
      intro r hr
      cases datatype with
      | iri text => cases hr
      | qname name =>
          obtain rfl := Option.some.inj hr
          exact h
  | qname marker name =>
      cases marker with
      | none => exact ⟨h.2, h.1⟩
      | some m => exact ⟨by cases m <;> simp [Marker.kindOr, Marker.kind], h.1⟩
  | curie marker name =>
      intro r hr
      obtain rfl := Option.some.inj hr
      exact h
  | iri marker value =>
      intro r hr
      cases hr

theorem failsSilently_term : term.FailsSilently :=
  failsSilently_bind (quiet_silent.take _) fun t =>
    failsSilently_bind (quiet_silent.termLeaf t) fun _ => failsSilently_emit _

theorem tells_term : term.Tells c outside Begins fun _ _ b => b = .operand :=
  tells_of_yields failsSilently_term term_yields fun x hrefers =>
    ⟨.cons (ordinary_term hrefers) .nil, fun s b s' hb _ => by
      obtain rfl := hb
      obtain ⟨hnamed, hafter⟩ := Before.named_term (c := c) x
      exact ⟨by simp [Category.events, Category.term, Outline.events, hnamed], hafter⟩⟩

theorem tells_arguments : arguments.Tells c outside P fun _ => Anyhow := by
  refine tells_bind (tells_expect (by simp [Inert])) fun _ =>
    tells_bind (tells_accept (by simp [Inert])) fun closed => ?_
  split
  · exact tells_pure fun _ _ _ => trivial
  · refine tells_bind ((tells_items tells_term fun _ => rfl).imp (fun _ _ hb => ?_) fun _ _ _ h => h)
      fun _ => (tells_expect (by simp [Inert])).anyhow
    simpa using hb

/-! ## Calls -/

theorem callable_of_names {x : Phrase.Term} {k : Container} (h : x.Names c)
    (hk : k ∈ [.association, .call, .dynamic])
    (hplain : ∀ name, x = .atom .identifier name → k = .dynamic → name ∉ c.rules) :
    Callable c k (x.leaf c) where
  container := hk
  bound := by
    intro r hr
    match x with
    | .literal _ _ => exact h.elim
    | .qname marker name =>
        obtain rfl := Option.some.inj hr
        exact h.1
    | .curie marker name =>
        obtain rfl := Option.some.inj hr
        exact h
    | .atom _ _ => cases hr
    | .iri _ _ => cases hr
  module := by
    intro name hname
    match x with
    | .qname none _ =>
        obtain ⟨hkind, rfl⟩ := Leaf.qname.inj hname
        exact hkind
    | .qname (some m) _ =>
        obtain ⟨hkind, -⟩ := Leaf.qname.inj hname
        cases m <;> cases hkind
    | .literal _ _ => exact h.elim
    | .curie _ _ => cases hname
    | .atom _ _ => cases hname
    | .iri _ _ => cases hname
  plain := by
    intro name hname hdynamic
    match x with
    | .atom _ _ =>
        obtain ⟨rfl, rfl⟩ := Leaf.atom.inj hname
        exact hplain _ rfl hdynamic
    | .iri m _ =>
        obtain ⟨hkind, -⟩ := Leaf.atom.inj hname
        cases m <;> cases hkind
    | .literal _ _ => exact h.elim
    | .curie _ _ => cases hname
    | .qname _ _ => cases hname
  base := by
    intro iri
    cases x <;> simp [Phrase.Term.leaf]
  binding := by
    intro identifier iri kind
    cases x <;> simp [Phrase.Term.leaf]

/-- A plain name is that of a builtin or of a dynamic predicate only if no rule has it. -/
theorem callContainer_plain (rules : List String) (form : NameForm) (arity : Nat) :
    (∀ name hints, callContainer rules form arity = .builtin name hints →
      form = .plain name ∧ name ∉ rules) ∧
    ∀ name, form = .plain name → callContainer rules form arity = .dynamic → name ∉ rules := by
  unfold callContainer
  cases form with
  | plain name =>
      by_cases hrule : name ∈ rules
      · simp [hrule]
      · simp only [List.contains_iff_mem, hrule, if_false]
        refine ⟨fun other hints hbuiltin => ?_, fun other hother _ => ?_⟩
        · split at hbuiltin
          · obtain ⟨rfl, -⟩ := Container.builtin.inj hbuiltin
            exact ⟨rfl, hrule⟩
          · split at hbuiltin <;> cases hbuiltin
        · obtain rfl := NameForm.plain.inj hother
          exact hrule
  | reference =>
      refine ⟨fun name hints hbuiltin => ?_, nofun⟩
      dsimp only at hbuiltin
      split at hbuiltin <;> cases hbuiltin
  | _ => exact ⟨nofun, nofun⟩

theorem eq_of_form_plain {x : Phrase.Term} {name : String} (h : x.form c = .plain name) :
    x = .atom .identifier name := by
  match x with
  | .atom .identifier value => rw [NameForm.plain.inj h]
  | .qname none _ =>
      simp only [Phrase.Term.form] at h
      split at h <;> cases h
  | .qname (some _) _ => cases h
  | .curie _ _ => cases h

/-- A reply that comes behind steps that report nothing. -/
theorem reply_of_silent {p : Parser α} {f : α → Parser β} {between : State} (hp : p.Silent)
    (h : ∀ a s', p.Runs between [] a s' → (f a s').Tells c outside s b R) :
    ((p >>= f) between).Tells c outside s b R :=
  bind_of_silent (C := fun r => r.Tells c outside s b R) hp (fun _ => ⟨.nil, List.nil_prefix⟩) h

/-- A call tells what its name is and what comes behind the name. -/
theorem tells_called {x : Phrase.Term} {k : Container} {rest : Parser Unit}
    {Q : Unit → State → Before → Prop} (hcall : Callable c k (x.leaf c))
    (hpasses : s.Passes x.tokens s') (hc : s.setting.scope = c)
    (hrest : rest.Tells c outside Anyhow Q) :
    (within k (callee (x.leaf c) >>= fun _ => rest) s').Tells c outside s .nothing Q := by
  have hleave : ∀ u, (emit (.leave k.tag)).Tells c outside (Q u) Q := fun u s b _ hb =>
    ⟨.cons trivial .nil, [], State.Passes.refl s, rfl, hb⟩
  have hwithin : within k (callee (x.leaf c) >>= fun _ => rest) s' =
      ⟨calleeEvents k (x.leaf c) ++ ((rest >>= fun _ => emit (.leave k.tag)) s').events,
        ((rest >>= fun _ => emit (.leave k.tag)) s').result⟩ := by
    change next (emit _) (fun _ => next (next (within .callee (emit _)) fun _ => rest) fun _ =>
      emit _) s' = ⟨_ ++ (next rest (fun _ => emit _) s').events, (next rest _ s').result⟩
    have hcallee : within .callee (emit (.leaf (x.leaf c))) s' =
        ⟨[.enter .callee, .leaf (x.leaf c), .leave .callee], .ok ((), s')⟩ := rfl
    simp only [next, emit] at hcallee ⊢
    rw [hcallee]
    dsimp only
    generalize rest s' = reply
    obtain ⟨events, fault | ⟨u, s''⟩⟩ := reply
    · rfl
    · rfl
  obtain ⟨hnamed, -⟩ := Before.named_term (c := c) x
  rw [hwithin]
  refine (tells_bind hrest hleave s' _ (by rw [hpasses.scope, hc]) trivial).behind
    (.call hcall .nil) hpasses ?_
  simp [calleeEvents, hnamed]

theorem tells_role :
    (within .pair do
      within .player term
      expectMark .colon
      within .roleType term).Tells c outside Begins fun _ => Anyhow := by
  refine tells_within trivial (tells_bind (tells_within trivial tells_term) fun _ => ?_)
  refine tells_bind (tells_expect (by simp [Inert])) fun _ => ?_
  exact tells_within trivial tells_term.anyhow

/-- A call without pairs tells its references behind its name. -/
theorem tells_plainCall {name : Phrase.Term} {arity : Nat} (hnames : name.Names c)
    (hpasses : s.Passes name.tokens s') (hc : s.setting.scope = c) :
    ((match callContainer s'.rules (name.form c) arity with
      | .builtin builtin hints => within (.builtin builtin hints) arguments
      | container => plainCall container (name.leaf c)) s').Tells c outside s .nothing
        fun _ => Anyhow := by
  have hscope := hpasses.scope
  rw [hc] at hscope
  have hrules : s'.rules = c.rules := congrArg Scope.rules hscope
  rw [hrules]
  obtain ⟨hbuiltin, hdynamic⟩ := callContainer_plain c.rules (name.form c) arity
  obtain ⟨builtin, hints, -, hcontainer⟩ | hcontainer :=
    Call.callContainer_cases c.rules (name.form c) arity
  · obtain ⟨hform, hrule⟩ := hbuiltin builtin hints hcontainer
    obtain rfl := eq_of_form_plain hform
    have htold : (within (.builtin builtin hints) arguments).Tells c outside Anyhow fun _ => Anyhow :=
      tells_within hrule tells_arguments
    rw [hcontainer]
    exact (htold s' _ hscope trivial).behind .nil hpasses rfl
  · have harguments : arguments.Tells c outside Anyhow fun _ => Anyhow := tells_arguments
    have hcallable : Callable c (callContainer c.rules (name.form c) arity) (name.leaf c) := by
      refine callable_of_names hnames ?_ fun plain hplain => hdynamic plain (by rw [hplain]; rfl)
      obtain h | h := hcontainer <;> simp [h]
    have htold := tells_called hcallable hpasses hc harguments
    obtain h | h := hcontainer <;>
    · rw [h] at htold ⊢
      exact htold

/-- A call tells its references, behind its name if it reports one. -/
theorem tells_predicate : predicate.Tells c outside Begins fun _ => Anyhow := by
  intro s b hc hb
  obtain rfl := hb
  refine reply_of_silent quiet_silent.calleeMarker fun marker s₁ hmarker => ?_
  obtain ⟨m, rfl, hto₁, -, hmarked⟩ := calleeMarker_runs hmarker
  refine reply_of_silent (quiet_silent.take _) fun t s₂ htake => ?_
  obtain ⟨-, hto₂⟩ := passes_of_take htake
  refine reply_of_silent (quiet_silent.look _) fun shape s₃ hlook => ?_
  obtain ⟨-, -, rfl, -⟩ := runs_look.mp hlook
  cases shape with
  | none =>
      refine reply_of_silent quiet_silent.take? fun found s₄ _ => ?_
      cases found with
      | none => exact ⟨.nil, List.nil_prefix⟩
      | some t => exact ⟨.nil, List.nil_prefix⟩
  | some shape =>
      refine reply_of_silent (quiet_silent.calleeOf t _) fun callee s₄ hcallee => ?_
      obtain ⟨item, form⟩ := callee
      obtain ⟨name, hname, -, rfl⟩ := calleeOf_runs hcallee (hto₁.trans hto₂) hmarked
      have hnames := hname.names
      have hitem := hname.leaf
      have hform := hname.form
      rw [hc] at hnames hitem hform
      obtain rfl := hitem
      obtain rfl := hform
      dsimp only
      split
      · refine tells_called (callable_of_names hnames (by simp) nofun) hname.passes hc ?_
        refine tells_bind (tells_expect (by simp [Inert])) fun _ =>
          tells_bind (tells_items tells_role fun _ => rfl) fun _ =>
            (tells_expect (by simp [Inert])).anyhow
      · refine reply_of_silent (fun _ => rfl) fun s₅ s₆ hstate => ?_
        obtain ⟨-, rfl, rfl⟩ := runs_state.mp hstate
        exact tells_plainCall hnames hname.passes hc

/-! ## Comparisons -/

/-- A comparison with the operator begins here. -/
def OperatorAhead (operator : Comparison) (s : State) (b : Before) : Prop :=
  b = .nothing ∧ ∃ size, (termSize s.tokens).value = some size ∧
    s.ahead[size]? = some (.symbol (operatorSymbol operator))

theorem tells_comparisonAhead : comparisonAhead.Tells c outside Begins fun found s b =>
    Begins s b ∧ ∀ operator, found = some operator → OperatorAhead operator s b :=
  tells_of_silent quiet_silent.comparisonAhead fun s b found s' _ hb hrun => by
    obtain ⟨-, rfl⟩ := comparisonAhead_runs hrun
    refine ⟨[], State.Passes.refl s, rfl, hb, ?_⟩
    rintro operator rfl
    obtain ⟨size, mark, hsize, hseen, hoperator⟩ := comparisonAhead_some hrun
    exact ⟨hb, size, hsize, by rw [hseen, symbol_of_comparison? hoperator]⟩

/-- The operator that was seen stands behind the left side. -/
theorem tells_left (operator : Comparison) :
    (within .left term).Tells c outside (OperatorAhead operator) fun _ s b =>
      b = .operand ∧ s.ahead.head? = some (.symbol (operatorSymbol operator)) := by
  refine tells_within trivial ((tells_term.imp (fun _ _ hb => hb.1) fun _ _ _ h => h).run.imp
    (fun _ _ hb => hb) ?_)
  rintro _ s' b' ⟨hb', s, b, events, -, ⟨-, size, hsize, hseen⟩, hrun⟩
  exact ⟨hb', (head?_behind_term hsize hrun).trans hseen⟩

theorem tells_comparison (operator : Comparison) :
    (comparison operator).Tells c outside (OperatorAhead operator) fun _ => Anyhow := by
  have htake : (take "an operator").Tells c outside (fun s b => b = .operand ∧
      s.ahead.head? = some (.symbol (operatorSymbol operator))) fun _ => Begins :=
    tells_of_silent (quiet_silent.take _) fun s b t s' _ hb hrun => by
      obtain ⟨rfl, hhead⟩ := hb
      have hpasses := (passes_of_take hrun).2
      obtain hmark : t.token = .symbol (operatorSymbol operator) := by
        simpa [hpasses.ahead] using hhead
      refine ⟨[t.token], hpasses, ?_, ?_⟩ <;> rw [hmark] <;> cases operator <;> rfl
  refine tells_within trivial (tells_bind (tells_left operator) fun _ => tells_bind htake fun t => ?_)
  refine tells_bind (Q := fun _ => Begins) ?_ fun _ => tells_within trivial tells_term.anyhow
  refine tells_of_silent (quiet_silent.requirePlus _ _) fun s b _ s' _ hb hrun => ?_
  obtain ⟨-, -, rfl⟩ := runs_requirePlus.mp hrun
  exact ⟨[], State.Passes.refl s, rfl, hb⟩

/-! ## Clauses -/

theorem tells_branches {inner : Parser Unit} (h : inner.Tells c outside Begins fun _ => Anyhow)
    (n : Nat) : ∀ shortCircuit,
      (branchesUpTo inner shortCircuit n).Tells c outside Begins fun _ => Anyhow := by
  induction n with
  | zero => exact fun _ => tells_within trivial h
  | succ n ih =>
      intro shortCircuit
      refine tells_bind (tells_within trivial h) fun _ => tells_bind tells_peek fun bar => ?_
      split
      · exact tells_bind (tells_take?_seen (by simp [Inert])) fun _ => ih _
      · exact tells_bind (tells_take?_seen (by simp [Inert])) fun _ => ih _
      · exact tells_pure fun _ _ _ => trivial

theorem tells_clause {inner : Parser Unit} (h : inner.Tells c outside Begins fun _ => Anyhow) :
    (clause inner).Tells c outside Begins fun _ => Anyhow := by
  refine tells_bind tells_peek fun first => ?_
  split
  · exact tells_of_fails (fails_failAtEnd _)
  · exact tells_bind (tells_take?_seen (by simp [Inert])) fun _ => tells_within trivial
      (tells_bind (tells_expect (by simp [Inert])) fun _ => tells_bind h fun _ =>
        (tells_expect (by simp [Inert])).anyhow)
  · exact tells_bind (tells_take?_seen (by simp [Inert])) fun _ => tells_within trivial
      (tells_bind tells_state fun _ => tells_bind (tells_branches h _ _) fun _ =>
        (tells_expect (by simp [Inert])).anyhow)
  · refine tells_bind (tells_comparisonAhead.imp (fun _ _ hb => hb.1) fun _ _ _ h => h)
      fun operator => ?_
    split
    · next operator => exact (tells_comparison operator).imp (fun _ _ hb => hb.2 _ rfl) fun _ _ _ h => h
    · exact tells_predicate.imp (fun _ _ hb => hb.1) fun _ _ _ h => h

theorem tells_clausesWithin (depth : Nat) :
    (clausesWithin depth).Tells c outside Begins fun _ => Anyhow := by
  induction depth with
  | zero => exact tells_of_fails (fails_failAtEnd _)
  | succ depth ih => exact tells_items (tells_clause ih) fun _ => rfl

theorem tells_clauses : clauses.Tells c outside Begins fun _ => Anyhow :=
  tells_bind tells_state fun _ => tells_clausesWithin _

end Clauses

end TopicQuery.Grammar
