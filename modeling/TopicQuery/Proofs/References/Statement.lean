import TopicQuery.Proofs.Recognized.Document
import TopicQuery.Proofs.References.Clause

/-!
Statements and rules tell their references.
-/

namespace TopicQuery.Grammar

open Parser Phrase

section Statements

variable {c : Scope} {outside : Bool} {P : State → Before → Prop}

/-- A leaf that is not a prefixed name needs nothing. -/
theorem bound_of_none {item : Leaf} (h : item.reference? = none) : item.Bound c := by
  intro r hr
  rw [h] at hr
  cases hr

/-! ## Order and extent -/

theorem failsSilently_sortKey : sortKey.FailsSilently := by
  refine failsSilently_bind (quiet_silent.takeAtom _ _) fun name =>
    failsSilently_bind (quiet_silent.accept _) fun descending => ?_
  split
  · exact failsSilently_emit _
  · exact failsSilently_bind (quiet_silent.accept _) fun _ => failsSilently_emit _

theorem tells_sortKey : sortKey.Tells c outside P fun _ => Anyhow :=
  tells_of_yields failsSilently_sortKey sortKey_yields fun x _ =>
    ⟨.cons (bound_of_none rfl) .nil, fun s b s' _ _ => by
      obtain ⟨name, direction⟩ := x
      cases direction <;> exact ⟨rfl, trivial⟩⟩

theorem tells_sorting : sorting.Tells c outside P fun _ => Anyhow := by
  refine tells_bind (tells_accept (by simp [Inert])) fun ordered => ?_
  split
  · exact tells_bind (tells_expect (by simp [Inert])) fun _ =>
      tells_within trivial (tells_items tells_sortKey fun _ => rfl)
  · exact tells_pure fun _ _ _ => trivial

theorem tells_bound (word : Keyword) (what : String) :
    (bound word what).Tells c outside P fun _ => Anyhow :=
  tells_of_silent (quiet_silent.bound word what) fun s b _ s' _ _ hrun => by
    obtain ⟨number, hpasses, -, -, -⟩ := bound_runs hrun
    refine ⟨_, hpasses, ?_, trivial⟩
    cases number <;> rfl

theorem tells_emitBound {item : UInt64 → Leaf}
    (hitem : ∀ n, (Event.leaf (item n)).Ordinary c outside ∧ (item n).reference? = none)
    (n : Option UInt64) : (emitBound item n).Tells c outside P fun _ => P := by
  cases n with
  | none => exact tells_pure fun _ _ hb => hb
  | some n => exact tells_leaf (hitem n).1 (hitem n).2

theorem tells_extent : extent.Tells c outside P fun _ => Anyhow := by
  refine tells_bind (tells_bound _ _) fun limit => tells_bind (tells_bound _ _) fun offset => ?_
  split
  · refine tells_within trivial (tells_bind (tells_emitBound ?_ limit) fun _ =>
      tells_emitBound ?_ offset)
    · exact fun _ => ⟨bound_of_none rfl, rfl⟩
    · exact fun _ => ⟨bound_of_none rfl, rfl⟩
  · exact tells_pure fun _ _ _ => trivial

theorem tells_conditionAndTail : conditionAndTail.Tells c outside Begins fun _ => Anyhow :=
  tells_bind (tells_within trivial tells_clauses) fun _ => tells_bind tells_sorting fun _ =>
    tells_extent

theorem tells_optionalCondition : optionalCondition.Tells c outside P fun _ => Anyhow := by
  refine tells_bind (tells_accept (by simp [Inert])) fun isFrom => ?_
  split
  · exact tells_conditionAndTail.imp (fun _ _ hb => by simpa using hb) fun _ _ _ h => h
  · refine tells_bind (tells_accept (by simp [Inert])) fun isWhere => ?_
    split
    · exact tells_conditionAndTail.imp (fun _ _ hb => by simpa using hb) fun _ _ _ h => h
    · exact tells_pure fun _ _ _ => trivial

/-! ## Statements -/

theorem failsSilently_iriTerm : iriTerm.FailsSilently := by
  refine failsSilently_bind (quiet_silent.take _) fun t => ?_
  split
  · exact failsSilently_emit _
  · exact failsSilently_bind (quiet_silent.qnameLeaf _ _ _) fun _ => failsSilently_emit _
  · exact (quiet_silent.failExpected _ _).failsSilently

theorem tells_iriTerm : iriTerm.Tells c outside Begins fun _ => Anyhow :=
  tells_of_yields failsSilently_iriTerm iriTerm_yields fun x hrefers =>
    ⟨.cons (ordinary_term hrefers.1) .nil, fun s b s' hb _ => by
      obtain rfl := hb
      refine ⟨?_, trivial⟩
      simp [Category.events, Category.iri, Outline.events, (Before.named_term (c := c) x).1]⟩

theorem failsSilently_projection : projection.FailsSilently := by
  refine failsSilently_bind (quiet_silent.take _) fun t => ?_
  split
  · exact failsSilently_emit _
  · exact failsSilently_bind (quiet_silent.expect _) fun _ =>
      failsSilently_bind (quiet_silent.takeAtom _ _) fun _ =>
        failsSilently_bind (quiet_silent.expect _) fun _ => failsSilently_emit _
  · exact (quiet_silent.failExpected _ _).failsSilently

theorem tells_projection : projection.Tells c outside P fun _ => Anyhow :=
  tells_of_yields failsSilently_projection projection_yields fun x _ => by
    cases x <;> exact ⟨.cons (bound_of_none rfl) .nil, fun s b s' _ _ => ⟨rfl, trivial⟩⟩

theorem tells_select (P : State → Before → Prop) :
    select.Tells c outside (fun s b => P s b ∧ s.ahead.head? = some (.keyword .select))
      fun _ => Anyhow := by
  refine tells_bind (tells_take?_seen (by simp [Inert])) fun _ => tells_within trivial ?_
  refine tells_bind (tells_items tells_projection fun _ => rfl) fun _ => tells_take_bind fun t => ?_
  split
  · next hword =>
    refine .inr ⟨?_, tells_conditionAndTail⟩
    obtain h | h := hword <;> simp [h, Inert]
  · exact .inl (fails_failExpected _ _)

theorem tells_mentioned (names : List String) :
    (names.forM fun name => emit (.leaf (.atom .var name))).Tells c outside P fun _ => P := by
  induction names with
  | nil => exact tells_pure fun _ _ hb => hb
  | cons name names ih => exact tells_bind (tells_leaf (bound_of_none rfl) rfl) fun _ => ih

theorem tells_insert (P : State → Before → Prop) :
    insert.Tells c outside (fun s b => P s b ∧ s.ahead.head? = some (.keyword .insert))
      fun _ => Anyhow := by
  refine tells_bind (tells_take?_seen (by simp [Inert])) fun _ => tells_within trivial ?_
  refine tells_take_bind fun t => ?_
  split
  · next content htoken =>
    have hfragment : (within .fragment do
        (Fragment.mentioned content).forM fun name => emit (.leaf (.atom .var name))
        emit (.leaf (.content content))).Tells c outside Begins fun _ => Begins := by
      refine tells_within trivial (tells_bind (tells_mentioned _) fun _ => ?_)
      exact tells_leaf (bound_of_none rfl) rfl
    exact .inr ⟨by simp [htoken, Inert], tells_bind hfragment fun _ => tells_optionalCondition⟩
  · exact .inl fun _ => ⟨_, rfl⟩

theorem tells_update (P : State → Before → Prop) :
    update.Tells c outside (fun s b => P s b ∧ s.ahead.head? = some (.keyword .update))
      fun _ => Anyhow :=
  tells_bind (tells_take?_seen (by simp [Inert])) fun _ => tells_within trivial
    (tells_bind (tells_items tells_predicate fun _ => rfl) fun _ => tells_optionalCondition)

theorem tells_deletion : deletion.Tells c outside Begins fun _ => Anyhow := by
  refine tells_bind (tells_look.imp (fun _ _ hb => hb) fun _ _ _ h => h.1) fun second => ?_
  split
  · exact tells_predicate
  · exact tells_term.anyhow

theorem tells_delete (P : State → Before → Prop) :
    delete.Tells c outside (fun s b => P s b ∧ s.ahead.head? = some (.keyword .delete))
      fun _ => Anyhow :=
  tells_bind (tells_take?_seen (by simp [Inert])) fun _ => tells_within trivial
    (tells_bind (tells_items tells_deletion fun _ => rfl) fun _ => tells_optionalCondition)

theorem tells_merge (P : State → Before → Prop) :
    merge.Tells c outside (fun s b => P s b ∧ s.ahead.head? = some (.keyword .merge))
      fun _ => Anyhow :=
  tells_bind (tells_take?_seen (by simp [Inert])) fun _ => tells_within trivial
    (tells_bind tells_term fun _ => tells_bind (tells_expect (by simp [Inert])) fun _ =>
      tells_bind tells_term fun _ => tells_optionalCondition)

theorem tells_requirePlus (t : PlacedToken) (what : String) :
    (requirePlus t what).Tells c outside P fun _ => P :=
  tells_of_silent (quiet_silent.requirePlus t what) fun s b _ s' _ hb hrun => by
    obtain ⟨-, -, rfl⟩ := runs_requirePlus.mp hrun
    exact ⟨[], State.Passes.refl s, rfl, hb⟩

theorem tells_load (P : State → Before → Prop) :
    load.Tells c outside (fun s b => P s b ∧ s.ahead.head? = some (.keyword .load))
      fun _ => Anyhow := by
  refine tells_bind (tells_take_seen (by simp [Inert])) fun t =>
    tells_bind (tells_requirePlus _ _) fun _ => tells_within trivial ?_
  refine tells_bind tells_iriTerm fun _ => tells_bind (tells_accept (by simp [Inert])) fun into => ?_
  split
  · refine tells_within trivial ((tells_items tells_iriTerm fun _ => rfl).imp (fun _ _ hb => ?_)
      fun _ _ _ h => h)
    simpa using hb
  · exact tells_pure fun _ _ _ => trivial

theorem tells_singleIri {word : Keyword} {what : String} {k : Container}
    (hk : (Event.enter k).Ordinary c outside) (P : State → Before → Prop) :
    (singleIri what k).Tells c outside (fun s b => P s b ∧ s.ahead.head? = some (.keyword word))
      fun _ => Anyhow :=
  tells_bind (tells_take_seen (by simp [Inert])) fun _ => tells_bind (tells_requirePlus _ _)
    fun _ => tells_within hk tells_iriTerm

theorem tells_statement : statement.Tells c outside Begins fun _ => Anyhow := by
  refine tells_bind tells_peek fun first => ?_
  split
  · exact tells_select _
  · exact tells_insert _
  · exact tells_update _
  · exact tells_delete _
  · exact tells_merge _
  · exact tells_load _
  · exact tells_singleIri (k := .drop) trivial _
  · exact tells_singleIri (k := .create) trivial _
  · have hselect : bareQuery.Tells c outside Begins fun _ => Anyhow :=
      tells_within trivial tells_conditionAndTail
    exact hselect.imp (fun _ _ hb => hb.1) fun _ _ _ h => h

/-! ## Rules -/

theorem tells_takeAtom (kind : AtomKind) (what : String) :
    (takeAtom kind what).Tells c outside P fun _ => Anyhow :=
  tells_of_silent (quiet_silent.takeAtom kind what) fun _ _ _ _ _ _ hrun =>
    ⟨_, (passes_of_takeAtom hrun).2, rfl, trivial⟩

theorem failsSilently_parameter : parameter.FailsSilently := by
  refine failsSilently_bind (quiet_silent.take _) fun t => ?_
  split
  · exact failsSilently_emit _
  · exact (quiet_silent.failExpected _ _).failsSilently

theorem tells_parameter : parameter.Tells c outside P fun _ => Anyhow :=
  tells_of_yields failsSilently_parameter parameter_yields fun _ _ =>
    ⟨.cons (bound_of_none rfl) .nil, fun _ _ _ _ _ => ⟨rfl, trivial⟩⟩

theorem tells_parameters : parameters.Tells c outside P fun _ => Begins := by
  refine tells_bind (tells_accept (by simp [Inert])) fun closed => ?_
  split
  · exact tells_pure fun _ _ hb => by simpa using hb
  · exact tells_bind ((tells_items tells_parameter fun _ => trivial).imp
      (fun _ _ _ => trivial) fun _ _ _ h => h) fun _ => tells_expect (by simp [Inert])

/-- What a rule reports inside its own container. -/
theorem tells_ruleBody :
    (do
      parameters
      expectMark .implies
      within .body clauses
      expectMark .dot : Parser Unit).Tells c outside P fun _ => Begins := by
  refine tells_bind tells_parameters fun _ => tells_bind (tells_expect (by simp [Inert])) fun _ => ?_
  refine tells_bind (tells_within trivial tells_clauses) fun _ => ?_
  exact tells_expect (by simp [Inert])

theorem tells_rule : rule.Tells c true P fun _ => Begins := by
  refine tells_bind (tells_takeAtom _ _) fun name => tells_bind (tells_expect (by simp [Inert])) fun _ => ?_
  exact tells_within rfl tells_ruleBody

theorem tells_rules (n : Nat) : (rules n).Tells c true Begins fun _ => Begins := by
  induction n with
  | zero => exact tells_pure fun _ _ hb => hb
  | succ n ih =>
      have hatRule : atRule.Tells c true Begins fun _ => Begins :=
        tells_of_silent quiet_silent.atRule fun s b _ s' _ hb hrun => by
          obtain ⟨-, rfl⟩ := atRule_runs hrun
          exact ⟨[], State.Passes.refl s, rfl, hb⟩
      refine tells_bind hatRule fun more => ?_
      split
      · exact tells_bind tells_rule fun _ => ih
      · exact tells_pure fun _ _ hb => hb

theorem tells_optionalStatement : optionalStatement.Tells c outside Begins fun _ => Anyhow := by
  refine tells_bind tells_peek fun first => ?_
  split
  · exact tells_pure fun _ _ _ => trivial
  · exact tells_pure fun _ _ _ => trivial
  · exact tells_statement.imp (fun _ _ hb => hb.1) fun _ _ _ h => h

/-- Nothing is left behind the end of a text. -/
theorem tells_ending : ending.Tells c outside Begins fun _ s _ => s.ahead = [] := by
  refine tells_bind tells_optionalStatement fun _ => tells_bind
    ((tells_accept (by simp [Inert])).imp (fun _ _ hb => hb) fun _ _ _ _ => trivial) fun _ => ?_
  refine tells_of_silent (quiet_silent.bind quiet_silent.take? fun last => ?_) ?_
  · split
    · exact quiet_silent.failAt _ _
    · exact quiet_silent.value _
  · intro s b _ s' _ _ hrun
    obtain ⟨_, last, s₁, _, htake, hrest, -⟩ := runs_bind.mp hrun
    obtain ⟨-, ⟨rfl, htokens, -, rfl⟩ | ⟨t, rest, rfl, -, -⟩⟩ := runs_take?.mp htake
    · obtain ⟨-, -, rfl⟩ := runs_pure.mp hrest
      exact ⟨[], State.Passes.refl s, rfl, by simp [State.ahead, htokens]⟩
    · simp at hrest

/-- What a text reports behind its directives. -/
theorem tells_behindDirectives (n : Nat) :
    (do rules n; ending : Parser Unit).Tells c true Begins fun _ s _ => s.ahead = [] :=
  tells_bind (tells_rules n) fun _ => tells_ending

end Statements

end TopicQuery.Grammar
