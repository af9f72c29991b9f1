import TopicQuery.Proofs.Offending.Clause
import TopicQuery.Proofs.Offending.Steady
import TopicQuery.Proofs.Recognized.Statement

/-!
Directives and statements in two runs that begin alike. What a directive settles is the same
in both runs as long as the token is ahead. What is deleted is told apart by its second
token, so the runs part at a first token that may be a term or the name of a call.
-/

namespace TopicQuery.Grammar.Spot

open Parser Phrase

variable {o : Spot} {pre : List PlacedToken} {s s' : State} {u : PlacedToken}

/-! ## Directives -/

theorem steady_countDirective : o.Steady countDirective countDirective :=
  steady_change (fun _ => rfl) fun _ _ _ h =>
    ⟨h.tokens, h.tokens', h.before, h.plus, h.bindings, congrArg (· + 1) h.directives⟩

theorem steady_bindPrefix (u : PlacedToken) (binding : Prefixed) :
    o.Steady (Grammar.bind u binding) (Grammar.bind u binding) := by
  refine steady_bind steady_countDirective fun _ => steady_state fun s s' _ hbindings _ => ?_
  rw [hbindings]
  split
  · split
    · exact steady_pure ()
    · exact steady_failAt rfl
  · exact steady_bind (steady_change (fun _ => rfl) fun _ _ _ h => ⟨h.tokens, h.tokens', h.before,
      h.plus, congrArg (binding :: ·) h.bindings, h.directives⟩) fun _ => steady_emit _ _

theorem steady_baseDirective (u : PlacedToken) : o.Steady (baseDirective u) (baseDirective u) := by
  refine steady_state fun s s' _ _ hdirectives => ?_
  rw [hdirectives]
  split
  · exact steady_failAt rfl
  · exact steady_bind (steady_takeAtom _ _) fun _ => steady_bind steady_countDirective fun _ =>
      steady_emit _ _

theorem steady_versionDirective : o.Steady versionDirective versionDirective := by
  refine steady_take fun u => judged_bind ?_ fun version => ?_
  · unfold versionText
    split
    · exact judged_of_steady (steady_pure _)
    · exact judged_of_steady (steady_pure _)
    · exact judged_failExpected
  · split
    · exact steady_bind (steady_change (fun _ => rfl) fun _ _ _ h => ⟨h.tokens, h.tokens', h.before,
        congrArg (· || version != "1.0") h.plus, h.bindings, h.directives⟩) fun _ =>
          steady_countDirective
    · exact steady_failAt rfl

theorem steady_bindingDirective (u : PlacedToken) (what : String) (kind : ReferenceKind) :
    o.Steady (bindingDirective u what kind) (bindingDirective u what kind) :=
  steady_bind (steady_takeAtom _ _) fun _ => steady_bind (steady_takeAtom _ _) fun _ =>
    steady_bindPrefix u _

theorem steady_percentDirective (u : PlacedToken) (name : String) :
    o.Steady (percentDirective u name) (percentDirective u name) := by
  unfold percentDirective
  split
  · exact steady_baseDirective u
  split
  · exact steady_versionDirective
  split
  · exact steady_bindingDirective u _ _
  split
  · exact steady_bindingDirective u _ _
  · exact steady_failAt rfl

theorem judged_locationText (what : String) :
    o.Judged u (locationText u what) (locationText u what) := by
  unfold locationText
  split
  · exact judged_of_steady (steady_pure _)
  · exact judged_of_steady (steady_pure _)
  · exact judged_failExpected

/-- `using` up to its first token, and what follows it. -/
theorem usingDirective_steady :
    ∃ rest : PlacedToken → Parser Unit, usingDirective = take "using" >>= rest ∧
      ∀ u, o.Steady (rest u) (rest u) := by
  refine ⟨_, rfl, fun t => steady_bind (steady_takeAtom _ _) fun identifier =>
    steady_bind (steady_expect _) fun _ => steady_take fun u => ?_⟩
  split
  · split
    · exact judged_of_steady (steady_bindPrefix t _)
    · exact judged_failExpected
  · exact judged_failExpected

/-- `import` up to its first token, and what follows it. -/
theorem importDirective_steady :
    ∃ rest : PlacedToken → Parser Unit, importDirective = take "import" >>= rest ∧
      ∀ u, o.Steady (rest u) (rest u) :=
  ⟨_, rfl, fun t => steady_take fun _ => judged_bind (judged_locationText _) fun _ =>
    steady_bind (steady_expect _) fun _ => steady_bind (steady_takeAtom _ _) fun _ =>
      steady_bindPrefix t _⟩

theorem quits_directives (n : Nat) : o.Quits (directives n) := by
  induction n with
  | zero => exact quits_pure ()
  | succ n ih =>
      refine quits_bind steady_peek.quits fun token => ?_
      split
      · exact quits_take fun u _ => quits_bind (steady_percentDirective u _).quits fun _ => ih
      · obtain ⟨rest, heq, hrest⟩ := usingDirective_steady (o := o)
        rw [heq]
        exact quits_bind (quits_take fun u _ => (hrest u).quits) fun _ => ih
      · obtain ⟨rest, heq, hrest⟩ := importDirective_steady (o := o)
        rw [heq]
        exact quits_bind (quits_take fun u _ => (hrest u).quits) fun _ => ih
      · exact quits_pure ()

/-- A directive takes its first token, so the runs are nearer to the token behind it. -/
theorem lockedAt_directive {what : String} {rest : PlacedToken → Parser Unit} {p p' : Parser Unit}
    (hrest : ∀ u, o.Steady (rest u) (rest u)) (h : o.Fork pre s s') (hquits : o.Quits p)
    (hnext : ∀ pre₁ s₁ s₁', o.Fork pre₁ s₁ s₁' → pre₁.length < pre.length →
      o.LockedAt pre₁ s₁ s₁' p p') :
    o.LockedAt pre s s' (take what >>= fun u => rest u >>= fun _ => p)
      (take what >>= fun u => rest u >>= fun _ => p') := by
  refine lockedAt_take h (fun _ => .inr (quits_bind (hrest _).quits fun _ => hquits))
    fun u pre₁ s₁ s₁' hpre _ h₁ => ?_
  refine lockedAt_bind ((hrest u).locked _ _ _ h₁) (fun _ => hquits) fun _ _ s₂ pre₂ s₂' _ h₂ hle =>
    hnext pre₂ s₂ s₂' h₂ ?_
  rw [hpre, List.length_cons]
  exact Nat.lt_succ_of_le hle

/-- Both runs come to the token before they come to the bound. -/
theorem lockedAt_directives {n n' : Nat} (h : o.Fork pre s s') (hn : pre.length < n)
    (hn' : pre.length < n') : o.LockedAt pre s s' (directives n) (directives n') := by
  induction n generalizing pre s s' n' with
  | zero => omega
  | succ n ih =>
      obtain ⟨n', rfl⟩ : ∃ m, n' = m + 1 := ⟨n' - 1, by omega⟩
      have hnext : ∀ pre₁ s₁ s₁', o.Fork pre₁ s₁ s₁' → pre₁.length < pre.length →
          o.LockedAt pre₁ s₁ s₁' (directives n) (directives n') := fun pre₁ s₁ s₁' h₁ hlt =>
        ih h₁ (by omega) (by omega)
      refine lockedAt_peek h ?_
      split
      · next name _ =>
        exact lockedAt_directive (steady_percentDirective · name) h (quits_directives n) hnext
      · obtain ⟨rest, heq, hrest⟩ := usingDirective_steady (o := o)
        rw [heq, bind_assoc, bind_assoc]
        exact lockedAt_directive hrest h (quits_directives n) hnext
      · obtain ⟨rest, heq, hrest⟩ := importDirective_steady (o := o)
        rw [heq, bind_assoc, bind_assoc]
        exact lockedAt_directive hrest h (quits_directives n) hnext
      · exact lockedAt_pure h ()

/-! ## Order and extent -/

theorem steady_unsigned (what : String) : o.Steady (unsigned what) (unsigned what) := by
  refine steady_take fun u => ?_
  split
  · split
    · exact judged_of_steady (steady_pure _)
    · exact judged_failExpected
  · exact judged_failExpected

theorem steady_sortKey : o.Steady sortKey sortKey := by
  refine steady_bind (steady_takeAtom _ _) fun name => steady_bind (steady_accept _) fun desc => ?_
  split
  · exact steady_emit _ _
  · exact steady_bind (steady_accept _) fun _ => steady_emit _ _

theorem steady_bound (word : Keyword) (what : String) :
    o.Steady (bound word what) (bound word what) := by
  refine steady_bind (steady_accept _) fun found => ?_
  split
  · exact steady_bind (steady_unsigned what) fun _ => steady_pure _
  · exact steady_pure _

theorem steady_emitBound (leaf : UInt64 → Leaf) (n : Option UInt64) :
    o.Steady (emitBound leaf n) (emitBound leaf n) := by
  cases n with
  | none => exact steady_pure ()
  | some n => exact steady_emit _ _

theorem steady_sorting : o.Steady sorting sorting := by
  refine steady_bind (steady_accept _) fun found => ?_
  split
  · exact steady_bind (steady_expect _) fun _ => steady_within (steady_items steady_sortKey)
  · exact steady_pure ()

theorem steady_extent : o.Steady extent extent := by
  refine steady_bind (steady_bound _ _) fun limit => steady_bind (steady_bound _ _) fun offset => ?_
  split
  · exact steady_within (steady_bind (steady_emitBound _ _) fun _ => steady_emitBound _ _)
  · exact steady_pure ()

section Conditions

variable (hspared : ∀ g, Foreseen o.before o.token o.behind g → o.spared g)

include hspared

theorem steady_conditionAndTail : o.Steady conditionAndTail conditionAndTail :=
  steady_bind (steady_within (steady_clauses hspared)) fun _ =>
    steady_bind steady_sorting fun _ => steady_extent

theorem steady_optionalCondition : o.Steady optionalCondition optionalCondition := by
  refine steady_bind (steady_accept _) fun found => ?_
  split
  · exact steady_conditionAndTail hspared
  · refine steady_bind (steady_accept _) fun found => ?_
    split
    · exact steady_conditionAndTail hspared
    · exact steady_pure ()

end Conditions

/-! ## What is selected and changed -/

theorem steady_projection : o.Steady projection projection := by
  refine steady_take fun u => ?_
  split
  · exact judged_of_steady (steady_emit _ _)
  · exact judged_of_steady (steady_bind (steady_expect _) fun _ =>
      steady_bind (steady_takeAtom _ _) fun _ => steady_bind (steady_expect _) fun _ =>
        steady_emit _ _)
  · exact judged_failExpected

theorem steady_forM_emit (names : List String) (leaf : String → Leaf) :
    o.Steady (names.forM fun name => emit (.leaf (leaf name)))
      (names.forM fun name => emit (.leaf (leaf name))) := by
  induction names with
  | nil => exact steady_pure ()
  | cons name names ih => exact steady_bind (steady_emit _ _) fun _ => ih

section Statements

variable (hspared : ∀ g, Foreseen o.before o.token o.behind g → o.spared g)

include hspared

/-- A call and a term that begin with the token: the runs see different second tokens. -/
theorem steady_deletion : o.Steady deletion deletion := by
  have hquits : ∀ second : Option Token,
      o.Quits (if second = some (.symbol .lparen) then predicate else term) := by
    intro second
    split
    · exact (steady_predicate hspared).quits
    · exact steady_term.quits
  unfold deletion peekAt
  refine ⟨quits_bind (quits_look _) hquits, fun pre s s' h => lockedAt_look ?_⟩
  dsimp only
  cases pre with
  | cons u pre =>
      obtain ⟨w, rest, rest', htokens, htokens'⟩ := h.second
      simp only [htokens, htokens', List.getElem?_cons_succ, List.getElem?_cons_zero]
      split
      · exact (steady_predicate hspared).locked _ _ _ h
      · exact steady_term.locked _ _ _ h
  | nil =>
      obtain ⟨htokens, htokens'⟩ := h.nil
      split <;> split
      · exact (steady_predicate hspared).locked _ _ _ h
      · intro hsucceeds
        obtain ⟨u, more, hcons, hbegins⟩ := beginsTerm_of_succeeds hsucceeds
        obtain rfl := (List.cons.inj (hcons.symm.trans htokens')).1
        exact (over_predicate hspared h hbegins).along
      · intro hsucceeds
        obtain ⟨_, name, _, -, hahead⟩ := name_of_succeeds hsucceeds
        obtain ⟨u, more, hcons, hbegins⟩ := beginsTerm_of_ahead hahead
        obtain rfl := (List.cons.inj (hcons.symm.trans htokens')).1
        exact (over_term h hbegins).along
      · exact steady_term.locked _ _ _ h

theorem steady_select : o.Steady select select := by
  refine steady_skip (steady_within (steady_bind (steady_items steady_projection) fun _ =>
    steady_take fun u => ?_))
  split
  · exact judged_of_steady (steady_conditionAndTail hspared)
  · exact judged_failExpected

theorem steady_insert : o.Steady insert insert := by
  refine steady_skip (steady_within (steady_take fun u => ?_))
  split
  · exact judged_of_steady (steady_bind (steady_within (steady_bind (steady_forM_emit _ _)
      fun _ => steady_emit _ _)) fun _ => steady_optionalCondition hspared)
  · exact judged_bind judged_failExpected fun _ => steady_optionalCondition hspared

theorem steady_update : o.Steady update update :=
  steady_skip (steady_within (steady_bind (steady_items (steady_predicate hspared)) fun _ =>
    steady_optionalCondition hspared))

theorem steady_delete : o.Steady delete delete :=
  steady_skip (steady_within (steady_bind (steady_items (steady_deletion hspared)) fun _ =>
    steady_optionalCondition hspared))

theorem steady_merge : o.Steady merge merge :=
  steady_skip (steady_within (steady_bind steady_term fun _ => steady_bind (steady_expect _)
    fun _ => steady_bind steady_term fun _ => steady_optionalCondition hspared))

omit hspared in
theorem steady_load : o.Steady load load := by
  refine steady_take fun u => judged_of_steady (steady_bind (steady_requirePlus u _) fun _ => ?_)
  refine steady_within (steady_bind steady_iriTerm fun _ =>
    steady_bind (steady_accept _) fun into => ?_)
  split
  · exact steady_within (steady_items steady_iriTerm)
  · exact steady_pure ()

omit hspared in
theorem steady_singleIri (what : String) (container : Container) :
    o.Steady (singleIri what container) (singleIri what container) :=
  steady_take fun u => judged_of_steady (steady_bind (steady_requirePlus u _) fun _ =>
    steady_within steady_iriTerm)

theorem steady_statement : o.Steady statement statement := by
  refine steady_bind steady_peek fun token => ?_
  split
  · exact steady_select hspared
  · exact steady_insert hspared
  · exact steady_update hspared
  · exact steady_delete hspared
  · exact steady_merge hspared
  · exact steady_load
  · exact steady_singleIri _ _
  · exact steady_singleIri _ _
  · exact steady_within (steady_conditionAndTail hspared)

end Statements

end TopicQuery.Grammar.Spot
