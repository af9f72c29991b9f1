import TopicQuery.Proofs.Accepted.Clause
import TopicQuery.Proofs.Offending.Call

/-!
Clauses in two runs that begin alike. A term in front of an operator and the name of
a call begin alike, and the runs part within the term if one sees an operator behind
it and the other one does not.
-/

namespace TopicQuery.Grammar

open Parser Phrase

/-- The token is the reference behind a mark. -/
def Reference (t : Token) : Prop :=
  (∃ text, t = .atom .iri text) ∨ (∃ name, t = .qname name) ∨ ∃ name, t = .curie name

/-- The operator that a token stands for. -/
def operatorOf : Token → Option Comparison
  | .symbol mark => mark.comparison?
  | _ => none

/-- The operator that is seen behind the term at the front. -/
def operatorSeen (tokens : List PlacedToken) : Option Comparison :=
  (termSize tokens).value.bind fun size => tokens[size]?.bind fun t => operatorOf t.token

section Seen

variable {s : State}

theorem gives_comparisonAhead : comparisonAhead.Gives s (operatorSeen s.tokens) s := by
  intro _ _ _ h
  unfold operatorSeen
  obtain ⟨_, size, s₁, _, hlook, h₁, -⟩ := runs_bind.mp h
  obtain ⟨-, rfl, rfl, -⟩ := runs_look.mp hlook
  cases hsize : (termSize s.tokens).value with
  | none =>
      rw [hsize] at h₁
      obtain ⟨-, rfl, rfl⟩ := runs_pure.mp h₁
      exact ⟨rfl, rfl⟩
  | some size =>
      rw [hsize] at h₁
      obtain ⟨_, token, s₂, _, hpeek, h₂, -⟩ := runs_bind.mp h₁
      obtain ⟨-, rfl, rfl, -⟩ := runs_look.mp hpeek
      rw [Option.bind_some]
      cases ht : s.tokens[size]? with
      | none =>
          simp only [ht, Option.map_none] at h₂
          obtain ⟨-, rfl, rfl⟩ := runs_pure.mp h₂
          exact ⟨rfl, rfl⟩
      | some t =>
          simp only [ht, Option.map_some] at h₂
          rw [Option.bind_some]
          cases htoken : t.token <;>
          · simp only [htoken] at h₂
            obtain ⟨-, rfl, rfl⟩ := runs_pure.mp h₂
            exact ⟨rfl, rfl⟩

end Seen

/-! ## Short terms -/

section Terms

variable {u v w : PlacedToken} {rest rest' : List PlacedToken}

/-- Behind a term of one token its next token is looked at. -/
theorem operatorSeen_alone (hu : Alone u.token)
    (hw : ∀ text, u.token = .atom .string text → w.token ≠ .symbol .hatHat) :
    operatorSeen (u :: w :: rest) = operatorOf w.token := by
  have hsize : ∀ more, (termSize (u :: w :: more)).value = some 1 := by
    intro more
    obtain ⟨kind, text, hu⟩ | ⟨name, hu⟩ | ⟨name, hu⟩ := hu
    · cases kind with
      | string => simp [termSize, hu, hw text hu]
      | _ => simp [termSize, hu]
    · simp [termSize, hu]
    · simp [termSize, hu]
  simp [operatorSeen, hsize]

theorem operatorSeen_marked {m : Marker} (hu : u.token = .symbol m.symbol)
    (hv : Reference v.token) : operatorSeen (u :: v :: w :: rest) = operatorOf w.token := by
  have hsize : ∀ more, (termSize (u :: v :: w :: more)).value = some 2 := by
    intro more
    have hmark : ∀ tokens,
        (termSize (u :: tokens)).value = (termSize tokens).value.map (· + 1) := by
      intro tokens
      cases m <;> simp [termSize, hu, Marker.symbol, markedKind?]
    rw [hmark]
    obtain ⟨text, hv⟩ | ⟨name, hv⟩ | ⟨name, hv⟩ := hv <;> simp [termSize, hv]
  simp [operatorSeen, hsize]

/-- A term is one token, a typed string, or a mark and the reference behind it. -/
theorem tokens_term (x : Phrase.Term) :
    (∃ t, x.tokens = [t] ∧ Alone t ∧ ((∃ text, t = .atom .string text) → ∀ rest, x.Ends rest →
        rest.head? ≠ some (.symbol .hatHat))) ∨
      (∃ text t, x.tokens = [.atom .string text, .symbol .hatHat, t] ∧ ∀ c, ¬x.Names c) ∨
      ∃ (m : Marker) (t : Token), x.tokens = [.symbol m.symbol, t] ∧ Reference t := by
  cases x with
  | atom kind text =>
      refine .inl ⟨_, rfl, .inl ⟨kind, text, rfl⟩, ?_⟩
      rintro ⟨text', heq⟩ rest hends
      cases heq
      exact hends
  | literal text d => exact .inr (.inl ⟨text, datatypeToken d, rfl, fun _ => id⟩)
  | qname marker name =>
      cases marker with
      | none => exact .inl ⟨_, rfl, .inr (.inl ⟨name, rfl⟩), nofun⟩
      | some m => exact .inr (.inr ⟨m, _, rfl, .inr (.inl ⟨name, rfl⟩)⟩)
  | curie marker name =>
      cases marker with
      | none => exact .inl ⟨_, rfl, .inr (.inr ⟨name, rfl⟩), nofun⟩
      | some m => exact .inr (.inr ⟨m, _, rfl, .inr (.inr ⟨name, rfl⟩)⟩)
  | iri m text => exact .inr (.inr ⟨m, _, rfl, .inl ⟨text, rfl⟩⟩)

end Terms

namespace Spot

variable {o : Spot} {α β : Type} {pre : List PlacedToken} {s s' : State} {u : PlacedToken}

/-! ## Names that begin with the token -/

theorem quits_calleeOf (hbegins : BeginsTerm u.token) (hmark : markedKind? u.token = none)
    (hatom : ∀ kind text, u.token = .atom kind text →
      o.spared (.expected "a predicate name" u.token)) : o.Quits (calleeOf u none) := by
  unfold calleeOf
  split
  · exact quits_bind (quits_pure _) fun _ => quits_pure _
  · refine quits_bind (steady_kindOf u _).quits fun kind => ?_
    split
    · exact quits_fail (not_blames_of_found rfl)
    all_goals exact quits_pure _
  · exact quits_bind (steady_curieLeaf ..).quits fun _ => quits_pure _
  · exact quits_pure _
  · next kind text _ _ htoken =>
    split
    · exact quits_bind (quits_pure _) fun _ => quits_pure _
    · exact quits_fail (not_blames_spared (hatom kind text htoken))
  · next hidentifier hqname hcurie hiri hother =>
    obtain (⟨kind, text, htoken⟩ | ⟨name, htoken⟩ | ⟨name, htoken⟩) | ⟨m, htoken⟩ := hbegins.cases
    · exact absurd htoken (hother kind text)
    · exact absurd htoken (hqname name)
    · exact absurd htoken (hcurie name)
    · rw [htoken] at hmark
      cases m <;> cases hmark

theorem quits_calleeOf_marked (h : Reference u.token) (marker : ReferenceKind) :
    o.Quits (calleeOf u (some marker)) := by
  unfold calleeOf
  obtain ⟨text, hu⟩ | ⟨name, hu⟩ | ⟨name, hu⟩ := h <;> simp only [hu]
  · exact quits_pure _
  · refine quits_bind (steady_kindOf u _).quits fun kind => ?_
    split
    · exact quits_fail (not_blames_of_found rfl)
    all_goals exact quits_pure _
  · exact quits_bind (steady_curieLeaf ..).quits fun _ => quits_pure _

theorem quits_marked (h : Reference u.token) (marker : ReferenceKind) :
    o.Quits
      (match u.token with
      | .atom .iri value => return markedIri (some marker) value
      | .qname name => qnameLeaf u name (some marker)
      | .curie name => curieLeaf u name (some marker)
      | _ => failExpected u markable : Parser Leaf) := by
  obtain ⟨text, hu⟩ | ⟨name, hu⟩ | ⟨name, hu⟩ := h <;> simp only [hu]
  · exact quits_pure _
  · exact (steady_qnameLeaf ..).quits
  · exact (steady_curieLeaf ..).quits

theorem steady_named (hspared : ∀ g, Foreseen o.before o.token o.behind g → o.spared g)
    (marker : Option ReferenceKind) :
    o.Steady (take "a predicate name" >>= fun t => look (callShape 0) >>= named t marker)
      (take "a predicate name" >>= fun t => look (callShape 0) >>= named t marker) :=
  steady_take fun u => judged_named hspared u marker

theorem quits_look_named {marker : Option ReferenceKind} (h : o.Quits (calleeOf u marker)) :
    o.Quits (look (callShape 0) >>= named u marker) :=
  quits_bind (quits_look _) (quits_named h)

/-- A call without a mark is behind its name what is seen of its arguments. -/
theorem over_predicate_unmarked {rest : List PlacedToken} (htokens : s.tokens = u :: rest)
    (hmark : markedKind? u.token = none)
    (hnamed : o.Over (s.behind u rest) (named u none (callShape 0 rest).value)) :
    o.Over s predicate := by
  rw [predicate_eq, calleeMarker, bind_assoc]
  refine over_peek ?_
  have hhead : s.ahead.head? = some u.token := by simp [State.ahead, htokens]
  rw [hhead, Option.bind_some, hmark, pure_bind]
  exact over_take htokens (over_look hnamed)

/-- A call whose name begins with the token is past it. -/
theorem over_predicate (hspared : ∀ g, Foreseen o.before o.token o.behind g → o.spared g)
    (h : o.Fork [] s s') (hbegins : BeginsTerm o.token.token) : o.Over s predicate := by
  cases hmark : markedKind? o.token.token with
  | some marker =>
      rw [predicate_eq, calleeMarker, bind_assoc]
      refine over_peek ?_
      have hhead : s.ahead.head? = some o.token.token := by simp [State.ahead, h.nil.1]
      rw [hhead, Option.bind_some, hmark, bind_assoc]
      exact over_take h.nil.1 (quits_bind (quits_bind (steady_requirePlus _ _).quits fun _ =>
        quits_pure _) (fun marker => (steady_named hspared marker).quits) _ h.clear)
  | none =>
      refine over_predicate_unmarked h.nil.1 hmark ?_
      cases hseen : (callShape 0 o.behind).value with
      | none => exact quits_named_none _ h.clear
      | some shape =>
          refine over_bind (quits_calleeOf hbegins hmark (fun kind text hatom => ?_) _ h.clear)
            (quits_called shape)
          obtain ⟨t, rest, _, hbehind, ht, -⟩ := shapeFrom_of_callShape hseen
          exact hspared _ (.name hatom (by simp [hbehind, ht]))

/-- A call whose name is the token behind a mark is past it. -/
theorem over_predicate_marked {m : Marker} (h : o.Fork [u] s s')
    (hu : u.token = .symbol m.symbol) (href : Reference o.token.token) : o.Over s predicate := by
  obtain ⟨rest, rest', htokens, htokens'⟩ := h.cons
  have hnext := h.next htokens htokens'
  rw [predicate_eq, calleeMarker, bind_assoc]
  refine over_peek ?_
  have hhead : s.ahead.head? = some (.symbol m.symbol) := by simp [State.ahead, htokens, hu]
  rw [hhead, Option.bind_some, markedKind?_symbol]
  simp only [bind_assoc, pure_bind]
  exact over_take htokens (over_requirePlus
    (over_take hnext.nil.1 (quits_look_named (quits_calleeOf_marked href _) _ hnext.clear)))

/-- A typed string is not the name of a call: the recognizer complains about what types it. -/
theorem over_predicate_string {w : PlacedToken} {rest : List PlacedToken} {text : String}
    (hu : u.token = .atom .string text) (htokens : s.tokens = u :: w :: rest)
    (hw : w.token = .symbol .hatHat) (hspared : ¬o.token.Alike w ∨
      o.spared (.expected "'(' after the predicate name" w.token)) : o.Over s predicate := by
  refine over_predicate_unmarked htokens (by rw [hu]; rfl) ?_
  have hseen : (callShape 0 (w :: rest)).value = none := by simp [callShape, hw]
  rw [hseen]
  refine over_take? rfl ?_
  obtain hapart | hspared := hspared
  · exact over_failExpected hapart
  · exact over_fail (not_blames_spared hspared)

/-- A term that is the token behind a mark is past it. -/
theorem over_term_marked {m : Marker} (h : o.Fork [u] s s') (hu : u.token = .symbol m.symbol)
    (href : Reference o.token.token) : o.Over s term := by
  obtain ⟨rest, rest', htokens, htokens'⟩ := h.cons
  have hnext := h.next htokens htokens'
  have hmarked : o.Over (s.behind u rest) (marked m.kind) :=
    over_take hnext.nil.1 (quits_marked href _ _ hnext.clear)
  have hleaf : termLeaf u = requirePlus u "reference markers" >>= fun _ => marked m.kind := by
    unfold termLeaf
    rw [hu]
    cases m <;> rfl
  refine over_take htokens (over_bind ?_ fun _ => quits_emit _)
  rw [hleaf]
  exact over_requirePlus hmarked

/-! ## Comparisons -/

theorem steady_comparison (operator operator' : Comparison) :
    o.Steady (comparison operator) (comparison operator') :=
  steady_within (steady_bind (steady_within steady_term) fun _ => steady_take fun u =>
    judged_of_steady (steady_bind (steady_requirePlus u _) fun _ => steady_within steady_term))

theorem over_comparison {operator : Comparison} (h : o.Over s term) :
    o.Over s (comparison operator) :=
  over_within (over_bind (over_within h) fun _ => quits_take fun u _ =>
    quits_bind (steady_requirePlus u _).quits fun _ => quits_within steady_term.quits)

/-- A call is taken from its name and the parenthesis behind it. -/
theorem name_of_succeeds (h : predicate.Succeeds s) :
    ∃ (c : Scope) (name : Phrase.Term) (more : List Token), name.Names c ∧
      s.ahead = name.tokens ++ .symbol .lparen :: more := by
  obtain ⟨_, _, s₁, hruns⟩ := h
  obtain ⟨call, hcall⟩ := predicate_yields hruns
  obtain ⟨behind, hbehind⟩ := tokens_call call
  have hpasses := hcall.passes.ahead
  rw [show Category.call.tokens call = call.tokens from rfl, hbehind, List.append_assoc,
    List.cons_append] at hpasses
  exact ⟨_, call.name, _, hcall.refers.1, hpasses⟩

/-- The first run sees an operator, the second one takes a call: the token is part of the term. -/
theorem lockedAt_comparison_predicate {operator : Comparison} (h : o.Fork pre s s')
    (hseen : operatorSeen s.tokens = some operator) :
    o.LockedAt pre s s' (comparison operator) predicate := by
  intro hsucceeds
  obtain ⟨c, name, more, hnames, hahead⟩ := name_of_succeeds hsucceeds
  refine Over.along ?_
  obtain ⟨t, hterm, ht, -⟩ | ⟨_, _, -, hnot⟩ | ⟨m, t, hterm, href⟩ := tokens_term name
  · rw [hterm] at hahead
    cases pre with
    | nil =>
        obtain ⟨htokens, htokens'⟩ := h.nil
        simp only [State.ahead, htokens', List.map_cons, List.cons_append, List.nil_append,
          List.cons.injEq] at hahead
        obtain ⟨rfl, -⟩ := hahead
        exact over_comparison (over_term h (ht.beginsTerm))
    | cons u pre =>
        obtain ⟨w, rest, rest', htokens, htokens'⟩ := h.second
        simp only [State.ahead, htokens', List.map_cons, List.cons_append, List.nil_append,
          List.cons.injEq] at hahead
        obtain ⟨rfl, hw, -⟩ := hahead
        rw [htokens, operatorSeen_alone ht (by simp [hw]), hw] at hseen
        cases hseen
  · exact (hnot _ hnames).elim
  · rw [hterm] at hahead
    match pre with
    | [] =>
        obtain ⟨htokens, htokens'⟩ := h.nil
        simp only [State.ahead, htokens', List.map_cons, List.cons_append, List.nil_append,
          List.cons.injEq] at hahead
        exact over_comparison (over_term h (hahead.1 ▸ beginsTerm_symbol m))
    | [u] =>
        have htokens' := h.tokens'
        simp only [State.ahead, htokens', List.map_cons, List.cons_append, List.nil_append,
          List.cons.injEq] at hahead
        exact over_comparison (over_term_marked h hahead.1 (hahead.2.1 ▸ href))
    | u :: v :: pre =>
        obtain ⟨w, rest, rest', htokens, htokens'⟩ := h.third
        simp only [State.ahead, htokens', List.map_cons, List.cons_append, List.nil_append,
          List.cons.injEq] at hahead
        obtain ⟨hu, rfl, hw, -⟩ := hahead
        rw [htokens, operatorSeen_marked hu href, hw] at hseen
        cases hseen

/-- The second run sees an operator, the first one takes a call: the token is part of the term. -/
theorem lockedAt_predicate_comparison
    (hspared : ∀ g, Foreseen o.before o.token o.behind g → o.spared g) {operator : Comparison}
    (h : o.Fork pre s s') (hnone : operatorSeen s.tokens = none)
    (hsome : operatorSeen s'.tokens = some operator) :
    o.LockedAt pre s s' predicate (comparison operator) := by
  intro hsucceeds
  obtain ⟨_, _, s₁, hruns⟩ := succeeds_within (succeeds_first (succeeds_within hsucceeds))
  obtain ⟨x, hx, -⟩ := term_runs hruns
  have hahead : s'.ahead = x.tokens ++ s₁.ahead := hx.passes.ahead
  refine Over.along ?_
  cases pre with
  | nil =>
      obtain ⟨htokens, htokens'⟩ := h.nil
      obtain ⟨t, more, hcons⟩ := List.exists_cons_of_ne_nil x.tokens_ne_nil
      rw [hcons, State.ahead, htokens'] at hahead
      refine over_predicate hspared h (beginsTerm_of_head? (x := x) ?_)
      rw [hcons]
      exact congrArg some (List.cons.inj hahead).1.symm
  | cons u pre =>
      obtain ⟨w, rest, rest', htokens, htokens'⟩ := h.second
      obtain ⟨t, hterm, ht, hends⟩ | ⟨text, t, hterm, -⟩ | ⟨m, t, hterm, href⟩ := tokens_term x
      · -- both runs look at the token behind the term
        simp only [State.ahead, htokens', hterm, List.map_cons, List.cons_append, List.nil_append,
          List.cons.injEq] at hahead
        obtain ⟨rfl, hbehind⟩ := hahead
        have hw : ∀ text, u.token = .atom .string text → w.token ≠ .symbol .hatHat :=
          fun text hu heq => hends ⟨text, hu⟩ _ hx.ends (by simp [State.ahead, ← hbehind, heq])
        rw [htokens, operatorSeen_alone ht hw] at hnone
        rw [htokens', operatorSeen_alone ht hw, hnone] at hsome
        cases hsome
      · simp only [State.ahead, htokens', hterm, List.map_cons, List.cons_append,
          List.cons.injEq] at hahead
        refine over_predicate_string hahead.1 htokens hahead.2.1 ?_
        cases pre with
        | nil =>
            obtain ⟨rfl, -⟩ : o.token = w ∧ o.behind = rest := by
              simpa [htokens] using h.tokens.symm
            obtain ⟨front, hfront⟩ := h.before
            exact .inr (hspared _ (.typedString hahead.2.1 hfront.symm hahead.1))
        | cons v pre =>
            obtain ⟨rfl, -⟩ : v = w ∧ pre ++ o.token :: o.behind = rest := by
              simpa [htokens] using h.tokens.symm
            exact .inl (h.apart v (by simp))
      · match pre with
        | [] =>
            obtain ⟨rfl, -⟩ : o.token = w ∧ o.behind = rest := by
              simpa [htokens] using h.tokens.symm
            simp only [State.ahead, htokens', hterm, List.map_cons, List.cons_append,
              List.nil_append, List.cons.injEq] at hahead
            exact over_predicate_marked h hahead.1 (hahead.2.1 ▸ href)
        | v :: pre =>
            obtain ⟨w, rest, rest', htokens, htokens'⟩ := h.third
            simp only [State.ahead, htokens', hterm, List.map_cons, List.cons_append,
              List.nil_append, List.cons.injEq] at hahead
            obtain ⟨hu, rfl, -⟩ := hahead
            rw [htokens, operatorSeen_marked hu href] at hnone
            rw [htokens', operatorSeen_marked hu href, hnone] at hsome
            cases hsome

theorem silent_comparisonAhead : o.Silent comparisonAhead := by
  intro s fault h
  obtain h | ⟨_, size, s₁, -, h⟩ := stops_bind.mp h
  · exact silent_look _ _ _ h
  · cases size with
    | none => exact (stops_pure.mp h).elim
    | some size =>
        obtain h | ⟨_, token, s₂, -, h⟩ := stops_bind.mp h
        · unfold peekAt at h
          exact silent_look _ _ _ h
        · split at h <;> exact (stops_pure.mp h).elim

theorem steady_comparisonOrCall (hspared : ∀ g, Foreseen o.before o.token o.behind g → o.spared g) :
    o.Steady (comparisonAhead >>= fun
        | some operator => comparison operator
        | none => predicate)
      (comparisonAhead >>= fun
        | some operator => comparison operator
        | none => predicate) := by
  refine ⟨?_, fun pre s s' h => lockedAt_rest (Nat.le_refl _) silent_comparisonAhead
    gives_comparisonAhead gives_comparisonAhead ?_⟩
  · refine quits_bind (quits_of_gives silent_comparisonAhead fun _ => ⟨_, gives_comparisonAhead⟩)
      fun operator => ?_
    cases operator with
    | none => exact (steady_predicate hspared).quits
    | some operator => exact (steady_comparison operator operator).quits
  · cases hseen : operatorSeen s.tokens <;> cases hseen' : operatorSeen s'.tokens
    · exact (steady_predicate hspared).locked _ _ _ h
    · exact lockedAt_predicate_comparison hspared h hseen hseen'
    · exact lockedAt_comparison_predicate h hseen
    · exact (steady_comparison _ _).locked _ _ _ h

/-! ## Lists of clauses -/

theorem quits_moreBranches {clauses : Parser Unit} {n : Nat}
    (h : ∀ shortCircuit, o.Quits (branchesUpTo clauses shortCircuit n)) :
    o.Quits (do
      match ← peek with
      | some (.symbol .bar) => do
        let _ ← take?
        branchesUpTo clauses false n
      | some (.symbol .barBar) => do
        let _ ← take?
        branchesUpTo clauses true n
      | _ => return () : Parser Unit) := by
  refine quits_bind steady_peek.quits fun token => ?_
  split
  · exact quits_take? (h _) fun _ _ => h _
  · exact quits_take? (h _) fun _ _ => h _
  · exact quits_pure ()

theorem quits_branchesUpTo {clauses : Parser Unit} (h : o.Quits clauses) (n : Nat)
    (shortCircuit : Bool) : o.Quits (branchesUpTo clauses shortCircuit n) := by
  induction n generalizing shortCircuit with
  | zero => exact quits_within h
  | succ n ih => exact quits_bind (quits_within h) fun _ => quits_moreBranches ih

/-- Both runs come to the token before they come to the bound. -/
theorem lockedAt_branchesUpTo {clauses clauses' : Parser Unit}
    (hclauses : o.Steady clauses clauses') {n n' : Nat} {shortCircuit : Bool}
    (h : o.Fork pre s s') (hn : pre.length < n) (hn' : pre.length < n') :
    o.LockedAt pre s s' (branchesUpTo clauses shortCircuit n)
      (branchesUpTo clauses' shortCircuit n') := by
  induction n generalizing pre s s' n' shortCircuit with
  | zero => omega
  | succ n ih =>
      obtain ⟨n', rfl⟩ : ∃ m, n' = m + 1 := ⟨n' - 1, by omega⟩
      have hmore : ∀ {pre₁ : List PlacedToken} {s₁ s₁' : State} (shortCircuit : Bool),
          o.Fork pre₁ s₁ s₁' → pre₁.length ≤ pre.length →
          o.LockedAt pre₁ s₁ s₁' (take? >>= fun _ => branchesUpTo clauses shortCircuit n)
            (take? >>= fun _ => branchesUpTo clauses' shortCircuit n') := by
        intro pre₁ s₁ s₁' shortCircuit h₁ hle
        refine lockedAt_take? h₁ (fun _ => .inr (quits_branchesUpTo hclauses.quits n _))
          fun u pre₂ s₂ s₂' hpre _ h₂ => ?_
        rw [hpre, List.length_cons] at hle
        exact ih h₂ (by omega) (by omega)
      refine lockedAt_bind ((steady_within hclauses).locked _ _ _ h)
        (fun _ => quits_moreBranches (quits_branchesUpTo hclauses.quits n))
        fun _ _ s₁ pre₁ s₁' _ h₁ hle => ?_
      refine lockedAt_peek h₁ ?_
      split
      · exact hmore false h₁ hle
      · exact hmore true h₁ hle
      · exact lockedAt_pure h₁ ()

theorem steady_clause (hspared : ∀ g, Foreseen o.before o.token o.behind g → o.spared g)
    {clauses clauses' : Parser Unit} (h : o.Steady clauses clauses') :
    o.Steady (clause clauses) (clause clauses') := by
  refine steady_bind steady_peek fun token => ?_
  split
  · exact steady_failAtEnd
  · exact steady_skip (steady_within (steady_bind (steady_expect _) fun _ => steady_bind h fun _ =>
      steady_expect _))
  · refine steady_skip (steady_within ⟨?_, fun pre s s' hfork => lockedAt_state ?_⟩)
    · exact quits_bind quits_state fun s => quits_bind (quits_branchesUpTo h.quits _ _) fun _ =>
        (steady_expect _).quits
    · exact lockedAt_bind
        (lockedAt_branchesUpTo h hfork (length_lt_tokens hfork).1 (length_lt_tokens hfork).2)
        (fun _ => (steady_expect _).quits) fun _ _ _ _ _ _ h₁ _ => (steady_expect _).locked _ _ _ h₁
  · exact steady_comparisonOrCall hspared

/-- Lists of clauses go along whatever the bounds on their nesting. -/
theorem steady_clausesWithin (hspared : ∀ g, Foreseen o.before o.token o.behind g → o.spared g)
    (depth depth' : Nat) : o.Steady (clausesWithin depth) (clausesWithin depth') := by
  induction depth generalizing depth' with
  | zero => exact steady_failAtEnd
  | succ depth ih =>
      cases depth' with
      | zero =>
          refine ⟨?_, fun _ _ _ _ => ?_⟩
          · exact quits_items (steady_clause hspared (ih depth)).quits
          · rintro ⟨_, _, _, hruns⟩
            exact (runs_failAtEnd.mp hruns).elim
      | succ depth' => exact steady_items (steady_clause hspared (ih depth'))

theorem steady_clauses (hspared : ∀ g, Foreseen o.before o.token o.behind g → o.spared g) :
    o.Steady Grammar.clauses Grammar.clauses :=
  steady_state fun _ _ _ _ _ => steady_clausesWithin hspared _ _

end Spot

end TopicQuery.Grammar
