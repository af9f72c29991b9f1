import TopicQuery.Proofs.Offending.Step

/-!
Recognizers that do the same in both runs as long as the token is ahead. For every
step that does not look past the next token there is one rule, and steps in a row
do the same if each of them does.
-/

namespace TopicQuery.Grammar

open Parser

/-- The text of a one-token term of the given kind, if the token is one. -/
def atomOf (kind : AtomKind) (what : String) (t : PlacedToken) : Parser String :=
  match t.token with
  | .atom k value => if k = kind then return value else failExpected t what
  | _ => failExpected t what

theorem takeAtom_eq (kind : AtomKind) (what : String) :
    takeAtom kind what = take what >>= atomOf kind what := rfl

theorem atomOf_self {kind : AtomKind} {what text : String} {t : PlacedToken}
    (h : t.token = .atom kind text) : atomOf kind what t = pure text := by
  simp [atomOf, h]

namespace Spot

variable {o : Spot} {α β : Type} {pre : List PlacedToken} {s s' : State} {u : PlacedToken}

/-! ## Single steps -/

theorem lockedAt_pure (h : o.Fork pre s s') (a : α) :
    o.LockedAt pre s s' (pure a : Parser α) (pure a) := by
  refine fun _ => ⟨fun fault hstops => (stops_pure.mp hstops).elim, fun events b s₁ hruns => ?_⟩
  obtain ⟨rfl, rfl, rfl⟩ := runs_pure.mp hruns
  exact .inr ⟨pre, _, s', runs_pure.mpr ⟨rfl, rfl, rfl⟩, h, Nat.le_refl _⟩

theorem steady_pure (a : α) : o.Steady (pure a : Parser α) (pure a) :=
  ⟨quits_pure a, fun _ _ _ h => lockedAt_pure h a⟩

/-- A mistake that does not speak of the token. -/
theorem steady_fail {fault : ParseFault} {p' : Parser α} (h : ¬o.Blames fault) :
    o.Steady (fail fault) p' :=
  ⟨quits_fail h, fun _ _ _ _ => (over_fail h).lockedAt⟩

theorem steady_failAt {g : GrammarFault} {p' : Parser α} (h : g.found? = none) :
    o.Steady (failAt u g) p' :=
  steady_fail (not_blames_of_found h)

theorem steady_failAtEnd {what : String} {p' : Parser α} : o.Steady (failAtEnd what) p' :=
  ⟨quits_failAtEnd, fun _ _ _ _ => (over_state (over_fail (not_blames_of_found rfl))).lockedAt⟩

theorem steady_emit (e e' : Event) : o.Steady (emit e) (emit e') := by
  refine ⟨quits_emit e, fun pre s s' h => ?_⟩
  rw [← bind_pure (emit e), ← bind_pure (emit e')]
  exact lockedAt_emit (lockedAt_pure h ())

theorem steady_change {f : State → State} (htokens : ∀ s, (f s).tokens = s.tokens)
    (hfork : ∀ pre s s', o.Fork pre s s' → o.Fork pre (f s) (f s')) :
    o.Steady (change f) (change f) := by
  refine ⟨quits_change htokens, fun pre s s' h _ => ?_⟩
  refine ⟨fun fault hstops => (stops_change.mp hstops).elim, fun events b s₁ hruns => ?_⟩
  obtain ⟨rfl, rfl⟩ := runs_change.mp hruns
  exact .inr ⟨pre, _, f s', runs_change.mpr ⟨rfl, rfl⟩, hfork _ _ _ h, Nat.le_refl _⟩

theorem steady_peek : o.Steady peek peek := by
  refine ⟨quits_peek, fun pre s s' h _ => ⟨silent_peek s, fun events b s₁ hruns => ?_⟩⟩
  obtain ⟨rfl, rfl, rfl, -⟩ := runs_peek.mp hruns
  exact .inr ⟨pre, _, s', runs_peek.mpr ⟨rfl, h.head?, rfl, fun hnil =>
    absurd hnil h.ahead_ne_nil.2⟩, h, Nat.le_refl _⟩

/-- A look at the next token, which is the same in both runs. -/
theorem lockedAt_peek {f f' : Option Token → Parser β} (h : o.Fork pre s s')
    (hf : o.LockedAt pre s s' (f s.ahead.head?) (f' s.ahead.head?)) :
    o.LockedAt pre s s' (peek >>= f) (peek >>= f') := by
  refine lockedAt_rest (Nat.le_refl _) silent_peek gives_peek gives_peek ?_
  rwa [h.head?]

/-! ## Steps in a row -/

theorem steady_bind {p p' : Parser α} {f f' : α → Parser β} (hp : o.Steady p p')
    (hf : ∀ a, o.Steady (f a) (f' a)) : o.Steady (p >>= f) (p' >>= f') :=
  ⟨quits_bind hp.quits fun a => (hf a).quits, fun _ _ _ h =>
    lockedAt_bind (hp.locked _ _ _ h) (fun a => (hf a).quits) fun _ a s₁ pre₁ s₁' _ hfork _ =>
      (hf a).locked pre₁ s₁ s₁' hfork⟩

theorem steady_state {f f' : State → Parser β}
    (hf : ∀ s s' : State, s'.plus = s.plus → s'.bindings = s.bindings →
      s'.directives = s.directives → o.Steady (f s) (f' s')) :
    o.Steady (state >>= f) (state >>= f') :=
  ⟨quits_bind quits_state fun s => (hf s s rfl rfl rfl).quits, fun _ s s' h =>
    lockedAt_state ((hf s s' h.plus h.bindings h.directives).locked _ _ _ h)⟩

theorem judged_of_steady {p p' : Parser α} (h : o.Steady p p') : o.Judged u p p' :=
  ⟨.inr h.quits, fun _ => h⟩

/-- Where a token is not the one in question, a complaint about it does not count. -/
theorem judged_failExpected {what : String} :
    o.Judged u (failExpected u what : Parser α) (failExpected u what) :=
  ⟨.inl fun _ => not_succeeds_failExpected, fun h =>
    ⟨quits_failExpected h, fun _ _ _ _ => (over_failExpected h).lockedAt⟩⟩

theorem judged_bind {p p' : Parser α} {f f' : α → Parser β} (hp : o.Judged u p p')
    (hf : ∀ a, o.Steady (f a) (f' a)) : o.Judged u (p >>= f) (p' >>= f') := by
  refine ⟨?_, fun hu => steady_bind (hp.steady hu) hf⟩
  obtain hfails | hquits := hp.settled
  · exact .inl fun s' => mt succeeds_first (hfails s')
  · exact .inr (quits_bind hquits fun a => (hf a).quits)

theorem steady_take? {f f' : Option PlacedToken → Parser β} (hnone : o.Quits (f none))
    (hsome : ∀ u, o.Judged u (f (some u)) (f' (some u))) : o.Steady (take? >>= f) (take? >>= f') :=
  ⟨quits_take? hnone fun u hu => ((hsome u).steady hu).quits, fun _ _ _ h =>
    lockedAt_take? h (fun _ => (hsome o.token).settled) fun u pre₁ s₁ s₁' _ hu hfork =>
      ((hsome u).steady hu).locked pre₁ s₁ s₁' hfork⟩

theorem lockedAt_take {what what' : String} {f f' : PlacedToken → Parser β} (h : o.Fork pre s s')
    (htoken : pre = [] → o.Settled (f o.token) (f' o.token))
    (hnext : ∀ u pre₁ s₁ s₁', pre = u :: pre₁ → ¬o.token.Alike u → o.Fork pre₁ s₁ s₁' →
      o.LockedAt pre₁ s₁ s₁' (f u) (f' u)) :
    o.LockedAt pre s s' (take what >>= f) (take what' >>= f') := by
  unfold take
  rw [bind_assoc, bind_assoc]
  exact lockedAt_take? h htoken hnext

theorem steady_take {what : String} {f f' : PlacedToken → Parser β}
    (hf : ∀ u, o.Judged u (f u) (f' u)) : o.Steady (take what >>= f) (take what >>= f') :=
  ⟨quits_take fun u hu => ((hf u).steady hu).quits, fun _ _ _ h =>
    lockedAt_take h (fun _ => (hf o.token).settled) fun u pre₁ s₁ s₁' _ hu hfork =>
      ((hf u).steady hu).locked pre₁ s₁ s₁' hfork⟩

/-- A token that is taken whatever it is. -/
theorem steady_skip {p p' : Parser β} (h : o.Steady p p') :
    o.Steady (take? >>= fun _ => p) (take? >>= fun _ => p') :=
  steady_take? h.quits fun _ => judged_of_steady h

/-! ## Marks, words and one-token terms -/

theorem steady_accept (token : Token) : o.Steady (accept token) (accept token) := by
  refine steady_bind steady_peek fun a => ?_
  split
  · exact steady_skip (steady_pure true)
  · exact steady_pure false

theorem steady_expect (token : Token) : o.Steady (expect token) (expect token) := by
  refine steady_take fun u => ?_
  split
  · exact judged_of_steady (steady_pure ())
  · exact judged_failExpected

theorem judged_atomOf (kind : AtomKind) (what : String) (u : PlacedToken) :
    o.Judged u (atomOf kind what u) (atomOf kind what u) := by
  unfold atomOf
  split
  · split
    · exact judged_of_steady (steady_pure _)
    · exact judged_failExpected
  · exact judged_failExpected

theorem steady_takeAtom (kind : AtomKind) (what : String) :
    o.Steady (takeAtom kind what) (takeAtom kind what) :=
  steady_take (judged_atomOf kind what)

theorem steady_within {c c' : Container} {p p' : Parser Unit} (h : o.Steady p p') :
    o.Steady (within c p) (within c' p') :=
  steady_bind (steady_emit _ _) fun _ => steady_bind h fun _ => steady_emit _ _

theorem steady_requirePlus (u : PlacedToken) (what : String) :
    o.Steady (requirePlus u what) (requirePlus u what) := by
  refine steady_state fun s s' hplus _ _ => ?_
  rw [hplus]
  split
  · exact steady_pure ()
  · exact steady_failAt rfl

theorem over_requirePlus {what : String} {f : Unit → Parser β} (hf : o.Over s (f ())) :
    o.Over s (requirePlus u what >>= f) := by
  rw [requirePlus, bind_assoc]
  refine over_state ?_
  split
  · rwa [pure_bind]
  · exact over_bind_of_runs (fun _ h => stops_fail.mp h ▸ not_blames_of_found rfl)
      fun _ _ _ h => (runs_failAt.mp h).elim

theorem steady_kindOf (u : PlacedToken) (qualifier : String) :
    o.Steady (kindOf u qualifier) (kindOf u qualifier) := by
  refine steady_state fun s s' _ hbindings _ => ?_
  rw [hbindings]
  split
  · exact steady_pure _
  · exact steady_failAt rfl

/-! ## Items -/

/-- A comma that is taken brings the runs nearer to the token. -/
theorem length_lt_of_accept {token : Token} {events : List Event} {pre₁ : List PlacedToken}
    {s₁ s₁' : State} (h : o.Fork pre s s') (hruns : (accept token).Runs s events true s₁)
    (h₁ : o.Fork pre₁ s₁ s₁') : pre₁.length < pre.length := by
  refine h.length_lt h₁ ?_
  obtain ⟨-, ⟨-, t, rest, htokens, -, rfl⟩ | ⟨hno, -⟩⟩ := runs_accept.mp hruns
  · simp [htokens, State.behind]
  · cases hno

theorem quits_itemsUpTo {item : Parser Unit} (h : o.Quits item) (n : Nat) :
    o.Quits (itemsUpTo item n) := by
  induction n with
  | zero => exact h
  | succ n ih =>
      refine quits_bind h fun _ => quits_bind (steady_accept _).quits fun more => ?_
      cases more with
      | true => exact ih
      | false => exact quits_pure ()

/-- Both runs come to the token before they come to the bound. -/
theorem lockedAt_itemsUpTo {item item' : Parser Unit} (hquits : o.Quits item)
    (hitem : ∀ pre s s', o.Fork pre s s' → o.LockedAt pre s s' item item') {n n' : Nat}
    (h : o.Fork pre s s') (hn : pre.length < n) (hn' : pre.length < n') :
    o.LockedAt pre s s' (itemsUpTo item n) (itemsUpTo item' n') := by
  induction n generalizing pre s s' n' with
  | zero => omega
  | succ n ih =>
      obtain ⟨n', rfl⟩ : ∃ m, n' = m + 1 := ⟨n' - 1, by omega⟩
      refine lockedAt_bind (hitem _ _ _ h) (fun _ => ?_) fun _ _ s₁ pre₁ s₁' _ h₁ hle => ?_
      · refine quits_bind (steady_accept _).quits fun more => ?_
        cases more with
        | true => exact quits_itemsUpTo hquits n
        | false => exact quits_pure ()
      refine lockedAt_bind ((steady_accept _).locked _ _ _ h₁) (fun more => ?_)
        fun _ more s₂ pre₂ s₂' haccept h₂ _ => ?_
      · cases more with
        | true => exact quits_itemsUpTo hquits n
        | false => exact quits_pure ()
      cases more with
      | true =>
          have hlt := length_lt_of_accept h₁ haccept h₂
          exact ih h₂ (by omega) (by omega)
      | false => exact lockedAt_pure h₂ ()

theorem length_lt_tokens (h : o.Fork pre s s') :
    pre.length < s.tokens.length ∧ pre.length < s'.tokens.length := by
  simp only [h.tokens, h.tokens', List.length_append, List.length_cons]
  omega

theorem quits_items {item : Parser Unit} (h : o.Quits item) : o.Quits (items item) :=
  quits_bind quits_state fun _ => quits_itemsUpTo h _

theorem lockedAt_items {item item' : Parser Unit} (hquits : o.Quits item)
    (hitem : ∀ pre s s', o.Fork pre s s' → o.LockedAt pre s s' item item') (h : o.Fork pre s s') :
    o.LockedAt pre s s' (items item) (items item') :=
  lockedAt_state (lockedAt_itemsUpTo hquits hitem h (length_lt_tokens h).1 (length_lt_tokens h).2)

theorem steady_items {item item' : Parser Unit} (h : o.Steady item item') :
    o.Steady (items item) (items item') :=
  ⟨quits_items h.quits, fun _ _ _ hfork => lockedAt_items h.quits h.locked hfork⟩

end Spot

end TopicQuery.Grammar
