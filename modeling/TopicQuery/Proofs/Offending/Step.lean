import TopicQuery.Proofs.Run

/-!
Two runs over texts that begin alike. One run is followed to a mistake that names
a token, the other one over a text with the same tokens up to that one. As long as
the token is ahead both do the same; a recognizer that complains about the token
as soon as it is taken fails in the other run as well, and behind the token nothing
complains about it. Each step of a recognizer has a rule of its own.
-/

namespace TopicQuery

/-- The token that a mistake says was found in the wrong place. -/
def GrammarFault.found? : GrammarFault → Option Token
  | .expected _ found => some found
  | .unexpected found => some found
  | _ => none

/-- The two tokens are the same and are said to stand in the same line and column. -/
def PlacedToken.Alike (t u : PlacedToken) : Prop :=
  u.token = t.token ∧ u.place.line = t.place.line ∧ u.place.column = t.place.column

namespace Grammar

open Parser

/--
A token in a text, between those in front of it and behind it, where none looks alike,
the tokens behind it in another text, and complaints that are left out of account.
-/
structure Spot where
  before : List PlacedToken
  token : PlacedToken
  behind : List PlacedToken
  behind' : List PlacedToken
  spared : GrammarFault → Prop
  apart : ∀ u ∈ before ++ behind, ¬token.Alike u

/-- The recognizer ends with a mistake. -/
def Parser.Stops {α : Type} (p : Parser α) (s : State) (fault : ParseFault) : Prop :=
  ∃ events, p s = ⟨events, .error fault⟩

/-- The recognizer succeeds. -/
def Parser.Succeeds {α : Type} (p : Parser α) (s : State) : Prop :=
  ∃ events a s', p.Runs s events a s'

/-- If the recognizer succeeds, it hands out the value and leads to the second state. -/
def Parser.Gives {α : Type} (p : Parser α) (s : State) (a : α) (s₁ : State) : Prop :=
  ∀ events b t, p.Runs s events b t → b = a ∧ t = s₁

instance : LawfulMonad Parser := by
  refine LawfulMonad.mk' Parser (fun p => ?_) (fun a f => ?_) (fun p f g => ?_)
  · funext s
    change next p (fun a => pure (id a)) s = p s
    unfold next
    generalize p s = reply
    obtain ⟨events, _ | ⟨a, s'⟩⟩ := reply <;> simp [pure, value]
  · rfl
  · funext s
    change next (next p f) g s = next p (fun a => next (f a) g) s
    unfold next
    generalize p s = reply
    obtain ⟨events, _ | ⟨a, s'⟩⟩ := reply
    · rfl
    · dsimp only
      generalize f a s' = reply
      obtain ⟨more, _ | ⟨b, s''⟩⟩ := reply <;> simp

section Stops

variable {α β : Type} {s : State} {fault : ParseFault}

/-! ## What a mistake says about the steps -/

theorem stops_bind {p : Parser α} {f : α → Parser β} :
    (p >>= f).Stops s fault ↔
      p.Stops s fault ∨
        ∃ events a between, p.Runs s events a between ∧ (f a).Stops between fault := by
  change (∃ events, next p f s = ⟨events, .error fault⟩) ↔ _
  unfold next Parser.Stops Parser.Runs
  generalize p s = reply
  obtain ⟨first, result⟩ := reply
  cases result with
  | error found => simp
  | ok value =>
      obtain ⟨a, between⟩ := value
      dsimp only
      generalize hf : f a between = reply
      obtain ⟨second, result⟩ := reply
      constructor
      · rintro ⟨events, h⟩
        injection h with hevents hresult
        exact .inr ⟨first, a, between, rfl, second, hf.trans (congrArg _ hresult)⟩
      · rintro (⟨events, h⟩ | ⟨events, a', between', h, second', h'⟩)
        · injection h with hevents hresult
          cases hresult
        · injection h with hevents hresult
          injection hresult with hresult
          injection hresult with ha hbetween
          subst ha hbetween
          rw [hf] at h'
          injection h' with hsecond hresult
          exact ⟨first ++ second, by rw [hresult]⟩

@[simp] theorem stops_pure {a : α} : (pure a : Parser α).Stops s fault ↔ False := by
  refine iff_false_intro ?_
  rintro ⟨events, h⟩
  cases h

@[simp] theorem stops_fail {found : ParseFault} :
    (fail found : Parser α).Stops s fault ↔ found = fault := by
  constructor
  · rintro ⟨events, h⟩
    cases h
    rfl
  · rintro rfl
    exact ⟨[], rfl⟩

@[simp] theorem stops_state : state.Stops s fault ↔ False := by
  refine iff_false_intro ?_
  rintro ⟨events, h⟩
  cases h

@[simp] theorem stops_change {f : State → State} : (change f).Stops s fault ↔ False := by
  refine iff_false_intro ?_
  rintro ⟨events, h⟩
  cases h

@[simp] theorem stops_emit {event : Event} : (emit event).Stops s fault ↔ False := by
  refine iff_false_intro ?_
  rintro ⟨events, h⟩
  cases h

/-- A look ahead only runs into a mistake in the form of a token. -/
theorem stops_look {view : List PlacedToken → View α} (h : (look view).Stops s fault) :
    ∃ found line column, fault = .lexical found line column := by
  unfold look at h
  obtain h | ⟨_, a, between, hstate, h⟩ := stops_bind.mp h
  · exact (stops_state.mp h).elim
  · obtain ⟨-, rfl, rfl⟩ := runs_state.mp hstate
    dsimp only at h
    split at h
    · exact ⟨_, _, _, (stops_fail.mp h).symm⟩
    · exact (stops_pure.mp h).elim

theorem stops_peek (h : peek.Stops s fault) :
    ∃ found line column, fault = .lexical found line column := by
  unfold peek peekAt at h
  exact stops_look h

theorem stops_take? (h : take?.Stops s fault) :
    ∃ found line column, fault = .lexical found line column := by
  unfold take? at h
  obtain h | ⟨_, first, between, -, h⟩ := stops_bind.mp h
  · exact stops_look h
  · split at h
    · exact (stops_pure.mp h).elim
    · obtain h | ⟨_, _, _, -, h⟩ := stops_bind.mp h
      · exact (stops_change.mp h).elim
      · exact (stops_pure.mp h).elim

end Stops

/-! ## What a step hands out -/

section Gives

variable {α β : Type} {s : State}

theorem gives_state : state.Gives s s s := by
  intro _ _ _ h
  obtain ⟨-, rfl, rfl⟩ := runs_state.mp h
  exact ⟨rfl, rfl⟩

theorem gives_emit (event : Event) : (emit event).Gives s () s := by
  intro _ _ _ h
  obtain ⟨-, rfl⟩ := runs_emit.mp h
  exact ⟨rfl, rfl⟩

theorem gives_look (view : List PlacedToken → View α) :
    (look view).Gives s (view s.tokens).value s := by
  intro _ _ _ h
  obtain ⟨-, rfl, rfl, -⟩ := runs_look.mp h
  exact ⟨rfl, rfl⟩

theorem gives_peek : peek.Gives s s.ahead.head? s := by
  intro _ _ _ h
  obtain ⟨-, rfl, rfl, -⟩ := runs_peek.mp h
  exact ⟨rfl, rfl⟩

section Taken

variable {u : PlacedToken} {rest : List PlacedToken} (htokens : s.tokens = u :: rest)

include htokens

theorem gives_take? : take?.Gives s (some u) (s.behind u rest) := by
  intro _ _ _ h
  obtain ⟨-, ⟨-, hnil, -⟩ | ⟨v, more, rfl, hcons, rfl⟩⟩ := runs_take?.mp h
  · rw [htokens] at hnil
    cases hnil
  · obtain ⟨rfl, rfl⟩ := List.cons.inj (htokens.symm.trans hcons)
    exact ⟨rfl, rfl⟩

theorem gives_take (what : String) : (take what).Gives s u (s.behind u rest) := by
  intro _ _ _ h
  obtain ⟨-, more, hcons, rfl⟩ := runs_take.mp h
  obtain ⟨rfl, rfl⟩ := List.cons.inj (htokens.symm.trans hcons)
  exact ⟨rfl, rfl⟩

theorem gives_expect (token : Token) : (expect token).Gives s () (s.behind u rest) := by
  intro _ _ _ h
  obtain ⟨-, v, more, hcons, -, rfl⟩ := runs_expect.mp h
  obtain ⟨rfl, rfl⟩ := List.cons.inj (htokens.symm.trans hcons)
  exact ⟨rfl, rfl⟩

end Taken

end Gives

/-! ## What a success says about the steps -/

section Succeeds

variable {α β : Type} {s s₁ : State}

theorem succeeds_first {p : Parser α} {f : α → Parser β} (h : (p >>= f).Succeeds s) :
    p.Succeeds s := by
  obtain ⟨_, _, _, hruns⟩ := h
  obtain ⟨_, a, between, _, hfirst, -, -⟩ := runs_bind.mp hruns
  exact ⟨_, a, between, hfirst⟩

theorem succeeds_rest {p : Parser α} {f : α → Parser β} {a : α} (hp : p.Gives s a s₁)
    (h : (p >>= f).Succeeds s) : (f a).Succeeds s₁ := by
  obtain ⟨_, b, s', hruns⟩ := h
  obtain ⟨_, _, _, _, hfirst, hrest, -⟩ := runs_bind.mp hruns
  obtain ⟨rfl, rfl⟩ := hp _ _ _ hfirst
  exact ⟨_, b, s', hrest⟩

theorem succeeds_within {c : Container} {p : Parser Unit} (h : (within c p).Succeeds s) :
    p.Succeeds s := by
  have hrest := succeeds_rest (gives_emit _) h
  exact succeeds_first hrest

end Succeeds

namespace Spot

variable (o : Spot) {α β : Type}

/-- The mistake says that the token was found in the wrong place, and counts. -/
def Blames (fault : ParseFault) : Prop :=
  ∃ g : GrammarFault, fault = .grammar g o.token.place.line o.token.place.column ∧
    g.found? = some o.token.token ∧ ¬o.spared g

/-- The token is not ahead. -/
def Clear (s : State) : Prop := ∀ u ∈ s.tokens, ¬o.token.Alike u

/-- In both states the token is ahead behind these tokens, and the same is settled but for rules. -/
structure Fork (pre : List PlacedToken) (s s' : State) : Prop where
  tokens : s.tokens = pre ++ o.token :: o.behind
  tokens' : s'.tokens = pre ++ o.token :: o.behind'
  before : pre <:+ o.before
  plus : s'.plus = s.plus
  bindings : s'.bindings = s.bindings
  directives : s'.directives = s.directives

/-- The recognizer does not complain about the token, and has it behind it when it succeeds. -/
structure Over (s : State) (p : Parser α) : Prop where
  stops : ∀ fault, p.Stops s fault → ¬o.Blames fault
  runs : ∀ events a s', p.Runs s events a s' → o.Clear s'

/-- The recognizer complains about no token. -/
def Silent (p : Parser α) : Prop := ∀ s fault, p.Stops s fault → ¬o.Blames fault

/-- Where the token is not ahead, the recognizer does not complain about it. -/
def Quits (p : Parser α) : Prop := ∀ s, o.Clear s → o.Over s p

/--
The first recognizer does not complain about the token, and if it succeeds, it is
past the token or the second one succeeds alike.
-/
structure Along (pre : List PlacedToken) (s s' : State) (p p' : Parser α) : Prop where
  stops : ∀ fault, p.Stops s fault → ¬o.Blames fault
  runs : ∀ events a s₁, p.Runs s events a s₁ → o.Clear s₁ ∨
    ∃ pre₁ events' s₁', p'.Runs s' events' a s₁' ∧ o.Fork pre₁ s₁ s₁' ∧ pre₁.length ≤ pre.length

/-- As far as the second recognizer succeeds, the first one goes along or is past the token. -/
def LockedAt (pre : List PlacedToken) (s s' : State) (p p' : Parser α) : Prop :=
  p'.Succeeds s' → o.Along pre s s' p p'

/-- The two recognizers do the same as long as the token is ahead, and let it rest behind it. -/
structure Steady (p p' : Parser α) : Prop where
  quits : o.Quits p
  locked : ∀ pre s s', o.Fork pre s s' → o.LockedAt pre s s' p p'

/-- With the token just taken: the second recognizer fails, or the first does not complain. -/
def Settled (p p' : Parser α) : Prop := (∀ s', ¬p'.Succeeds s') ∨ o.Quits p

/-- What two recognizers do with a taken token, be it the one in question or another. -/
structure Judged (u : PlacedToken) (p p' : Parser α) : Prop where
  settled : o.Settled p p'
  steady : ¬o.token.Alike u → o.Steady p p'

variable {o} {pre : List PlacedToken} {s s' : State} {u : PlacedToken}

/-! ## Complaints -/

theorem not_blames_of_found {g : GrammarFault} {line column : Nat} (h : g.found? = none) :
    ¬o.Blames (.grammar g line column) := by
  rintro ⟨g', heq, hfound, -⟩
  cases heq
  simp [h] at hfound

theorem not_blames_lexical {fault : ParseFault}
    (h : ∃ found line column, fault = .lexical found line column) : ¬o.Blames fault := by
  obtain ⟨found, line, column, rfl⟩ := h
  rintro ⟨g, heq, -⟩
  cases heq

/-- A complaint about another token. -/
theorem not_blames_apart {g : GrammarFault} (h : ¬o.token.Alike u)
    (hg : ∀ found ∈ g.found?, found = u.token) :
    ¬o.Blames (.grammar g u.place.line u.place.column) := by
  rintro ⟨g', heq, hfound, -⟩
  injection heq with hfault hline hcolumn
  subst hfault
  exact h ⟨(hg _ hfound).symm, hline, hcolumn⟩

/-- A complaint that is left out of account. -/
theorem not_blames_spared {g : GrammarFault} {line column : Nat} (h : o.spared g) :
    ¬o.Blames (.grammar g line column) := by
  rintro ⟨g', heq, -, hspared⟩
  cases heq
  exact hspared h

/-! ## Where the token is -/

theorem clear_behind {rest : List PlacedToken} (h : o.Clear s) (htokens : s.tokens = u :: rest) :
    o.Clear (s.behind u rest) := fun v hv =>
  h v (by rw [htokens]; exact List.mem_cons_of_mem _ hv)

namespace Fork

theorem apart (h : o.Fork pre s s') : ∀ u ∈ pre, ¬o.token.Alike u := fun u hu =>
  o.apart u (List.mem_append_left _ (h.before.subset hu))

theorem next {rest rest' : List PlacedToken} (h : o.Fork (u :: pre) s s')
    (htokens : s.tokens = u :: rest) (htokens' : s'.tokens = u :: rest') :
    o.Fork pre (s.behind u rest) (s'.behind u rest') :=
  ⟨(List.cons.inj (htokens.symm.trans h.tokens)).2,
    (List.cons.inj (htokens'.symm.trans h.tokens')).2,
    (List.suffix_cons u pre).trans h.before, h.plus, h.bindings, h.directives⟩

/-- The first token is taken in both runs, unless the token itself is the first. -/
theorem cons (h : o.Fork (u :: pre) s s') :
    ∃ rest rest', s.tokens = u :: rest ∧ s'.tokens = u :: rest' :=
  ⟨_, _, h.tokens, h.tokens'⟩

theorem nil (h : o.Fork [] s s') :
    s.tokens = o.token :: o.behind ∧ s'.tokens = o.token :: o.behind' := ⟨h.tokens, h.tokens'⟩

/-- Both runs see the same token behind the first one. -/
theorem second (h : o.Fork (u :: pre) s s') :
    ∃ w rest rest', s.tokens = u :: w :: rest ∧ s'.tokens = u :: w :: rest' := by
  cases pre <;> exact ⟨_, _, _, h.tokens, h.tokens'⟩

theorem third {v : PlacedToken} (h : o.Fork (u :: v :: pre) s s') :
    ∃ w rest rest', s.tokens = u :: v :: w :: rest ∧ s'.tokens = u :: v :: w :: rest' := by
  cases pre <;> exact ⟨_, _, _, h.tokens, h.tokens'⟩

/-- Behind the token the state is clear. -/
theorem clear (_ : o.Fork [] s s') : o.Clear (s.behind o.token o.behind) := fun v hv =>
  o.apart v (List.mem_append_right _ hv)

theorem head? (h : o.Fork pre s s') : s'.ahead.head? = s.ahead.head? := by
  cases pre <;> simp [State.ahead, h.tokens, h.tokens']

theorem ahead_ne_nil (h : o.Fork pre s s') : s.ahead ≠ [] ∧ s'.ahead ≠ [] := by
  simp [State.ahead, h.tokens, h.tokens']

/-- A state with fewer tokens left is nearer to the token. -/
theorem length_lt {pre₁ : List PlacedToken} {s₁ s₁' : State} (h : o.Fork pre s s')
    (h₁ : o.Fork pre₁ s₁ s₁') (hlt : s₁.tokens.length < s.tokens.length) :
    pre₁.length < pre.length := by
  simp only [h.tokens, h₁.tokens, List.length_append, List.length_cons] at hlt
  omega

end Fork

/-! ## Steps that complain about nothing -/

theorem silent_state : o.Silent state := fun _ _ h => (stops_state.mp h).elim

theorem silent_emit (event : Event) : o.Silent (emit event) := fun _ _ h => (stops_emit.mp h).elim

theorem silent_look (view : List PlacedToken → View α) : o.Silent (look view) := fun _ _ h =>
  not_blames_lexical (stops_look h)

theorem silent_peek : o.Silent peek := fun _ _ h => not_blames_lexical (stops_peek h)

theorem silent_take? : o.Silent take? := fun _ _ h => not_blames_lexical (stops_take? h)

theorem silent_take (what : String) : o.Silent (take what) := by
  intro s fault h
  obtain h | ⟨_, first, between, -, h⟩ := stops_bind.mp h
  · exact silent_take? _ _ h
  · split at h
    · exact (stops_pure.mp h).elim
    · obtain h | ⟨_, a, _, -, h⟩ := stops_bind.mp h
      · exact (stops_state.mp h).elim
      · exact stops_fail.mp h ▸ not_blames_of_found rfl

/-! ## Behind the token -/

theorem quits_of_gives {p : Parser α} (hp : o.Silent p) (h : ∀ s, ∃ a, p.Gives s a s) :
    o.Quits p := by
  refine fun s hs => ⟨hp s, fun events b t hruns => ?_⟩
  obtain ⟨a, ha⟩ := h s
  obtain ⟨-, rfl⟩ := ha _ _ _ hruns
  exact hs

theorem quits_state : o.Quits state := quits_of_gives silent_state fun s => ⟨s, gives_state⟩

theorem quits_emit (event : Event) : o.Quits (emit event) :=
  quits_of_gives (silent_emit event) fun _ => ⟨(), gives_emit event⟩

theorem quits_look (view : List PlacedToken → View α) : o.Quits (look view) :=
  quits_of_gives (silent_look view) fun _ => ⟨_, gives_look view⟩

theorem quits_peek : o.Quits peek := quits_of_gives silent_peek fun _ => ⟨_, gives_peek⟩

theorem quits_pure (a : α) : o.Quits (pure a : Parser α) := by
  refine fun s hs => ⟨fun fault h => (stops_pure.mp h).elim, fun events b s' h => ?_⟩
  obtain ⟨-, -, rfl⟩ := runs_pure.mp h
  exact hs

theorem quits_fail {fault : ParseFault} (h : ¬o.Blames fault) : o.Quits (fail fault : Parser α) :=
  fun _ _ => ⟨fun _ hstops => stops_fail.mp hstops ▸ h,
    fun _ _ _ hruns => (runs_fail.mp hruns).elim⟩

theorem quits_failExpected {what : String} (h : ¬o.token.Alike u) :
    o.Quits (failExpected u what : Parser α) :=
  quits_fail (not_blames_apart h fun _ hfound => (Option.some.inj hfound).symm)

theorem quits_change {f : State → State} (h : ∀ s, (f s).tokens = s.tokens) :
    o.Quits (change f) := by
  refine fun s hs => ⟨fun fault h => (stops_change.mp h).elim, fun events b s' hruns => ?_⟩
  obtain ⟨-, rfl⟩ := runs_change.mp hruns
  exact fun v hv => hs v (by rwa [h] at hv)

theorem over_bind {p : Parser α} {f : α → Parser β} (hp : o.Over s p) (hf : ∀ a, o.Quits (f a)) :
    o.Over s (p >>= f) := by
  refine ⟨fun fault h => ?_, fun events b s' h => ?_⟩
  · obtain h | ⟨_, a, between, hruns, h⟩ := stops_bind.mp h
    · exact hp.stops fault h
    · exact (hf a between (hp.runs _ _ _ hruns)).stops fault h
  · obtain ⟨_, a, between, _, hfirst, hsecond, -⟩ := runs_bind.mp h
    exact (hf a between (hp.runs _ _ _ hfirst)).runs _ _ _ hsecond

theorem quits_bind {p : Parser α} {f : α → Parser β} (hp : o.Quits p) (hf : ∀ a, o.Quits (f a)) :
    o.Quits (p >>= f) := fun s hs => over_bind (hp s hs) hf

/-- A step that complains about nothing, whatever it hands out. -/
theorem over_bind_of_runs {p : Parser α} {f : α → Parser β}
    (hstops : ∀ fault, p.Stops s fault → ¬o.Blames fault)
    (hf : ∀ events a s₁, p.Runs s events a s₁ → o.Over s₁ (f a)) : o.Over s (p >>= f) := by
  refine ⟨fun fault h => ?_, fun events b s' h => ?_⟩
  · obtain h | ⟨_, a, between, hruns, h⟩ := stops_bind.mp h
    · exact hstops fault h
    · exact (hf _ _ _ hruns).stops fault h
  · obtain ⟨_, a, between, _, hfirst, hsecond, -⟩ := runs_bind.mp h
    exact (hf _ _ _ hfirst).runs _ _ _ hsecond

/-- Behind a step to a known state. -/
theorem over_rest {p : Parser α} {f : α → Parser β} {a : α} {s₁ : State} (hsilent : o.Silent p)
    (hp : p.Gives s a s₁) (hf : o.Over s₁ (f a)) : o.Over s (p >>= f) := by
  refine over_bind_of_runs (hsilent s) fun _ _ _ hruns => ?_
  obtain ⟨rfl, rfl⟩ := hp _ _ _ hruns
  exact hf

theorem over_state {f : State → Parser β} (hf : o.Over s (f s)) : o.Over s (state >>= f) :=
  over_rest silent_state gives_state hf

theorem over_emit {event : Event} {f : Unit → Parser β} (hf : o.Over s (f ())) :
    o.Over s (emit event >>= f) :=
  over_rest (silent_emit event) (gives_emit event) hf

theorem over_look {view : List PlacedToken → View α} {f : α → Parser β}
    (hf : o.Over s (f (view s.tokens).value)) : o.Over s (look view >>= f) :=
  over_rest (silent_look view) (gives_look view) hf

theorem over_peek {f : Option Token → Parser β} (hf : o.Over s (f s.ahead.head?)) :
    o.Over s (peek >>= f) :=
  over_rest silent_peek gives_peek hf

theorem over_within {c : Container} {p : Parser Unit} (h : o.Over s p) : o.Over s (within c p) :=
  over_emit (over_bind h fun _ => quits_emit _)

theorem quits_within {c : Container} {p : Parser Unit} (h : o.Quits p) : o.Quits (within c p) :=
  fun s hs => over_within (h s hs)

theorem over_fail {fault : ParseFault} (h : ¬o.Blames fault) : o.Over s (fail fault : Parser α) :=
  ⟨fun _ hstops => stops_fail.mp hstops ▸ h, fun _ _ _ hruns => (runs_fail.mp hruns).elim⟩

theorem over_failExpected {what : String} (h : ¬o.token.Alike u) :
    o.Over s (failExpected u what : Parser α) :=
  over_fail (not_blames_apart h fun _ hfound => (Option.some.inj hfound).symm)

theorem over_take? {f : Option PlacedToken → Parser β} {rest : List PlacedToken}
    (htokens : s.tokens = u :: rest) (hf : o.Over (s.behind u rest) (f (some u))) :
    o.Over s (take? >>= f) :=
  over_rest silent_take? (gives_take? htokens) hf

theorem over_take {what : String} {f : PlacedToken → Parser β} {rest : List PlacedToken}
    (htokens : s.tokens = u :: rest) (hf : o.Over (s.behind u rest) (f u)) :
    o.Over s (take what >>= f) :=
  over_rest (silent_take what) (gives_take htokens what) hf

theorem quits_take? {f : Option PlacedToken → Parser β} (hnone : o.Quits (f none))
    (hsome : ∀ u, ¬o.token.Alike u → o.Quits (f (some u))) : o.Quits (take? >>= f) := by
  intro s hs
  refine over_bind_of_runs (silent_take? s) fun _ a s₁ h => ?_
  obtain ⟨-, ⟨rfl, -, -, rfl⟩ | ⟨u, rest, rfl, htokens, rfl⟩⟩ := runs_take?.mp h
  · exact hnone _ hs
  · exact hsome u (hs u (by simp [htokens])) _ (clear_behind hs htokens)

theorem quits_failAtEnd {what : String} : o.Quits (failAtEnd what : Parser α) :=
  quits_bind quits_state fun _ => quits_fail (not_blames_of_found rfl)

theorem quits_take {what : String} {f : PlacedToken → Parser β}
    (hf : ∀ u, ¬o.token.Alike u → o.Quits (f u)) : o.Quits (take what >>= f) := by
  intro s hs
  refine over_bind_of_runs (silent_take what s) fun _ u s₁ h => ?_
  obtain ⟨-, rest, htokens, rfl⟩ := runs_take.mp h
  exact hf u (hs u (by simp [htokens])) _ (clear_behind hs htokens)

/-! ## In front of the token -/

theorem not_succeeds_failExpected {what : String} :
    ¬(failExpected u what : Parser α).Succeeds s := by
  rintro ⟨_, _, _, h⟩
  exact runs_failExpected.mp h

theorem Over.along {p p' : Parser α} (h : o.Over s p) : o.Along pre s s' p p' :=
  ⟨h.stops, fun _ _ _ hruns => .inl (h.runs _ _ _ hruns)⟩

theorem Over.lockedAt {p p' : Parser α} (h : o.Over s p) : o.LockedAt pre s s' p p' := fun _ =>
  h.along

/-- Behind two steps that go along, the two runs are at most as far from the token as before. -/
theorem lockedAt_bind {p p' : Parser α} {f f' : α → Parser β} (hp : o.LockedAt pre s s' p p')
    (hquits : ∀ a, o.Quits (f a))
    (hf : ∀ events a s₁ pre₁ s₁', p.Runs s events a s₁ → o.Fork pre₁ s₁ s₁' →
      pre₁.length ≤ pre.length → o.LockedAt pre₁ s₁ s₁' (f a) (f' a)) :
    o.LockedAt pre s s' (p >>= f) (p' >>= f') := by
  rintro ⟨_, _, _, hsecond⟩
  obtain ⟨_, a', between', _, hfirst', hrest', -⟩ := runs_bind.mp hsecond
  have halong := hp ⟨_, _, _, hfirst'⟩
  have hbehind : ∀ events a s₁, p.Runs s events a s₁ → o.Over s₁ (f a) ∨
      ∃ pre₁, o.Fork pre₁ s₁ between' ∧ pre₁.length ≤ pre.length ∧ a = a' ∧
        o.Along pre₁ s₁ between' (f a) (f' a) := by
    intro events a s₁ hfirst
    obtain hclear | ⟨pre₁, events', s₁', hrun, hfork, hle⟩ := halong.runs _ _ _ hfirst
    · exact .inl (hquits a s₁ hclear)
    · -- the second run goes the same way
      have heq := hrun.symm.trans hfirst'
      injection heq with hevents hresult
      injection hresult with hresult
      injection hresult with hvalue hstate
      subst hvalue hstate
      exact .inr ⟨pre₁, hfork, hle, rfl, hf _ _ _ _ _ hfirst hfork hle ⟨_, _, _, hrest'⟩⟩
  refine ⟨fun fault h => ?_, fun events b s₂ h => ?_⟩
  · obtain h | ⟨_, a, between, hfirst, h⟩ := stops_bind.mp h
    · exact halong.stops fault h
    · obtain hover | ⟨_, -, -, -, hfront⟩ := hbehind _ _ _ hfirst
      · exact hover.stops fault h
      · exact hfront.stops fault h
  · obtain ⟨_, a, between, _, hfirst, hrest, -⟩ := runs_bind.mp h
    obtain hover | ⟨_, -, hle, rfl, hfront⟩ := hbehind _ _ _ hfirst
    · exact .inl (hover.runs _ _ _ hrest)
    · obtain hclear | ⟨pre₂, told, s₂', hrun, hfork₂, hle₂⟩ := hfront.runs _ _ _ hrest
      · exact .inl hclear
      · exact .inr ⟨pre₂, _, s₂', runs_bind.mpr ⟨_, a, between', told, hfirst', hrun, rfl⟩, hfork₂,
          Nat.le_trans hle₂ hle⟩

/-- Behind two steps to known states, be what they hand out the same or not. -/
theorem lockedAt_rest {γ : Type} {p : Parser α} {p' : Parser γ} {f : α → Parser β}
    {f' : γ → Parser β} {a : α} {a' : γ} {pre₁ : List PlacedToken} {s₁ s₁' : State}
    (hle : pre₁.length ≤ pre.length) (hsilent : o.Silent p) (hp : p.Gives s a s₁)
    (hp' : p'.Gives s' a' s₁') (hf : o.LockedAt pre₁ s₁ s₁' (f a) (f' a')) :
    o.LockedAt pre s s' (p >>= f) (p' >>= f') := by
  rintro ⟨_, _, _, hsecond⟩
  obtain ⟨_, _, _, _, hfirst', hrest', -⟩ := runs_bind.mp hsecond
  obtain ⟨rfl, rfl⟩ := hp' _ _ _ hfirst'
  have halong := hf ⟨_, _, _, hrest'⟩
  refine ⟨fun fault h => ?_, fun events b s₂ h => ?_⟩
  · obtain h | ⟨_, _, _, hfirst, hrest⟩ := stops_bind.mp h
    · exact hsilent s fault h
    · obtain ⟨rfl, rfl⟩ := hp _ _ _ hfirst
      exact halong.stops fault hrest
  · obtain ⟨_, _, _, _, hfirst, hrest, -⟩ := runs_bind.mp h
    obtain ⟨rfl, rfl⟩ := hp _ _ _ hfirst
    obtain hclear | ⟨pre₂, told, s₂', hrun, hfork, hle₂⟩ := halong.runs _ _ _ hrest
    · exact .inl hclear
    · exact .inr ⟨pre₂, _, s₂', runs_bind.mpr ⟨_, _, _, told, hfirst', hrun, rfl⟩, hfork,
        Nat.le_trans hle₂ hle⟩

theorem lockedAt_state {f f' : State → Parser β} (hf : o.LockedAt pre s s' (f s) (f' s')) :
    o.LockedAt pre s s' (state >>= f) (state >>= f') :=
  lockedAt_rest (Nat.le_refl _) silent_state gives_state gives_state hf

/-- A look ahead takes nothing; the two looks may see different things. -/
theorem lockedAt_look {view : List PlacedToken → View α} {f f' : α → Parser β}
    (hf : o.LockedAt pre s s' (f (view s.tokens).value) (f' (view s'.tokens).value)) :
    o.LockedAt pre s s' (look view >>= f) (look view >>= f') :=
  lockedAt_rest (Nat.le_refl _) (silent_look view) (gives_look view) (gives_look view) hf

theorem lockedAt_emit {e e' : Event} {f f' : Unit → Parser β}
    (hf : o.LockedAt pre s s' (f ()) (f' ())) :
    o.LockedAt pre s s' (emit e >>= f) (emit e' >>= f') :=
  lockedAt_rest (Nat.le_refl _) (silent_emit e) (gives_emit e) (gives_emit e') hf

/-- A token is taken: it is the one in question, or another that both runs take. -/
theorem lockedAt_take? {f f' : Option PlacedToken → Parser β} (h : o.Fork pre s s')
    (htoken : pre = [] → o.Settled (f (some o.token)) (f' (some o.token)))
    (hnext : ∀ u pre₁ s₁ s₁', pre = u :: pre₁ → ¬o.token.Alike u → o.Fork pre₁ s₁ s₁' →
      o.LockedAt pre₁ s₁ s₁' (f (some u)) (f' (some u))) :
    o.LockedAt pre s s' (take? >>= f) (take? >>= f') := by
  cases pre with
  | nil =>
      obtain ⟨htokens, htokens'⟩ := h.nil
      rintro ⟨_, _, _, hsecond⟩
      obtain ⟨_, _, _, _, htake', hrest', -⟩ := runs_bind.mp hsecond
      obtain ⟨rfl, rfl⟩ := gives_take? htokens' _ _ _ htake'
      obtain hfails | hquits := htoken rfl
      · exact (hfails _ ⟨_, _, _, hrest'⟩).elim
      · exact (over_take? htokens (hquits _ h.clear)).along
  | cons u pre =>
      obtain ⟨rest, rest', htokens, htokens'⟩ := h.cons
      exact lockedAt_rest (Nat.le_succ _) silent_take? (gives_take? htokens) (gives_take? htokens')
        (hnext u pre _ _ rfl (h.apart u List.mem_cons_self) (h.next htokens htokens'))

end Spot

end Grammar

end TopicQuery
