import TopicQuery.Grammar.Document

/-!
Runs of recognizers. A run is a success: the events reported, the value handed
out and the state behind it. What a run says about the steps it is made of is
stated once for each step. In the other direction, a recognizer reads some tokens
if it succeeds on them whatever follows, and reading is put together from steps.
-/

namespace TopicQuery.Grammar

open Parser

/-- What a recognizer knows besides the tokens and the mistake ahead of it. -/
structure Setting where
  rules : List String
  plus : Bool
  bindings : List Prefixed
  directives : Nat
  deriving DecidableEq, Repr

namespace State

/-- The tokens that are left, without their places. -/
def ahead (s : State) : List Token := s.tokens.map (·.token)

/-- What the text so far has settled. -/
def setting (s : State) : Setting := ⟨s.rules, s.plus, s.bindings, s.directives⟩

/-- The second state is the first one behind some tokens. -/
structure Passes (s : State) (ts : List Token) (s' : State) : Prop where
  ahead : s.ahead = ts ++ s'.ahead
  setting : s'.setting = s.setting
  fault : s'.fault = s.fault

namespace Passes

variable {s s' s'' : State} {ts us : List Token}

theorem refl (s : State) : s.Passes [] s := ⟨rfl, rfl, rfl⟩

theorem trans (h : s.Passes ts s') (h' : s'.Passes us s'') : s.Passes (ts ++ us) s'' :=
  ⟨by rw [h.ahead, h'.ahead, List.append_assoc], h'.setting.trans h.setting,
    h'.fault.trans h.fault⟩

end Passes

end State

/-- The recognizer succeeds, with these events and this value, and leaves the second state. -/
def Parser.Runs {α : Type} (p : Parser α) (s : State) (events : List Event) (a : α) (s' : State) :
    Prop :=
  p s = ⟨events, .ok (a, s')⟩

section Runs

variable {α β : Type} {s s' : State} {events : List Event}

/-! ## What a run says about its steps -/

theorem runs_bind {p : Parser α} {f : α → Parser β} {b : β} :
    (p >>= f).Runs s events b s' ↔
      ∃ first a between second, p.Runs s first a between ∧ (f a).Runs between second b s' ∧
        events = first ++ second := by
  change next p f s = _ ↔ _
  unfold next Parser.Runs
  generalize p s = reply
  obtain ⟨first, result⟩ := reply
  cases result with
  | error fault => simp
  | ok value =>
      obtain ⟨a, between⟩ := value
      dsimp only
      generalize hf : f a between = reply
      obtain ⟨second, result⟩ := reply
      constructor
      · intro h
        injection h with hevents hresult
        exact ⟨first, a, between, second, rfl, hf.trans (congrArg _ hresult), hevents.symm⟩
      · rintro ⟨first', a', between', second', h, h', rfl⟩
        injection h with hfirst hvalue
        injection hvalue with hvalue
        injection hvalue with ha hbetween
        subst hfirst ha hbetween
        rw [hf] at h'
        injection h' with hsecond hresult
        rw [hsecond, hresult]

@[simp] theorem runs_pure {a b : α} :
    (pure a : Parser α).Runs s events b s' ↔ events = [] ∧ a = b ∧ s = s' := by
  change (⟨[], .ok (a, s)⟩ : Reply α) = ⟨events, .ok (b, s')⟩ ↔ _
  simp only [Reply.mk.injEq, Except.ok.injEq, Prod.mk.injEq]
  exact and_congr_left' eq_comm

@[simp] theorem runs_fail {fault : ParseFault} {a : α} :
    (fail fault : Parser α).Runs s events a s' ↔ False := by
  simp [Parser.Runs, fail]

@[simp] theorem runs_state {a : State} :
    state.Runs s events a s' ↔ events = [] ∧ s = a ∧ s = s' := by
  change (⟨[], .ok (s, s)⟩ : Reply State) = ⟨events, .ok (a, s')⟩ ↔ _
  simp only [Reply.mk.injEq, Except.ok.injEq, Prod.mk.injEq]
  exact and_congr_left' eq_comm

@[simp] theorem runs_change {f : State → State} {u : Unit} :
    (change f).Runs s events u s' ↔ events = [] ∧ f s = s' := by
  change (⟨[], .ok ((), f s)⟩ : Reply Unit) = ⟨events, .ok (u, s')⟩ ↔ _
  simp only [Reply.mk.injEq, Except.ok.injEq, Prod.mk.injEq, true_and]
  exact and_congr_left' eq_comm

@[simp] theorem runs_emit {event : Event} {u : Unit} :
    (emit event).Runs s events u s' ↔ events = [event] ∧ s = s' := by
  change (⟨[event], .ok ((), s)⟩ : Reply Unit) = ⟨events, .ok (u, s')⟩ ↔ _
  simp only [Reply.mk.injEq, Except.ok.injEq, Prod.mk.injEq, true_and]
  exact and_congr_left' eq_comm

@[simp] theorem runs_look {view : List PlacedToken → View α} {a : α} :
    (look view).Runs s events a s' ↔
      events = [] ∧ (view s.tokens).value = a ∧ s = s' ∧
        ((view s.tokens).pastEnd = true → s.fault = none) := by
  unfold look
  simp only [runs_bind, runs_state]
  constructor
  · rintro ⟨_, _, _, _, ⟨rfl, rfl, rfl⟩, h, rfl⟩
    split at h
    · simp at h
    · next hno =>
      obtain ⟨rfl, rfl, rfl⟩ := runs_pure.mp h
      refine ⟨rfl, rfl, rfl, fun hpast => ?_⟩
      cases hfault : s.fault with
      | none => rfl
      | some fault => exact absurd hfault (hno _ _ hpast)
  · rintro ⟨rfl, rfl, rfl, hclear⟩
    refine ⟨[], s, s, [], ⟨rfl, rfl, rfl⟩, ?_, rfl⟩
    split
    · next hpast hfault =>
      rw [hclear hpast] at hfault
      simp at hfault
    · simp

@[simp] theorem runs_failAt {t : PlacedToken} {fault : GrammarFault} {a : α} :
    (failAt t fault : Parser α).Runs s events a s' ↔ False := by
  simp [failAt]

@[simp] theorem runs_failExpected {t : PlacedToken} {what : String} {a : α} :
    (failExpected t what : Parser α).Runs s events a s' ↔ False := by
  simp [failExpected]

@[simp] theorem runs_failAtEnd {what : String} {a : α} :
    (failAtEnd what : Parser α).Runs s events a s' ↔ False := by
  simp [failAtEnd, runs_bind]

@[simp] theorem runs_within {c : Container} {p : Parser Unit} {u : Unit} :
    (within c p).Runs s events u s' ↔
      ∃ inner, p.Runs s inner () s' ∧ events = .enter c :: (inner ++ [Event.leave c.tag]) := by
  simp only [within, runs_bind, runs_emit]
  constructor
  · rintro ⟨_, _, _, _, ⟨rfl, rfl⟩, ⟨inner, _, _, _, h, ⟨rfl, rfl⟩, rfl⟩, rfl⟩
    exact ⟨inner, h, rfl⟩
  · rintro ⟨inner, h, rfl⟩
    exact ⟨[.enter c], (), s, inner ++ [Event.leave c.tag], ⟨rfl, rfl⟩,
      ⟨inner, (), s', [.leave c.tag], h, ⟨rfl, rfl⟩, rfl⟩, rfl⟩

/-- The state behind the first token. -/
def State.behind (s : State) (t : PlacedToken) (rest : List PlacedToken) : State :=
  { s with tokens := rest, line := t.place.line, column := t.place.column }

theorem State.passes_behind {t : PlacedToken} {rest : List PlacedToken} (h : s.tokens = t :: rest) :
    s.Passes [t.token] (s.behind t rest) :=
  ⟨by simp [State.ahead, State.behind, h], rfl, rfl⟩

theorem runs_take? {t : Option PlacedToken} :
    take?.Runs s events t s' ↔
      events = [] ∧
        ((t = none ∧ s.tokens = [] ∧ s.fault = none ∧ s = s') ∨
          ∃ first rest, t = some first ∧ s.tokens = first :: rest ∧ s.behind first rest = s') := by
  unfold take?
  simp only [runs_bind, runs_look]
  constructor
  · rintro ⟨_, a, _, _, ⟨rfl, ha, rfl, hclear⟩, h, rfl⟩
    cases htokens : s.tokens with
    | nil =>
        simp only [htokens, List.head?_nil, List.isEmpty_nil] at ha hclear
        subst ha
        obtain ⟨rfl, rfl, rfl⟩ := runs_pure.mp h
        exact ⟨rfl, .inl ⟨rfl, rfl, hclear trivial, rfl⟩⟩
    | cons first rest =>
        simp only [htokens, List.head?_cons] at ha
        subst ha
        obtain ⟨_, _, _, _, hchange, hpure, rfl⟩ := runs_bind.mp h
        obtain ⟨rfl, rfl⟩ := runs_change.mp hchange
        obtain ⟨rfl, rfl, rfl⟩ := runs_pure.mp hpure
        exact ⟨rfl, .inr ⟨first, rest, rfl, rfl, by simp [htokens, State.behind]⟩⟩
  · rintro ⟨rfl, ⟨rfl, htokens, hclear, rfl⟩ | ⟨first, rest, rfl, htokens, rfl⟩⟩
    · exact ⟨[], none, s, [], ⟨rfl, by simp [htokens], rfl, fun _ => hclear⟩, by simp, rfl⟩
    · refine ⟨[], some first, s, [], ⟨rfl, by simp [htokens], rfl, by simp [htokens]⟩, ?_, rfl⟩
      refine runs_bind.mpr ⟨[], (), _, [], runs_change.mpr ⟨rfl, rfl⟩,
        runs_pure.mpr ⟨rfl, rfl, ?_⟩, rfl⟩
      simp [htokens, State.behind]

@[simp] theorem runs_peekAt {n : Nat} {token : Option Token} :
    (peekAt n).Runs s events token s' ↔
      events = [] ∧ s.ahead[n]? = token ∧ s = s' ∧ (s.ahead.length ≤ n → s.fault = none) := by
  simp [peekAt, State.ahead]

@[simp] theorem runs_peek {token : Option Token} :
    peek.Runs s events token s' ↔
      events = [] ∧ s.ahead.head? = token ∧ s = s' ∧ (s.ahead = [] → s.fault = none) := by
  simp [peek, List.head?_eq_getElem?]

theorem runs_take {what : String} {t : PlacedToken} :
    (take what).Runs s events t s' ↔
      events = [] ∧ ∃ rest, s.tokens = t :: rest ∧ s.behind t rest = s' := by
  unfold take
  simp only [runs_bind, runs_take?]
  constructor
  · rintro ⟨_, _, _, _, ⟨rfl, ⟨rfl, -⟩ | ⟨first, rest, rfl, htokens, rfl⟩⟩, h, rfl⟩
    · simp at h
    · obtain ⟨rfl, rfl, rfl⟩ := runs_pure.mp h
      exact ⟨rfl, rest, htokens, rfl⟩
  · rintro ⟨rfl, rest, htokens, rfl⟩
    exact ⟨[], some t, _, [], ⟨rfl, .inr ⟨t, rest, rfl, htokens, rfl⟩⟩, by simp, rfl⟩

theorem runs_accept {token : Token} {taken : Bool} :
    (accept token).Runs s events taken s' ↔
      events = [] ∧
        ((taken = true ∧ ∃ t rest, s.tokens = t :: rest ∧ t.token = token ∧
            s.behind t rest = s') ∨
          (taken = false ∧ s.ahead.head? ≠ some token ∧ (s.tokens = [] → s.fault = none) ∧
            s = s')) := by
  unfold accept peek peekAt
  simp only [runs_bind, runs_look]
  constructor
  · rintro ⟨_, a, _, _, ⟨rfl, ha, rfl, hclear⟩, h, rfl⟩
    cases htokens : s.tokens with
    | nil =>
        simp only [htokens, List.getElem?_nil, Option.map_none] at ha
        subst ha
        simp only [reduceCtorEq, if_false] at h
        obtain ⟨rfl, rfl, rfl⟩ := runs_pure.mp h
        exact ⟨rfl, .inr ⟨rfl, by simp [State.ahead, htokens],
          fun _ => hclear (by simp [htokens]), rfl⟩⟩
    | cons t rest =>
        simp only [htokens, List.getElem?_cons_zero, Option.map_some] at ha
        subst ha
        by_cases htoken : t.token = token
        · simp only [htoken, if_true] at h
          obtain ⟨_, _, _, _, htake, hpure, rfl⟩ := runs_bind.mp h
          obtain ⟨rfl, ⟨-, hnil, -⟩ | ⟨first, rest', -, hcons, rfl⟩⟩ := runs_take?.mp htake
          · simp [htokens] at hnil
          · obtain ⟨rfl, rfl, rfl⟩ := runs_pure.mp hpure
            obtain ⟨rfl, rfl⟩ : t = first ∧ rest = rest' := by simpa [htokens] using hcons
            exact ⟨rfl, .inl ⟨rfl, t, rest, rfl, htoken, rfl⟩⟩
        · simp only [Option.some.injEq, htoken, if_false] at h
          obtain ⟨rfl, rfl, rfl⟩ := runs_pure.mp h
          exact ⟨rfl, .inr ⟨rfl, by simp [State.ahead, htokens, htoken], by simp, rfl⟩⟩
  · rintro ⟨rfl, ⟨rfl, t, rest, htokens, htoken, rfl⟩ | ⟨rfl, hhead, hclear, rfl⟩⟩
    · refine ⟨[], some token, s, [], ⟨rfl, by simp [htokens, htoken], rfl,
        by simp [htokens]⟩, ?_, rfl⟩
      simp only [if_true]
      exact runs_bind.mpr ⟨[], some t, _, [], runs_take?.mpr ⟨rfl, .inr ⟨t, rest, rfl, htokens,
        rfl⟩⟩, runs_pure.mpr ⟨rfl, rfl, rfl⟩, rfl⟩
    · refine ⟨[], s.ahead.head?, s, [], ⟨rfl, ?_, rfl, fun hpast => hclear ?_⟩, ?_, rfl⟩
      · simp [State.ahead, List.head?_eq_getElem?]
      · simpa using hpast
      · simp [hhead]

theorem runs_expect {token : Token} {u : Unit} :
    (expect token).Runs s events u s' ↔
      events = [] ∧ ∃ t rest, s.tokens = t :: rest ∧ t.token = token ∧ s.behind t rest = s' := by
  unfold expect
  simp only [runs_bind, runs_take]
  constructor
  · rintro ⟨_, t, _, _, ⟨rfl, rest, htokens, rfl⟩, h, rfl⟩
    split at h
    · next htoken =>
      obtain ⟨rfl, -, rfl⟩ := runs_pure.mp h
      exact ⟨rfl, t, rest, htokens, htoken, rfl⟩
    · simp at h
  · rintro ⟨rfl, t, rest, htokens, htoken, rfl⟩
    exact ⟨[], t, _, [], ⟨rfl, rest, htokens, rfl⟩, by simp [htoken], rfl⟩

end Runs

end TopicQuery.Grammar
