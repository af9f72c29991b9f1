import TopicQuery.Proofs.Phrase.Document

/-!
Reading: what a recognizer does with tokens that are known. A recognizer reads
from some tokens to others if it succeeds wherever the first are ahead, with the
same events and the same value, and leaves the others. Each step of a recognizer
has a rule of its own.
-/

namespace TopicQuery.Grammar

open Parser Phrase

/-- These tokens are ahead, nothing is wrong behind them, and this is settled. -/
structure State.Sees (s : State) (c : Setting) (ts : List Token) : Prop where
  fault : s.fault = none
  setting : s.setting = c
  ahead : s.ahead = ts

/-- Wherever the first tokens are ahead, the recognizer succeeds and leaves the second ones. -/
def Parser.Reads {α : Type} (p : Parser α) (c : Setting) (ts : List Token) (events : List Event)
    (a : α) (c' : Setting) (ts' : List Token) : Prop :=
  ∀ s : State, s.Sees c ts → ∃ s', p.Runs s events a s' ∧ s'.Sees c' ts'

section Reads

variable {α β : Type} {c c' c'' : Setting} {ts ts' ts'' : List Token} {t : Token}
  {events first second : List Event}

theorem State.Sees.tokens {s : State} (h : s.Sees c ts) : s.tokens.map (·.token) = ts := h.ahead

theorem State.Sees.behind {s : State} (h : s.Sees c (t :: ts)) :
    ∃ first rest, s.tokens = first :: rest ∧ first.token = t ∧ (s.behind first rest).Sees c ts := by
  have htokens := h.tokens
  cases hs : s.tokens with
  | nil => simp [hs] at htokens
  | cons first rest =>
      simp only [hs, List.map_cons, List.cons.injEq] at htokens
      exact ⟨first, rest, rfl, htokens.1, h.fault, h.setting, htokens.2⟩

/-! ## Steps in a row -/

theorem reads_pure {a : α} : (pure a : Parser α).Reads c ts [] a c ts := fun s h =>
  ⟨s, runs_pure.mpr ⟨rfl, rfl, rfl⟩, h⟩

theorem reads_bind {p : Parser α} {f : α → Parser β} {a : α} {b : β}
    (hp : p.Reads c ts first a c' ts') (hf : (f a).Reads c' ts' second b c'' ts'') :
    (p >>= f).Reads c ts (first ++ second) b c'' ts'' := by
  intro s h
  obtain ⟨between, hbetween, hsees⟩ := hp s h
  obtain ⟨s', hs', hsees'⟩ := hf between hsees
  exact ⟨s', runs_bind.mpr ⟨first, a, between, second, hbetween, hs', rfl⟩, hsees'⟩

/-- A step that reports nothing. -/
theorem reads_then {p : Parser α} {f : α → Parser β} {a : α} {b : β}
    (hp : p.Reads c ts [] a c' ts') (hf : (f a).Reads c' ts' second b c'' ts'') :
    (p >>= f).Reads c ts second b c'' ts'' :=
  reads_bind hp hf

/-- A step behind which nothing more is reported. -/
theorem reads_last {p : Parser α} {f : α → Parser β} {a : α} {b : β}
    (hp : p.Reads c ts first a c' ts') (hf : (f a).Reads c' ts' [] b c'' ts'') :
    (p >>= f).Reads c ts first b c'' ts'' := by
  simpa using reads_bind hp hf

/-- A step whose value depends on more than the tokens. -/
theorem reads_state {f : State → Parser β} {b : β}
    (hf : ∀ s : State, s.Sees c ts → (f s).Reads c ts events b c' ts') :
    (state >>= f).Reads c ts events b c' ts' := by
  intro s h
  obtain ⟨s', hs', hsees⟩ := hf s h s h
  exact ⟨s', runs_bind.mpr ⟨[], s, s, events, runs_state.mpr ⟨rfl, rfl, rfl⟩, hs', rfl⟩, hsees⟩

theorem reads_emit {event : Event} : (emit event).Reads c ts [event] () c ts := fun s h =>
  ⟨s, runs_emit.mpr ⟨rfl, rfl⟩, h⟩

theorem reads_within (container : Container) {p : Parser Unit}
    (h : p.Reads c ts events () c' ts') :
    (within container p).Reads c ts (.enter container :: (events ++ [Event.leave container.tag])) ()
      c' ts' := by
  intro s hs
  obtain ⟨s', hs', hsees⟩ := h s hs
  exact ⟨s', runs_within.mpr ⟨events, hs', rfl⟩, hsees⟩

/-! ## Looking ahead -/

theorem reads_look {view : List PlacedToken → View α} {a : α}
    (h : ∀ tokens, tokens.map (·.token) = ts → (view tokens).value = a) :
    (look view).Reads c ts [] a c ts := fun s hs =>
  ⟨s, runs_look.mpr ⟨rfl, h _ hs.tokens, rfl, fun _ => hs.fault⟩, hs⟩

theorem reads_peekAt {n : Nat} : (peekAt n).Reads c ts [] ts[n]? c ts := fun s hs =>
  ⟨s, runs_peekAt.mpr ⟨rfl, by rw [hs.ahead], rfl, fun _ => hs.fault⟩, hs⟩

theorem reads_peek : peek.Reads c ts [] ts.head? c ts := fun s hs =>
  ⟨s, runs_peek.mpr ⟨rfl, by rw [hs.ahead], rfl, fun _ => hs.fault⟩, hs⟩

/-! ## Taking tokens -/

theorem reads_take {what : String} {f : PlacedToken → Parser β} {b : β}
    (hf : ∀ first : PlacedToken, first.token = t → (f first).Reads c ts events b c' ts') :
    (take what >>= f).Reads c (t :: ts) events b c' ts' := by
  intro s h
  obtain ⟨first, rest, htokens, hfirst, hsees⟩ := h.behind
  obtain ⟨s', hs', hsees'⟩ := hf first hfirst _ hsees
  exact ⟨s', runs_bind.mpr ⟨[], first, _, events, runs_take.mpr ⟨rfl, rest, htokens, rfl⟩, hs',
    rfl⟩, hsees'⟩

theorem reads_take? {f : Option PlacedToken → Parser β} {b : β}
    (hf : ∀ first : PlacedToken, first.token = t → (f (some first)).Reads c ts events b c' ts') :
    (take? >>= f).Reads c (t :: ts) events b c' ts' := by
  intro s h
  obtain ⟨first, rest, htokens, hfirst, hsees⟩ := h.behind
  obtain ⟨s', hs', hsees'⟩ := hf first hfirst _ hsees
  exact ⟨s', runs_bind.mpr ⟨[], some first, _, events,
    runs_take?.mpr ⟨rfl, .inr ⟨first, rest, rfl, htokens, rfl⟩⟩, hs', rfl⟩, hsees'⟩

theorem reads_take?_nil : take?.Reads c [] [] none c [] := fun s h =>
  ⟨s, runs_take?.mpr ⟨rfl, .inl ⟨rfl, List.map_eq_nil_iff.mp h.ahead, h.fault, rfl⟩⟩, h⟩

theorem reads_expect : (expect t).Reads c (t :: ts) [] () c ts := by
  intro s h
  obtain ⟨first, rest, htokens, hfirst, hsees⟩ := h.behind
  exact ⟨_, runs_expect.mpr ⟨rfl, first, rest, htokens, hfirst, rfl⟩, hsees⟩

theorem reads_accept : (accept t).Reads c (t :: ts) [] true c ts := by
  intro s h
  obtain ⟨first, rest, htokens, hfirst, hsees⟩ := h.behind
  exact ⟨_, runs_accept.mpr ⟨rfl, .inl ⟨rfl, first, rest, htokens, hfirst, rfl⟩⟩, hsees⟩

theorem reads_accept_other (h : ts.head? ≠ some t) : (accept t).Reads c ts [] false c ts :=
  fun s hs =>
    ⟨s, runs_accept.mpr ⟨rfl, .inr ⟨rfl, by rwa [hs.ahead], fun _ => hs.fault, rfl⟩⟩, hs⟩

theorem reads_takeAtom {kind : AtomKind} {what value : String} :
    (takeAtom kind what).Reads c (.atom kind value :: ts) [] value c ts := by
  refine reads_take fun first hfirst => ?_
  rw [hfirst]
  simp only [if_true]
  exact reads_pure

/-! ## What is settled -/

theorem reads_requirePlus {first : PlacedToken} {what : String} (h : c.plus = true) :
    (requirePlus first what).Reads c ts [] () c ts := by
  refine reads_state fun s hs => ?_
  have hplus : s.plus = true := (congrArg Setting.plus hs.setting).trans h
  rw [if_pos hplus]
  exact reads_pure

theorem kind?_of_binds {c : Scope} {qualifier : String} (h : c.Binds qualifier) :
    c.kind? qualifier = some (c.kind qualifier) := by
  unfold Scope.Binds at h
  unfold Scope.kind
  cases hkind : c.kind? qualifier with
  | none => simp [hkind] at h
  | some kind => rfl

theorem reads_kindOf {first : PlacedToken} {qualifier : String} (h : c.scope.Binds qualifier) :
    (kindOf first qualifier).Reads c ts [] (c.scope.kind qualifier) c ts := by
  refine reads_state fun s hs => ?_
  obtain ⟨b, hfind, hkind⟩ : ∃ b, c.bindings.find? (·.identifier == qualifier) = some b ∧
      b.kind = c.scope.kind qualifier := Option.map_eq_some_iff.mp (kind?_of_binds h)
  have hbindings : s.bindings = c.bindings := congrArg Setting.bindings hs.setting
  rw [hbindings, hfind, ← hkind]
  exact reads_pure

end Reads

/-! ## Categories -/

/-- Every phrase of the category is read, in front of tokens that may stand behind it. -/
def Parser.Accepts {α : Type} (p : Parser Unit) (k : Category α) (Stop : List Token → Prop) :
    Prop :=
  ∀ ⦃c : Setting⦄ ⦃x : α⦄ ⦃rest : List Token⦄, k.Refers c.scope x →
    (c.plus = false → k.IsPlain x) → Stop rest →
      p.Reads c (k.tokens x ++ rest) (k.events c.scope x) () c rest

section Accepts

variable {α : Type} {p : Parser Unit} {k : Category α} {Stop : List Token → Prop}

theorem accepts_within (h : p.Accepts k Stop) (container : Container) :
    (within container p).Accepts (k.inside container) Stop := by
  intro c x rest hrefers hplain hstop
  simpa [Category.events, Category.inside, Outline.events] using
    reads_within container (h hrefers hplain hstop)

/-- Behind items there is no comma. -/
def Parted (Stop : List Token → Prop) (rest : List Token) : Prop :=
  Stop rest ∧ rest.head? ≠ some (.symbol .comma)

/-- One item behind the other, as long as the bound allows. -/
theorem accepts_itemsUpTo (h : p.Accepts k Stop) (hcomma : ∀ ts, Stop (.symbol .comma :: ts))
    {c : Setting} {xs : List α} {rest : List Token} {n : Nat} (hn : xs.length ≤ n + 1)
    (hrefers : k.list.Refers c.scope xs) (hplain : c.plus = false → k.list.IsPlain xs)
    (hstop : Parted Stop rest) :
    (itemsUpTo p n).Reads c (k.list.tokens xs ++ rest) (k.list.events c.scope xs) () c rest := by
  induction n generalizing xs with
  | zero =>
      obtain ⟨x, rfl⟩ : ∃ x, xs = [x] := by
        match xs, hrefers.1, hn with
        | [x], _, _ => exact ⟨x, rfl⟩
      have hread := h (hrefers.2 x (by simp)) (fun hlegacy => hplain hlegacy x (by simp)) hstop.1
      simpa [Category.list, listed, Category.events, itemsUpTo] using hread
  | succ n ih =>
      match xs, hrefers with
      | [x], hrefers =>
          have hread := h (hrefers.2 x (by simp)) (fun hlegacy => hplain hlegacy x (by simp)) hstop.1
          have hall := reads_bind (f := fun _ => do if ← acceptMark .comma then itemsUpTo p n)
            hread (reads_then (reads_accept_other hstop.2) reads_pure)
          simpa [Category.list, listed, Category.events, itemsUpTo] using hall
      | x :: y :: ys, hrefers =>
          let behind := Token.symbol .comma :: (k.list.tokens (y :: ys) ++ rest)
          have hread : p.Reads c (k.tokens x ++ behind) (k.events c.scope x) () c behind :=
            h (hrefers.2 x (by simp)) (fun hlegacy => hplain hlegacy x (by simp)) (hcomma _)
          have hrest := @ih (y :: ys) (by simpa using hn)
            ⟨by simp, fun z hz => hrefers.2 z (by simp [hz])⟩
            (fun hlegacy z hz => hplain hlegacy z (by simp [hz]))
          have hall := reads_bind (f := fun _ => do if ← acceptMark .comma then itemsUpTo p n)
            hread (reads_then reads_accept hrest)
          simpa [behind, Category.list, listed, Category.events, itemsUpTo] using hall

theorem length_le_listed {tokens : α → List Token} (xs : List α) :
    xs.length ≤ (listed tokens xs).length + 1 := by
  match xs with
  | [] => simp
  | [x] => simp
  | x :: y :: ys =>
      have : (y :: ys).length ≤ (listed tokens (y :: ys)).length + 1 := length_le_listed (y :: ys)
      simp only [listed, List.length_append, List.length_cons] at this ⊢
      omega

theorem accepts_items (h : p.Accepts k Stop) (hcomma : ∀ ts, Stop (.symbol .comma :: ts)) :
    (items p).Accepts k.list (Parted Stop) := by
  intro c xs rest hrefers hplain hstop
  refine reads_state fun s hs => accepts_itemsUpTo h hcomma ?_ hrefers hplain hstop
  have hlength : s.tokens.length = (k.list.tokens xs ++ rest).length := by
    rw [← hs.ahead, State.ahead, List.length_map]
  have hitems : xs.length ≤ (k.list.tokens xs).length + 1 := length_le_listed xs
  rw [hlength, List.length_append]
  omega

end Accepts

end TopicQuery.Grammar
