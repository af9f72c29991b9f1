import TopicQuery.Proofs.Accepted.Document
import TopicQuery.Proofs.Recognized.Document

/-!
Calls in conditions and in changes. What is taken in full as a call is taken as
the same call in a list of clauses and behind `update`. Behind `delete` a look at
the second token tells calls from terms, so a call whose name has a mark in front
of it is mistaken for a term there, and the text is refused.
-/

namespace TopicQuery.Grammar

open Parser Phrase

/-- Where the tokens are all there is, the recognizer takes them in full and reports the events. -/
def Parser.Takes (p : Parser Unit) (c : Setting) (ts : List Token) (events : List Event) : Prop :=
  ∃ s s' : State, s.Sees c ts ∧ p.Runs s events () s' ∧ s'.ahead = []

/-- The tokens begin with a mark that says what the reference behind it points at. -/
def Marked (ts : List Token) : Prop := ∃ m : Marker, ts.head? = some (.symbol m.symbol)

section Calls

variable {c : Setting} {ts rest : List Token} {s s' : State} {events : List Event}

/-! ## What is taken in full -/

theorem Parser.Yields.takes {α : Type} {p : Parser Unit} {k : Category α} (h : p.Yields k)
    (htakes : p.Takes c ts events) :
    ∃ x, ts = k.tokens x ∧ events = k.events c.scope x ∧ k.Refers c.scope x ∧
      (c.plus = false → k.IsPlain x) := by
  obtain ⟨s, s', hsees, hruns, hend⟩ := htakes
  obtain ⟨x, hx⟩ := h hruns
  obtain ⟨hevents, hrefers, hplain⟩ := And.intro hx.events (And.intro hx.refers hx.plain)
  have hahead := hx.passes.ahead
  rw [hend, List.append_nil, hsees.ahead] at hahead
  rw [hsees.setting] at hevents hrefers hplain
  exact ⟨x, hahead, hevents, hrefers, hplain⟩

theorem exists_sees (c : Setting) (ts : List Token) : ∃ s : State, s.Sees c ts :=
  ⟨⟨ts.map (⟨·, .start⟩), none, c.rules, c.plus, c.bindings, c.directives, 1, 1⟩, rfl, rfl,
    by simp [State.ahead, Function.comp_def]⟩

theorem Parser.Reads.takes {p : Parser Unit} {c' : Setting} (h : p.Reads c ts events () c' []) :
    p.Takes c ts events := by
  obtain ⟨s, hsees⟩ := exists_sees c ts
  obtain ⟨s', hruns, hend⟩ := h s hsees
  exact ⟨s, s', hsees, hruns, hend.ahead⟩

/-- Token sequences that are taken as calls, with their events, are those of phrases. -/
theorem exists_calls {calls : List (List Token × List Event)}
    (h : ∀ x ∈ calls, predicate.Takes c x.1 x.2) :
    ∃ xs : List Call, calls = xs.map (fun x => (x.tokens, Category.call.events c.scope x)) ∧
      (∀ x ∈ xs, x.Refers c.scope) ∧ (c.plus = false → ∀ x ∈ xs, x.IsPlain) := by
  induction calls with
  | nil => exact ⟨[], rfl, by simp, by simp⟩
  | cons x calls ih =>
      obtain ⟨xs, rfl, hrefers, hplain⟩ := ih fun y hy => h y (List.mem_cons_of_mem _ hy)
      obtain ⟨call, htokens, hevents, hcall, hcallPlain⟩ :=
        predicate_yields.takes (h x List.mem_cons_self)
      refine ⟨call :: xs, ?_, List.forall_mem_cons.mpr ⟨hcall, hrefers⟩, fun hlegacy =>
        List.forall_mem_cons.mpr ⟨hcallPlain hlegacy, hplain hlegacy⟩⟩
      rw [List.map_cons, ← Prod.eta x, htokens, hevents]
      rfl

theorem listed_map {α β : Type} (f : α → β) (tokens : β → List Token) (xs : List α) :
    listed tokens (xs.map f) = listed (fun x => tokens (f x)) xs := by
  match xs with
  | [] => rfl
  | [x] => rfl
  | x :: y :: ys =>
      have hrest : listed tokens ((y :: ys).map f) = listed (fun x => tokens (f x)) (y :: ys) :=
        listed_map f tokens (y :: ys)
      simp only [List.map_cons, listed] at hrest ⊢
      rw [hrest]

theorem runs_unique {α : Type} {p : Parser α} {told : List Event} {a b : α} {s'' : State}
    (h : p.Runs s events a s') (h' : p.Runs s told b s'') : events = told ∧ a = b ∧ s' = s'' := by
  have heq := h.symm.trans h'
  injection heq with hevents hresult
  injection hresult with hresult
  injection hresult with hvalue hstate
  exact ⟨hevents, hvalue, hstate⟩

/-! ## Marked names -/

/-- The name of a call is one token, or a mark and a token. -/
theorem unmarked_or_marked {call : Call} (h : call.name.Names c.scope) :
    (call.Unmarked ∧ ¬Marked call.tokens) ∨
      ∃ (m : Marker) (t : Token) (more : List Token), Inert t ∧
        call.tokens = .symbol m.symbol :: t :: .symbol .lparen :: more := by
  obtain ⟨behind, hbehind⟩ := tokens_call call
  have hone : ∀ t : Token, call.name.tokens = [t] → (∀ mark, t ≠ .symbol mark) →
      call.Unmarked ∧ ¬Marked call.tokens := by
    refine fun t htokens ht => ⟨⟨t, htokens⟩, ?_⟩
    rintro ⟨m, hm⟩
    rw [hbehind, htokens] at hm
    exact ht _ (Option.some.inj hm)
  have htwo : ∀ (m : Marker) (t : Token), call.name.tokens = [.symbol m.symbol, t] →
      ∃ (m : Marker) (t : Token) (more : List Token), Inert t ∧
        call.tokens = .symbol m.symbol :: t :: .symbol .lparen :: more := fun m t htokens =>
    ⟨m, t, behind, inert_of_mem_term (x := call.name) t (by simp [htokens]),
      by rw [hbehind, htokens]; rfl⟩
  generalize call.name = name at h hone htwo
  cases name with
  | atom kind value => exact .inl (hone _ rfl nofun)
  | literal value d => exact h.elim
  | qname marker name =>
      cases marker with
      | none => exact .inl (hone _ rfl nofun)
      | some m => exact .inr (htwo m _ rfl)
  | curie marker name =>
      cases marker with
      | none => exact .inl (hone _ rfl nofun)
      | some m => exact .inr (htwo m _ rfl)
  | iri m value => exact .inr (htwo m _ rfl)

/-- Behind a mark a term is deleted, and the parenthesis behind its reference is left. -/
theorem deletion_of_marked {m : Marker} {t : Token} {more : List Token} (ht : Inert t)
    (hahead : s.ahead = .symbol m.symbol :: t :: .symbol .lparen :: more)
    (h : deletion.Runs s events () s') : s'.ahead = .symbol .lparen :: more := by
  obtain ⟨x, hx⟩ := deletion_yields h
  have hpasses := hx.passes.ahead
  rw [hahead] at hpasses
  cases x with
  | call call =>
      obtain ⟨-, u, hu⟩ := hx.refers
      obtain ⟨behind, hbehind⟩ := tokens_call call
      simp only [Category.target, hbehind, hu, List.cons_append, List.nil_append,
        List.cons.injEq] at hpasses
      rw [hpasses.2.1] at ht
      simp [Inert] at ht
  | term x =>
      simp only [Category.target] at hpasses
      cases x with
      | atom kind value => simp [Phrase.Term.tokens] at hpasses
      | literal value d => simp [Phrase.Term.tokens] at hpasses
      | qname marker name =>
          cases marker <;> simp [Phrase.Term.tokens, Marker.tokens] at hpasses
          exact hpasses.2.2.symm
      | curie marker name =>
          cases marker <;> simp [Phrase.Term.tokens, Marker.tokens] at hpasses
          exact hpasses.2.2.symm
      | iri m' value =>
          simp only [Phrase.Term.tokens, List.cons_append, List.nil_append,
            List.cons.injEq] at hpasses
          exact hpasses.2.2.symm

/-- Items end where the first of them leaves anything but a comma. -/
theorem itemsUpTo_stops {item : Parser Unit} {t : Token} {n : Nat} (ht : t ≠ .symbol .comma)
    (hitem : ∀ told between, item.Runs s told () between → between.ahead.head? = some t)
    (h : (itemsUpTo item n).Runs s events () s') : s'.ahead.head? = some t := by
  cases n with
  | zero => exact hitem _ _ h
  | succ n =>
      obtain ⟨_, _, between, _, hfirst, hrest, rfl⟩ := runs_bind.mp h
      obtain ⟨_, taken, behind, _, haccept, hnext, rfl⟩ := runs_bind.mp hrest
      have hleft := hitem _ _ hfirst
      obtain ⟨-, ⟨-, u, more, htokens, hu, -⟩ | ⟨rfl, -, -, rfl⟩⟩ := runs_accept.mp haccept
      · rw [State.ahead, htokens] at hleft
        exact absurd ((Option.some.inj hleft).symm.trans hu) ht
      · obtain ⟨-, -, rfl⟩ := runs_pure.mp hnext
        exact hleft

/-- Of calls with a comma between them the parenthesis of the first marked one is left. -/
theorem deletions_of_marked {calls : List Call} {n : Nat} (hn : calls.length ≤ n + 1)
    (hrefers : ∀ x ∈ calls, x.Refers c.scope) (hplain : c.plus = false → ∀ x ∈ calls, x.IsPlain)
    (hmarked : ∃ x ∈ calls, Marked x.tokens)
    (hsees : s.Sees c (listed Call.tokens calls ++ rest))
    (h : (itemsUpTo deletion n).Runs s events () s') :
    s'.ahead.head? = some (.symbol .lparen) := by
  induction calls generalizing n s events with
  | nil =>
      obtain ⟨x, hx, -⟩ := hmarked
      cases hx
  | cons call calls ih =>
      obtain ⟨hcall, hcalls⟩ := List.forall_mem_cons.mp hrefers
      obtain ⟨behind, hbehind⟩ : ∃ behind,
          listed Call.tokens (call :: calls) ++ rest = call.tokens ++ behind := by
        cases calls with
        | nil => exact ⟨rest, rfl⟩
        | cons y ys =>
            exact ⟨.symbol .comma :: (listed Call.tokens (y :: ys) ++ rest), by simp [listed]⟩
      obtain ⟨hunmarked, hnot⟩ | ⟨m, t, more, ht, htokens⟩ := unmarked_or_marked hcall.1
      · -- the call is taken as one, and a later one is marked
        have hlater : ∃ x ∈ calls, Marked x.tokens := by
          obtain ⟨x, hx, hx'⟩ := hmarked
          obtain rfl | hx := List.mem_cons.mp hx
          · exact absurd hx' hnot
          · exact ⟨x, hx, hx'⟩
        obtain ⟨y, ys, rfl⟩ : ∃ y ys, calls = y :: ys := by
          obtain ⟨x, hx, -⟩ := hlater
          exact List.exists_cons_of_ne_nil (List.ne_nil_of_mem hx)
        obtain ⟨n, rfl⟩ : ∃ m, n = m + 1 := ⟨n - 1, by simp only [List.length_cons] at hn; omega⟩
        obtain ⟨_, _, s₁, _, hitem, hrest, rfl⟩ := runs_bind.mp h
        obtain ⟨_, taken, s₂, _, haccept, hnext, rfl⟩ := runs_bind.mp hrest
        have hread : deletion.Reads c
            (call.tokens ++ .symbol .comma :: (listed Call.tokens (y :: ys) ++ rest)) _ () c
            (.symbol .comma :: (listed Call.tokens (y :: ys) ++ rest)) :=
          deletion_accepts (x := .call call) ⟨hcall, hunmarked⟩
            (fun hlegacy => hplain hlegacy call List.mem_cons_self)
            ⟨untyped_symbol _ (by simp), by simp⟩
        obtain ⟨s₁', hitem', hsees₁⟩ := hread s (by simpa [listed] using hsees)
        obtain ⟨-, -, rfl⟩ := runs_unique hitem hitem'
        obtain ⟨s₂', haccept', hsees₂⟩ := reads_accept s₁ hsees₁
        obtain ⟨-, rfl, rfl⟩ := runs_unique haccept haccept'
        exact ih (Nat.le_of_succ_le_succ hn) hcalls
          (fun hlegacy x hx => hplain hlegacy x (List.mem_cons_of_mem _ hx)) hlater hsees₂ hnext
      · refine itemsUpTo_stops (by simp) (fun told between hitem => ?_) h
        have hahead : s.ahead = .symbol m.symbol :: t :: .symbol .lparen :: (more ++ behind) := by
          rw [hsees.ahead, hbehind, htokens]
          rfl
        rw [deletion_of_marked ht hahead hitem]
        rfl

/-- In front of a parenthesis there is no condition. -/
theorem optionalCondition_of_lparen (hhead : s.ahead.head? = some (.symbol .lparen))
    (h : optionalCondition.Runs s events () s') : s' = s := by
  have hnot : ∀ {word : Keyword} {told : List Event} {taken : Bool} {between : State},
      (acceptWord word).Runs s told taken between → taken = false ∧ between = s := by
    intro word told taken between haccept
    obtain ⟨-, ⟨-, t, more, htokens, ht, -⟩ | ⟨rfl, -, -, rfl⟩⟩ := runs_accept.mp haccept
    · simp [State.ahead, htokens, ht] at hhead
    · exact ⟨rfl, rfl⟩
  obtain ⟨_, _, s₁, _, hfrom, h₁, rfl⟩ := runs_bind.mp h
  obtain ⟨rfl, rfl⟩ := hnot hfrom
  obtain ⟨_, _, s₂, _, hwhere, h₂, rfl⟩ := runs_bind.mp h₁
  obtain ⟨rfl, rfl⟩ := hnot hwhere
  exact (runs_pure.mp h₂).2.2.symm

/-- With a marked call among them, calls behind `delete` are refused. -/
theorem not_takes_delete {calls : List Call} (hrefers : ∀ x ∈ calls, x.Refers c.scope)
    (hplain : c.plus = false → ∀ x ∈ calls, x.IsPlain) (hmarked : ∃ x ∈ calls, Marked x.tokens) :
    ¬ending.Takes c (.keyword .delete :: (listed Call.tokens calls ++ rest)) events := by
  rintro ⟨s, s', hsees, h, -⟩
  obtain ⟨_, _, s₄, _, hstatement, h₁, rfl⟩ := runs_bind.mp h
  have hleft : s₄.ahead.head? = some (.symbol .lparen) := by
    obtain ⟨_, _, s₀, _, hpeek, hbody, rfl⟩ := runs_bind.mp hstatement
    obtain ⟨rfl, rfl, rfl, -⟩ := runs_peek.mp hpeek
    rw [hsees.ahead] at hbody
    obtain ⟨_, _, s₀, _, hpeek, hdelete, rfl⟩ := runs_bind.mp hbody
    obtain ⟨rfl, rfl, rfl, -⟩ := runs_peek.mp hpeek
    rw [hsees.ahead] at hdelete
    obtain ⟨_, _, s₁, _, htake, hwithin, rfl⟩ := runs_bind.mp hdelete
    obtain ⟨first, more, htokens, -, hsees₁⟩ := hsees.behind
    obtain ⟨-, ⟨-, hnil, -⟩ | ⟨first', more', -, hcons, rfl⟩⟩ := runs_take?.mp htake
    · simp [htokens] at hnil
    obtain ⟨rfl, rfl⟩ := List.cons.inj (hcons.symm.trans htokens)
    obtain ⟨_, hinner, rfl⟩ := runs_within.mp hwithin
    obtain ⟨_, _, s₃, _, hitems, hcondition, rfl⟩ := runs_bind.mp hinner
    obtain ⟨_, _, s₁, _, hstate, hupTo, rfl⟩ := runs_bind.mp hitems
    obtain ⟨rfl, rfl, rfl⟩ := runs_state.mp hstate
    have hlength : calls.length ≤ (s.behind first' more').tokens.length + 1 := by
      have hlisted : calls.length ≤ (listed Call.tokens calls).length + 1 := length_le_listed calls
      have hahead : (s.behind first' more').tokens.length =
          (listed Call.tokens calls ++ rest).length := by
        rw [← hsees₁.ahead, State.ahead, List.length_map]
      rw [hahead, List.length_append]
      omega
    have hhead := deletions_of_marked hlength hrefers hplain hmarked hsees₁ hupTo
    rwa [optionalCondition_of_lparen hhead hcondition]
  obtain ⟨_, _, s₅, _, haccept, h₂, rfl⟩ := runs_bind.mp h₁
  obtain ⟨-, ⟨-, t, more, htokens, ht, -⟩ | ⟨rfl, -, -, rfl⟩⟩ := runs_accept.mp haccept
  · simp [State.ahead, htokens, ht] at hleft
  obtain ⟨_, t, s₆, _, htake, h₃, rfl⟩ := runs_bind.mp h₂
  obtain ⟨-, ⟨rfl, hnil, -⟩ | ⟨first, more, rfl, -⟩⟩ := runs_take?.mp htake
  · simp [State.ahead, hnil] at hleft
  · simp at h₃

/-! ## Lists of clauses and changes -/

theorem eventsAll_map {α : Type} (f : α → Outline) (xs : List α) :
    Outline.eventsAll (xs.map f) = xs.flatMap fun x => (f x).events := by
  induction xs with
  | nil => rfl
  | cons x xs ih => rw [List.map_cons, List.flatMap_cons, ← ih, Outline.eventsAll]

/-- What calls are reported as, one behind the other. -/
def callEvents (c : Scope) (calls : List Call) : List Event :=
  calls.flatMap fun x => (x.outline c).events

/-- Calls in a row are a list of clauses. -/
theorem reads_clauses_of_calls {calls : List Call} (hne : calls ≠ [])
    (hrefers : ∀ x ∈ calls, x.Refers c.scope) (hplain : c.plus = false → ∀ x ∈ calls, x.IsPlain) :
    Grammar.clauses.Reads c (listed Call.tokens calls) (callEvents c.scope calls) () c [] := by
  obtain ⟨cs, htokens, houtlines, hcs, hcsPlain⟩ :=
    clauseLists_of_list (by simpa using hne : calls.map Phrase.Clause.call ≠ [])
  have hread := @clauses_accepts c cs []
    (hcs _ (by simpa [Phrase.Clause.Refers] using hrefers))
    (fun hlegacy => hcsPlain (by simpa [Phrase.Clause.IsPlain] using hplain hlegacy))
    ⟨by simp [Untyped], by simp⟩
  have hevents : Outline.eventsAll (cs.outlines c.scope) = callEvents c.scope calls := by
    rw [houtlines, List.map_map, eventsAll_map]
    rfl
  have hlisted : cs.tokens = listed Call.tokens calls := by rw [htokens, listed_map]; rfl
  simpa [Category.clauses, Category.events, hlisted, hevents] using hread

/-- A change is read with its condition up to the end of the text. -/
theorem reads_ending_change (change : Change) {x : Option (Bool × Condition)}
    (hrefers : change.Refers c.scope ∧ Category.optionalCondition.Refers c.scope x)
    (hplain : c.plus = false → change.IsPlain ∧ Category.optionalCondition.IsPlain x) :
    ending.Reads c (change.tokens ++ Category.optionalCondition.tokens x)
      (.enter change.container :: (Outline.eventsAll (change.outlines c.scope) ++
        Category.optionalCondition.events c.scope x ++
          [Event.leave change.container.tag])) () c [] := by
  have hread := @reads_ending c (some (.change change x)) false
    (by rintro _ ⟨⟩; exact hrefers) (by rintro hlegacy _ ⟨⟩; exact hplain hlegacy)
  simpa [Document.questionTokens, Category.events, Category.statement, Outline.events] using hread

theorem reads_ending_update {calls : List Call} {x : Option (Bool × Condition)} (hne : calls ≠ [])
    (hrefers : ∀ y ∈ calls, y.Refers c.scope) (hplain : c.plus = false → ∀ y ∈ calls, y.IsPlain)
    (hcondition : Category.optionalCondition.Refers c.scope x)
    (hconditionPlain : c.plus = false → Category.optionalCondition.IsPlain x) :
    ending.Reads c
      (.keyword .update :: (listed Call.tokens calls ++ Category.optionalCondition.tokens x))
      (.enter .update :: (callEvents c.scope calls ++ Category.optionalCondition.events c.scope x ++
        [Event.leave Container.update.tag])) () c [] := by
  have hread := reads_ending_change (.update calls) ⟨⟨hne, hrefers⟩, hcondition⟩
    fun hlegacy => ⟨hplain hlegacy, hconditionPlain hlegacy⟩
  have hevents : Outline.eventsAll (Change.outlines c.scope (.update calls)) =
      callEvents c.scope calls := by
    rw [callEvents, ← eventsAll_map, List.map_eq_flatMap]
    rfl
  rwa [hevents] at hread

theorem reads_ending_delete {calls : List Call} {x : Option (Bool × Condition)} (hne : calls ≠ [])
    (hrefers : ∀ y ∈ calls, y.Refers c.scope ∧ y.Unmarked)
    (hplain : c.plus = false → ∀ y ∈ calls, y.IsPlain)
    (hcondition : Category.optionalCondition.Refers c.scope x)
    (hconditionPlain : c.plus = false → Category.optionalCondition.IsPlain x) :
    ending.Reads c
      (.keyword .delete :: (listed Call.tokens calls ++ Category.optionalCondition.tokens x))
      (.enter .delete :: (callEvents c.scope calls ++ Category.optionalCondition.events c.scope x ++
        [Event.leave Container.delete.tag])) () c [] := by
  have hread := reads_ending_change (.delete (calls.map .call))
    ⟨⟨by simpa using hne, List.forall_mem_map.mpr hrefers⟩, hcondition⟩
    fun hlegacy => ⟨List.forall_mem_map.mpr (hplain hlegacy), hconditionPlain hlegacy⟩
  have hevents : Outline.eventsAll (Change.outlines c.scope (.delete (calls.map .call))) =
      callEvents c.scope calls := by
    simp only [Change.outlines, Category.list, List.flatMap_map]
    rw [callEvents, ← eventsAll_map, List.map_eq_flatMap]
    rfl
  have htokens : Change.tokens (.delete (calls.map .call)) =
      .keyword .delete :: listed Call.tokens calls := by
    simp only [Change.tokens, Category.list, listed_map]
    rfl
  rwa [hevents, htokens] at hread

/--
Calls are accepted alike in a list of clauses and behind `update`: any token
sequences that are each taken in full as a call are taken there with a comma between
them, and are reported as they are alone. Behind `delete` they are accepted exactly
if no name among them has a mark in front of it.
-/
theorem calls_taken {calls : List (List Token × List Event)} {rest : List Token}
    {told : List Event} (hne : calls ≠ []) (hcalls : ∀ x ∈ calls, predicate.Takes c x.1 x.2)
    (hrest : optionalCondition.Takes c rest told) :
    Grammar.clauses.Reads c (listed Prod.fst calls) (calls.flatMap Prod.snd) () c [] ∧
      ending.Reads c (.keyword .update :: (listed Prod.fst calls ++ rest))
        (.enter .update :: (calls.flatMap Prod.snd ++ told ++ [.leave Container.update.tag])) () c
        [] ∧
      ((∀ x ∈ calls, ¬Marked x.1) →
        ending.Reads c (.keyword .delete :: (listed Prod.fst calls ++ rest))
          (.enter .delete :: (calls.flatMap Prod.snd ++ told ++ [.leave Container.delete.tag])) () c
            []) ∧
      ((∃ events, ending.Takes c (.keyword .delete :: (listed Prod.fst calls ++ rest)) events) ↔
        ∀ x ∈ calls, ¬Marked x.1) := by
  obtain ⟨xs, rfl, hrefers, hplain⟩ := exists_calls hcalls
  obtain ⟨x, rfl, rfl, hcondition, hconditionPlain⟩ := optionalCondition_yields.takes hrest
  have hxs : xs ≠ [] := by simpa using hne
  have hevents : (xs.map fun x => (x.tokens, Category.call.events c.scope x)).flatMap Prod.snd =
      callEvents c.scope xs := by
    rw [List.flatMap_map]
    simp [callEvents, Category.events, Category.call]
  have hdelete : (∀ x ∈ xs, ¬Marked x.tokens) → _ := fun hunmarked =>
    reads_ending_delete hxs (fun y hy => ⟨hrefers y hy,
      ((unmarked_or_marked (hrefers y hy).1).resolve_right fun ⟨m, t, more, _, htokens⟩ =>
        hunmarked y hy ⟨m, by rw [htokens]; rfl⟩).1⟩) hplain hcondition hconditionPlain
  rw [listed_map, hevents, List.forall_mem_map]
  refine ⟨reads_clauses_of_calls hxs hrefers hplain,
    reads_ending_update hxs hrefers hplain hcondition hconditionPlain, hdelete, ?_, ?_⟩
  · rintro ⟨events, htakes⟩ y hy hmarked
    exact not_takes_delete hrefers hplain ⟨y, hy, hmarked⟩ htakes
  · exact fun hunmarked => ⟨_, (hdelete hunmarked).takes⟩

end Calls

/-- The call `=<http://x/>($a)` in tolog+, by a subject locator. -/
def locatorCall : List Token :=
  [.symbol .eq, .atom .iri "http://x/", .symbol .lparen, .atom .var "a", .symbol .rparen]

/-- What the call is reported as. -/
def locatorEvents : List Event :=
  [.enter .dynamic, .enter .callee, .leaf (.atom .subjectLocator "http://x/"), .leave .callee,
    .leaf (.atom .var "a"), .leave .dynamic]

theorem takes_locatorCall : predicate.Takes ⟨[], true, [], 0⟩ locatorCall locatorEvents :=
  ⟨⟨locatorCall.map (⟨·, .start⟩), none, [], true, [], 0, 1, 1⟩, _, ⟨rfl, rfl, rfl⟩, rfl, rfl⟩

theorem calls_taken_marked :
    predicate.Takes ⟨[], true, [], 0⟩ locatorCall locatorEvents ∧
      ending.Reads ⟨[], true, [], 0⟩ (.keyword .update :: locatorCall)
        (.enter .update :: (locatorEvents ++ [.leave Container.update.tag])) () ⟨[], true, [], 0⟩
        [] ∧
      ¬∃ events, ending.Takes ⟨[], true, [], 0⟩ (.keyword .delete :: locatorCall) events := by
  have hcalls := @calls_taken ⟨[], true, [], 0⟩ [(locatorCall, locatorEvents)] [] []
    (by decide) (by simpa using takes_locatorCall) ⟨⟨[], none, [], true, [], 0, 1, 1⟩, _, ⟨rfl, rfl, rfl⟩, rfl, rfl⟩
  refine ⟨takes_locatorCall, hcalls.2.1, fun haccepted => ?_⟩
  exact hcalls.2.2.2.mp haccepted _ List.mem_cons_self ⟨.locator, rfl⟩

/-- A call that is accepted as a condition and behind `update` is refused behind `delete`. -/
theorem not_deletes_marked :
    predicate.Takes ⟨[], true, [], 0⟩ locatorCall locatorEvents ∧
      (scan "delete =<http://x/>($a)").tokens.map (·.token) = .keyword .delete :: locatorCall ∧
      (parse "=<http://x/>($a)" true).fault = none ∧
      (parse "update =<http://x/>($a)" true).fault = none ∧
      (parse "delete =<http://x/>($a)" true).fault =
        some (.grammar (.unexpected (.symbol .lparen)) 1 20) := by
  refine ⟨takes_locatorCall, ?_⟩
  decide +kernel

end TopicQuery.Grammar
