import TopicQuery.Proofs.Accepted.Clause
import TopicQuery.Proofs.Recognized.Clause

/-!
The recognizer of clauses and the grammar of clauses say the same. What is
recognized is a clause list that the state admits, with the events of its
outline; and every clause list that the state admits is recognized in full
wherever something stands behind it that ends a clause list.

The lookahead is what this rests on: whether a clause is a comparison or a call,
what a mark in front of a name is, and whether a call has pairs is decided before
the tokens are taken, by looking at as many of them as it takes.
-/

namespace TopicQuery.Grammar

open Phrase

/-- A clause list is next, these tokens are behind it, and the state admits it. -/
structure State.Begins (s : State) (xs : Clauses) (rest : List Token) : Prop where
  ahead : s.ahead = xs.tokens ++ rest
  refers : xs.Refers s.setting.scope
  plain : s.plus = false → xs.IsPlain

/-- The tokens that end a clause list. -/
def clauseEnds : List Token :=
  [.symbol .rparen, .symbol .rbrace, .symbol .bar, .symbol .barBar, .symbol .dot, .symbol .question,
    .keyword .order, .keyword .limit, .keyword .offset]

theorem parted_of_clauseEnds {rest : List Token} (h : ∀ t ∈ rest.head?, t ∈ clauseEnds) :
    Parted Untyped rest := by
  have hne : ∀ t, t ∉ clauseEnds → rest.head? ≠ some t := fun t ht hhead => ht (h t hhead)
  exact ⟨hne _ (by decide), hne _ (by decide)⟩

/--
Whenever the recognizer of clauses succeeds, it took a clause list that the state
admits and reported the events of that. In the other direction, where the tokens
are all there is, a clause list that the state admits is taken in full, and its
events are reported, if nothing is behind it or what ends a clause list.
-/
theorem clauses_exact (s : State) :
    (∀ events s', Grammar.clauses.Runs s events () s' →
        ∃ xs : Clauses, s.Begins xs s'.ahead ∧
          events = Outline.eventsAll (xs.outlines s.setting.scope)) ∧
      (s.fault = none → ∀ (xs : Clauses) (rest : List Token), s.Begins xs rest →
        (∀ t ∈ rest.head?, t ∈ clauseEnds) →
          ∃ s', Grammar.clauses.Runs s (Outline.eventsAll (xs.outlines s.setting.scope)) () s' ∧
            s'.ahead = rest) := by
  refine ⟨fun events s' h => ?_, fun hfault xs rest h hend => ?_⟩
  · obtain ⟨xs, hxs⟩ := clauses_yields h
    exact ⟨xs, ⟨hxs.passes.ahead, hxs.refers, hxs.plain⟩, hxs.events⟩
  · have hparted := parted_of_clauseEnds hend
    obtain ⟨s', hruns, hsees⟩ :=
      clauses_accepts h.refers h.plain hparted s ⟨hfault, rfl, h.ahead⟩
    exact ⟨s', hruns, hsees.ahead⟩

/-- A negated call, and a comparison behind it. -/
def negationAndComparison : Clauses :=
  .cons (.negation (.last (.call (.plain (.atom .identifier "p") [.atom .var "x"]))))
    (.last (.comparison .ne (.atom .var "x") (.atom .identifier "q")))

theorem clauses_exact_negation :
    (initial (scan "not(p($x)), $x /= q)") true).Begins negationAndComparison [.symbol .rparen] ∧
      ∃ s', clauses.Runs (initial (scan "not(p($x)), $x /= q)") true)
          (Outline.eventsAll (negationAndComparison.outlines
            (initial (scan "not(p($x)), $x /= q)") true).setting.scope)) () s' ∧
        s'.ahead = [.symbol .rparen] := by
  have hbegins : (initial (scan "not(p($x)), $x /= q)") true).Begins negationAndComparison
      [.symbol .rparen] :=
    { ahead := by decide +kernel
      refers := by
        simp [negationAndComparison, Clauses.Refers, Clause.Refers, Call.Refers, Term.Refers,
          Term.Names, Call.name, Call.terms]
      plain := fun hplus => absurd hplus (by decide) }
  exact ⟨hbegins, (clauses_exact _).2 (by decide +kernel) _ _ hbegins (by decide)⟩

end TopicQuery.Grammar
