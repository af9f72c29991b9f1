import TopicQuery.Proofs.Recognized.Clause
import TopicQuery.Proofs.References.Told

/-!
Looks at terms. How many tokens a term has is found out twice: by the look at the tokens ahead
that tells comparisons from calls, and by the recognizer that takes the term. Wherever a term is
taken the look told its size. So the operator of a comparison, which is taken without another
look at it, is the one that the comparison was reported with.
-/

namespace TopicQuery.Grammar

open Parser Phrase

variable {s s' : State} {events : List Event}

/-! ## The size of a term -/

/-- The reference behind a marker is a single token, and the look at it goes no further. -/
theorem pastEnd_of_marked {marker : ReferenceKind} {item : Leaf}
    (h : (marked marker).Runs s events item s') : (termSize s.tokens).pastEnd = false := by
  obtain ⟨_, t, _, _, htake, h₁, rfl⟩ := runs_bind.mp h
  obtain ⟨rfl, rest, htokens, rfl⟩ := runs_take.mp htake
  rw [htokens]
  split at h₁
  · next value htoken => simp [termSize, htoken]
  · next name htoken => simp [termSize, htoken]
  · next name htoken => simp [termSize, htoken]
  · simp at h₁

/-- The look at a term goes past the end of the tokens only behind a string, where the term is
looked at no less far when it is taken. -/
theorem fault_of_pastEnd {u : Unit} (h : term.Runs s events u s')
    (hpast : (termSize s.tokens).pastEnd = true) : s.fault = none := by
  obtain ⟨_, first, _, _, htake, h₁, rfl⟩ := runs_bind.mp h
  obtain ⟨rfl, rest, htokens, rfl⟩ := runs_take.mp htake
  obtain ⟨_, item, _, _, hleaf, -, rfl⟩ := runs_bind.mp h₁
  rw [htokens] at hpast
  unfold termLeaf at hleaf
  split at hleaf
  · next value htoken =>
    obtain ⟨_, typed, _, _, haccept, -, -⟩ := runs_bind.mp hleaf
    cases rest with
    | cons u us => simp [termSize, htoken] at hpast
    | nil =>
        obtain ⟨-, ⟨-, t, rest, hcons, -⟩ | ⟨-, -, hclear, -⟩⟩ := runs_accept.mp haccept
        · cases hcons
        · exact hclear rfl
  · next kind value hstring htoken =>
    cases kind with
    | string => exact absurd rfl hstring
    | _ => simp [termSize, htoken] at hpast
  · next name htoken => simp [termSize, htoken] at hpast
  · next name htoken => simp [termSize, htoken] at hpast
  · split at hleaf
    · next marker hmarker =>
      obtain ⟨m, htoken, rfl⟩ := marker_of_markedKind? hmarker
      obtain ⟨_, _, _, _, hrequire, hmarked, -⟩ := runs_bind.mp hleaf
      obtain ⟨-, -, rfl⟩ := runs_requirePlus.mp hrequire
      have hinner : (termSize rest).pastEnd = false := pastEnd_of_marked hmarked
      have hpastEnd : (termSize (first :: rest)).pastEnd = (termSize rest).pastEnd := by
        cases m <;> simp [termSize, htoken, Marker.symbol, markedKind?]
      exact absurd (hpastEnd.symm.trans hpast) (by simp [hinner])
    · simp at hleaf

/-- Where a term is taken, the look at the tokens ahead tells how many it takes. -/
theorem look_termSize {u : Unit} (h : term.Runs s events u s') :
    ∃ ts, s.Passes ts s' ∧ (look termSize).Runs s [] (some ts.length) s := by
  obtain ⟨t, ht, -⟩ := term_runs h
  exact ⟨t.tokens, ht.passes,
    runs_look.mpr ⟨rfl, termSize_term ht.passes.ahead ht.ends, rfl, fault_of_pastEnd h⟩⟩

/-! ## The operator of a comparison -/

theorem callContainer_ne_comparison (rules : List String) (form : NameForm) (arity : Nat)
    (operator : Comparison) : callContainer rules form arity ≠ .comparison operator := by
  unfold callContainer
  repeat' split
  all_goals nofun

theorem within_announces {c : Container} {p : Parser Unit} {operator : Comparison}
    (hc : c ≠ .comparison operator) :
    (within c p s).events.head? ≠ some (.enter (.comparison operator)) :=
  fun h => hc (Event.enter.inj (Option.some.inj h))

/-- A call is not reported as a comparison. -/
theorem predicate_announces (operator : Comparison) (s : State) :
    (predicate s).events.head? ≠ some (.enter (.comparison operator)) := by
  let C {α : Type} (r : Reply α) : Prop := r.events.head? ≠ some (.enter (.comparison operator))
  have hnothing : ∀ {α : Type} (fault : ParseFault), C (⟨[], .error fault⟩ : Reply α) :=
    fun _ => nofun
  refine bind_of_silent (C := C) quiet_silent.calleeMarker hnothing fun marker _ _ => ?_
  refine bind_of_silent (C := C) (quiet_silent.take _) hnothing fun t _ _ => ?_
  refine bind_of_silent (C := C) (quiet_silent.look _) hnothing fun shape _ _ => ?_
  cases shape with
  | none =>
      refine bind_of_silent (C := C) quiet_silent.take? hnothing fun found _ _ => ?_
      cases found with
      | some found => exact hnothing _
      | none => exact hnothing _
  | some shape =>
      refine bind_of_silent (C := C) (quiet_silent.calleeOf _ _) hnothing fun callee s₁ _ => ?_
      obtain ⟨name, form⟩ := callee
      dsimp only
      split
      · exact within_announces nofun
      · refine bind_of_silent (C := C) (fun _ => rfl) hnothing fun s₂ _ _ => ?_
        have hcontainer := callContainer_ne_comparison s₂.rules form shape.arity operator
        generalize callContainer s₂.rules form shape.arity = container at hcontainer
        cases container <;> exact within_announces hcontainer

/-- What is reported as a comparison was told from a call by its operator. -/
theorem comparisonAhead_of_announced {inner : Parser Unit} {operator : Comparison}
    (h : (clause inner s).events.head? = some (.enter (.comparison operator))) :
    comparisonAhead.Runs s [] (some operator) s ∧ clause inner s = comparison operator s := by
  let C (r : Reply Unit) : Prop := r.events.head? = some (.enter (.comparison operator)) →
    comparisonAhead.Runs s [] (some operator) s ∧ r = comparison operator s
  have hnothing : ∀ fault, C ⟨[], .error fault⟩ := fun _ => nofun
  refine bind_of_silent (C := C) quiet_silent.peek hnothing (fun first s₁ hpeek => ?_) h
  obtain ⟨-, -, rfl, -⟩ := runs_peek.mp hpeek
  split
  · exact nofun
  · exact bind_of_silent (C := C) quiet_silent.take? hnothing fun _ _ _ => nofun
  · exact bind_of_silent (C := C) quiet_silent.take? hnothing fun _ _ _ => nofun
  · refine bind_of_silent (C := C) quiet_silent.comparisonAhead hnothing fun found s₂ hahead => ?_
    obtain ⟨-, rfl⟩ := comparisonAhead_runs hahead
    cases found with
    | none => exact fun hcall => absurd hcall (predicate_announces operator s)
    | some other =>
        intro hother
        obtain rfl : other = operator :=
          Container.comparison.inj (Event.enter.inj (Option.some.inj hother))
        exact ⟨hahead, rfl⟩

/-- In any state, and so wherever a text has been read to, a term takes as many tokens as the
look at the tokens ahead tells. What is then reported as a comparison is one with this operator,
and behind its left side nothing but this operator is taken. -/
theorem operator_announced (s : State) :
    (∀ events s', term.Runs s events () s' →
      ∃ ts, s.Passes ts s' ∧ (look termSize).Runs s [] (some ts.length) s) ∧
    ∀ (inner : Parser Unit) (operator : Comparison),
      (clause inner s).events.head? = some (.enter (.comparison operator)) →
        clause inner s = comparison operator s ∧
        ∀ left s', (within .left term).Runs s left () s' →
          ∃ t mark s'', (take "an operator").Runs s' [] t s'' ∧ t.token = .symbol mark ∧
            mark.comparison? = some operator := by
  refine ⟨fun _ _ => look_termSize, fun inner operator h => ?_⟩
  obtain ⟨hahead, hclause⟩ := comparisonAhead_of_announced h
  refine ⟨hclause, fun left s' hleft => ?_⟩
  obtain ⟨size, mark, hsize, hseen, hmark⟩ := comparisonAhead_some hahead
  obtain ⟨_, hterm, rfl⟩ := runs_within.mp hleft
  have hhead : s'.ahead.head? = some (.symbol mark) :=
    (head?_behind_term hsize hterm).trans hseen
  obtain ⟨t, rest, htokens, htoken⟩ : ∃ t rest, s'.tokens = t :: rest ∧ t.token = .symbol mark := by
    cases htokens : s'.tokens with
    | nil => simp [State.ahead, htokens] at hhead
    | cons t rest => exact ⟨t, rest, rfl, by simpa [State.ahead, htokens] using hhead⟩
  exact ⟨t, mark, _, runs_take.mpr ⟨rfl, rest, htokens, rfl⟩, htoken, hmark⟩

end TopicQuery.Grammar
