import TopicQuery.Conversion
import TopicQuery.Proofs.Compositional

/-!
tolog+ extends tolog. One step of the grammar asks which dialect is on, and it
does so to refuse something; every other step does the same in both. So a
recognizer that is started in tolog+ does what it does in plain tolog, unless it
is refused there; then what it reported before is the beginning of what it
reports in tolog+.
-/

namespace TopicQuery

/-- The mistake is the use of something that only tolog+ has. -/
def ParseFault.NeedsPlus : ParseFault → Prop
  | .grammar (.plusOnly _) _ _ => True
  | _ => False

instance (fault : ParseFault) : Decidable fault.NeedsPlus := by
  unfold ParseFault.NeedsPlus
  split <;> infer_instance

namespace Grammar

open Parser

/-! ## Replies in the two dialects -/

/-- The reply with tolog+ switched on in the state behind it. -/
def Reply.extended {α : Type} (r : Reply α) : Reply α :=
  ⟨r.events, r.result.map fun found => (found.1, found.2.extended)⟩

/-- The reply ends with a mistake that is none in tolog+. -/
def Reply.Refused {α : Type} (r : Reply α) : Prop :=
  ∃ fault, r.result = .error fault ∧ fault.NeedsPlus

/-- With tolog+ on the recognizer does what it does without, or more where it is refused without. -/
def Parser.Conservative {α : Type} (p : Parser α) : Prop :=
  ∀ s, p s.extended = (p s).extended ∨ (p s).Refused ∧ (p s).events <+: (p s.extended).events

section Steps

variable {α β : Type}

theorem conservative_value (a : α) : (pure a : Parser α).Conservative := fun _ => .inl rfl

theorem conservative_fail (fault : ParseFault) : (fail fault : Parser α).Conservative :=
  fun _ => .inl rfl

theorem conservative_emit (event : Event) : (emit event).Conservative := fun _ => .inl rfl

theorem conservative_change {f : State → State} (h : ∀ s, f s.extended = (f s).extended) :
    (change f).Conservative := by
  intro s
  refine .inl ?_
  change (⟨[], .ok ((), f s.extended)⟩ : Reply Unit) = ⟨[], .ok ((), (f s).extended)⟩
  rw [h s]

/-- A recognizer reports at least what its first part reports. -/
theorem events_prefix_bind (p : Parser α) (f : α → Parser β) (s : State) :
    (p s).events <+: ((p >>= f) s).events := by
  change (p s).events <+: (next p f s).events
  unfold next
  generalize p s = reply
  obtain ⟨events, result⟩ := reply
  cases result with
  | error fault => exact List.prefix_refl _
  | ok found => exact List.prefix_append _ _

theorem conservative_bind {p : Parser α} {f : α → Parser β} (hp : p.Conservative)
    (hf : ∀ a, (f a).Conservative) : (p >>= f).Conservative := by
  intro s
  have hbegins := events_prefix_bind p f s.extended
  change next p f s.extended = (next p f s).extended ∨
    (next p f s).Refused ∧ (next p f s).events <+: (next p f s.extended).events
  change _ <+: (next p f s.extended).events at hbegins
  unfold next at hbegins ⊢
  rcases hp s with hsame | ⟨⟨fault, hfault, hneeds⟩, hprefix⟩
  · -- the first part does the same, so the second one decides
    rw [hsame]
    generalize p s = reply
    obtain ⟨events, result⟩ := reply
    cases result with
    | error fault => exact .inl rfl
    | ok found =>
        obtain ⟨a, s'⟩ := found
        rcases hf a s' with hsame' | ⟨⟨fault, hfault, hneeds⟩, hprefix⟩
        · refine .inl ?_
          simp [Reply.extended, Except.map, hsame']
        · exact .inr ⟨⟨fault, hfault, hneeds⟩, by
            simpa [Reply.extended, Except.map] using hprefix⟩
  · -- the first part is refused, and the second one is not reached
    right
    generalize p s = reply at hfault hprefix
    obtain ⟨events, result⟩ := reply
    dsimp only at hfault
    subst hfault
    exact ⟨⟨fault, rfl, hneeds⟩, hprefix.trans hbegins⟩

theorem state_bind_apply (f : State → Parser β) (s : State) : (state >>= f) s = f s s := by
  change (⟨[] ++ (f s s).events, (f s s).result⟩ : Reply β) = f s s
  rw [List.nil_append]

/-- A recognizer may look at the state, but not at the dialect in it. -/
theorem conservative_read {f : State → Parser β} (hf : ∀ s, (f s).Conservative)
    (h : ∀ s, f s.extended = f s) : (state >>= f).Conservative := by
  intro s
  rw [state_bind_apply, state_bind_apply, h s]
  exact hf s s

theorem requirePlus_apply (t : PlacedToken) (what : String) (s : State) :
    requirePlus t what s =
      if s.plus then ⟨[], .ok ((), s)⟩
      else ⟨[], .error (.grammar (.plusOnly what) t.place.line t.place.column)⟩ := by
  unfold requirePlus
  rw [state_bind_apply]
  cases hplus : s.plus with
  | true => simp [pure, value]
  | false => simp [failAt, fail]

/-- The one step that asks for the dialect. -/
theorem conservative_requirePlus (t : PlacedToken) (what : String) :
    (requirePlus t what).Conservative := by
  intro s
  rw [requirePlus_apply, requirePlus_apply]
  cases hplus : s.plus with
  | true => exact .inl rfl
  | false => exact .inr ⟨⟨_, rfl, trivial⟩, List.nil_prefix⟩

theorem conservative_within (c : Container) {p : Parser Unit} (hp : p.Conservative) :
    (within c p).Conservative :=
  conservative_bind (conservative_emit _) fun _ => conservative_bind hp fun _ =>
    conservative_emit _

end Steps

/-- The steps of the grammar are conservative, and so are recognizers put together from them. -/
theorem compositional_conservative : Compositional @Parser.Conservative where
  value := conservative_value
  fail := conservative_fail
  leaf item := conservative_emit (.leaf item)
  within := conservative_within
  bind := conservative_bind
  read := conservative_read
  change := conservative_change
  requirePlus := conservative_requirePlus

end Grammar

open Grammar

/-- The text ends with a mistake that is none in tolog+. -/
def Parsed.Refused (p : Parsed) : Prop := ∃ fault, p.fault = some fault ∧ fault.NeedsPlus

instance (p : Parsed) : Decidable p.Refused :=
  inferInstanceAs (Decidable (∃ fault ∈ p.fault, fault.NeedsPlus))

/--
A text is reported in tolog+ as it is in plain tolog, events and mistake, unless
plain tolog refuses something in it; what was reported before that is the
beginning of what is reported in tolog+. So a text of plain tolog has the same
events and the same tree in tolog+.
-/
theorem parse_conservative (text : String) :
    (¬ (parse text false).Refused → parse text true = parse text false) ∧
      ((parse text false).Refused → (parse text false).events <+: (parse text true).events) ∧
      ((parse text false).fault = none →
        parse text true = parse text false ∧
          Element.ofText true text = Element.ofText false text) := by
  have hcases : parse text true = parse text false ∨
      (parse text false).Refused ∧ (parse text false).events <+: (parse text true).events := by
    have hwide : initial (scan text) true = (initial (scan text) false).extended := rfl
    unfold parse
    rw [hwide]
    rcases compositional_conservative.document (initial (scan text) false) with
      hsame | ⟨⟨fault, hfault, hneeds⟩, hprefix⟩
    · left
      rw [hsame]
      generalize document (initial (scan text) false) = reply
      obtain ⟨events, result⟩ := reply
      cases result <;> rfl
    · right
      generalize document (initial (scan text) false).extended = wide at hprefix
      generalize document (initial (scan text) false) = reply at hfault hprefix
      obtain ⟨events, result⟩ := reply
      obtain ⟨wideEvents, wideResult⟩ := wide
      dsimp only at hfault hprefix
      subst hfault
      exact ⟨⟨fault, rfl, hneeds⟩, by cases wideResult <;> exact hprefix⟩
  have hsame : ¬ (parse text false).Refused → parse text true = parse text false :=
    fun h => hcases.resolve_right fun hrefused => h hrefused.1
  refine ⟨hsame, fun hrefused => ?_, fun hnone => ?_⟩
  · rcases hcases with h | h
    · exact h ▸ List.prefix_refl _
    · exact h.2
  · have heq : parse text true = parse text false :=
      hsame fun ⟨fault, hfault, _⟩ => by simp [hnone] at hfault
    exact ⟨heq, by unfold Element.ofText; rw [heq]⟩

/-- Plain tolog refuses a comparison behind a call that it has reported. -/
theorem parse_conservative_comparison :
    (parse "p($a), $a < $b?" false).Refused ∧
      (parse "p($a), $a < $b?" false).events <+: (parse "p($a), $a < $b?" true).events :=
  have hrefused : (parse "p($a), $a < $b?" false).Refused := by decide +kernel
  ⟨hrefused, (parse_conservative _).2.1 hrefused⟩

end TopicQuery
