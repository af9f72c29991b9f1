import TopicQuery.Proofs.Recognized.Statement

/-!
Whole texts that were recognized. Directives change what is settled; behind the
last of them the setting stays as it is.
-/

namespace TopicQuery.Grammar

open Parser Phrase

section Documents

variable {s s' : State} {events : List Event}

/-! ## Rules -/

theorem parameter_yields : parameter.Yields .parameter := by
  intro s events s' h
  obtain ⟨_, t, s₁, _, htake, h₁, rfl⟩ := runs_bind.mp h
  obtain ⟨rfl, hto⟩ := passes_of_take htake
  split at h₁
  · next name htoken =>
    obtain ⟨rfl, rfl⟩ := runs_emit.mp h₁
    rw [htoken] at hto
    exact ⟨name, hto, rfl, trivial, fun _ => trivial⟩
  · simp at h₁

theorem parameters_runs {u : Unit} (h : parameters.Runs s events u s') :
    ∃ names : List String,
      s.Passes (Category.parameter.list.tokens names ++ [Token.symbol .rparen]) s' ∧
      events = Outline.eventsAll (Category.parameter.list.outlines s.setting.scope names) := by
  obtain ⟨_, closed, s₁, _, hclosedRun, h₁, rfl⟩ := runs_bind.mp h
  obtain ⟨rfl, hclosed⟩ := passes_of_accept hclosedRun
  cases closed with
  | true =>
      obtain ⟨rfl, -, rfl⟩ := runs_pure.mp h₁
      exact ⟨[], hclosed, rfl⟩
  | false =>
      simp only [Bool.false_eq_true, if_false] at hclosed h₁
      obtain ⟨_, _, s₂, _, hitems, hcloseRun, rfl⟩ := runs_bind.mp h₁
      obtain ⟨names, hnames⟩ := yields_items parameter_yields hitems
      obtain ⟨rfl, hclose⟩ := passes_of_expect hcloseRun
      refine ⟨names, (hclosed.trans hnames.passes).trans hclose, ?_⟩
      simp [hnames.events, hclosed.scope, Category.events]

theorem rule_yields : rule.Yields .rule := by
  intro s events s' h
  obtain ⟨_, name, s₁, _, hnameRun, h₁, rfl⟩ := runs_bind.mp h
  obtain ⟨rfl, hname⟩ := passes_of_takeAtom hnameRun
  obtain ⟨_, _, s₂, _, hopenRun, h₂, rfl⟩ := runs_bind.mp h₁
  obtain ⟨rfl, hopen⟩ := passes_of_expect hopenRun
  obtain ⟨_, hinner, rfl⟩ := runs_within.mp h₂
  obtain ⟨_, _, s₃, _, hparametersRun, h₃, rfl⟩ := runs_bind.mp hinner
  obtain ⟨names, hparameters, rfl⟩ := parameters_runs hparametersRun
  obtain ⟨_, _, s₄, _, himpliesRun, h₄, rfl⟩ := runs_bind.mp h₃
  obtain ⟨rfl, himplies⟩ := passes_of_expect himpliesRun
  obtain ⟨_, _, s₅, _, hbodyRun, hdotRun, rfl⟩ := runs_bind.mp h₄
  obtain ⟨body, hbody⟩ := yields_within clauses_yields _ hbodyRun
  obtain ⟨rfl, hdot⟩ := passes_of_expect hdotRun
  have hhead := hname.trans hopen
  have hto := hhead.trans (hparameters.trans himplies)
  have hrefers := hbody.refers
  have hplain := hbody.plain
  rw [hto.scope] at hrefers
  rw [hto.plus] at hplain
  refine ⟨⟨name, names, body⟩, ?_, ?_, hrefers, hplain⟩
  · simpa [Category.rule, Category.inside, Category.clauses] using
      (hto.trans hbody.passes).trans hdot
  · simp [hbody.events, hto.scope, hhead.scope, Category.events, Category.rule, Category.inside,
      Category.clauses, Outline.events]

theorem atRule_runs {found : Bool} (h : atRule.Runs s events found s') :
    events = [] ∧ s = s' := by
  obtain ⟨_, token, s₁, _, hpeek, h₁, rfl⟩ := runs_bind.mp h
  obtain ⟨rfl, -, rfl, -⟩ := runs_peek.mp hpeek
  split at h₁
  · obtain ⟨_, shape, s₂, _, hlook, h₂, rfl⟩ := runs_bind.mp h₁
    obtain ⟨rfl, -, rfl, -⟩ := runs_look.mp hlook
    cases shape <;>
    · obtain ⟨rfl, -, rfl⟩ := runs_pure.mp h₂
      exact ⟨rfl, rfl⟩
  · obtain ⟨rfl, -, rfl⟩ := runs_pure.mp h₁
    exact ⟨rfl, rfl⟩

theorem rules_runs {n : Nat} {u : Unit} (h : (rules n).Runs s events u s') :
    ∃ rs : List Phrase.Rule, s.Passes (rs.flatMap Category.rule.tokens) s' ∧
      events = Outline.eventsAll (rs.flatMap (Category.rule.outlines s.setting.scope)) ∧
      (∀ r ∈ rs, Category.rule.Refers s.setting.scope r) ∧
      (s.setting.plus = false → ∀ r ∈ rs, Category.rule.IsPlain r) := by
  induction n generalizing s events with
  | zero =>
      obtain ⟨rfl, -, rfl⟩ := runs_pure.mp h
      exact ⟨[], State.Passes.refl s, rfl, by simp, by simp⟩
  | succ n ih =>
      obtain ⟨_, found, s₁, _, hatRule, h₁, rfl⟩ := runs_bind.mp h
      obtain ⟨rfl, rfl⟩ := atRule_runs hatRule
      cases found with
      | true =>
          obtain ⟨_, _, s₂, _, hrule, h₂, rfl⟩ := runs_bind.mp h₁
          obtain ⟨r, hr⟩ := rule_yields hrule
          obtain ⟨rs, hpasses, rfl, hrefers, hplain⟩ := ih h₂
          rw [hr.passes.scope] at hrefers ⊢
          rw [hr.passes.plus] at hplain
          refine ⟨r :: rs, hr.passes.trans hpasses, ?_, ?_, fun hlegacy => ?_⟩
          · simp [hr.events, Category.events]
          · simpa using ⟨hr.refers, hrefers⟩
          · simpa using ⟨hr.plain hlegacy, hplain hlegacy⟩
      | false =>
          obtain ⟨rfl, -, rfl⟩ := runs_pure.mp h₁
          exact ⟨[], State.Passes.refl s, rfl, by simp, by simp⟩

/-! ## Directives -/

/-- The second state is the first one behind some tokens, with this setting. -/
structure Turns (s : State) (ts : List Token) (c : Setting) (s' : State) : Prop where
  ahead : s.ahead = ts ++ s'.ahead
  setting : s'.setting = c
  fault : s'.fault = s.fault

theorem State.Passes.turns {ts : List Token} (h : s.Passes ts s') : Turns s ts s.setting s' :=
  ⟨h.ahead, h.setting, h.fault⟩

theorem Turns.trans {s'' : State} {ts us : List Token} {c c' : Setting} (h : Turns s ts c s')
    (h' : Turns s' us c' s'') : Turns s (ts ++ us) c' s'' :=
  ⟨by rw [h.ahead, h'.ahead, List.append_assoc], h'.setting, h'.fault.trans h.fault⟩

/-- A directive was recognized between the two states. -/
structure DirectiveRun (s : State) (d : Directive) (events : List Event) (s' : State) : Prop where
  turns : Turns s d.tokens (d.settle s.setting) s'
  events : events = (d.leaves s.setting).map .leaf
  fits : d.Fits s.setting

theorem bind_runs {binder : Binder} {t : PlacedToken} {b : Prefixed} {start : State} {u : Unit}
    (h : (bind t b).Runs s events u s')
    (hto : start.Passes (Directive.tokens (.binding binder b)) s)
    (hdeclares : Directive.Declares binder b.kind) :
    DirectiveRun start (.binding binder b) events s' := by
  obtain ⟨_, _, s₁, _, hcount, h₁, rfl⟩ := runs_bind.mp h
  obtain ⟨rfl, rfl⟩ := runs_change.mp hcount
  obtain ⟨_, a, s₂, _, hstate, h₂, rfl⟩ := runs_bind.mp h₁
  obtain ⟨rfl, rfl, rfl⟩ := runs_state.mp hstate
  have hsetting : start.setting = s.setting := hto.setting.symm
  split at h₂
  · next old hfind =>
    have hbound : Directive.bound? s.setting b.identifier = some old := hfind
    split at h₂
    · next hold =>
      obtain ⟨rfl, -, rfl⟩ := runs_pure.mp h₂
      refine ⟨⟨hto.ahead, ?_, hto.fault⟩, ?_, hdeclares, ?_⟩ <;> rw [hsetting]
      · simp only [Directive.settle, hbound]
        rfl
      · simp [Directive.leaves, hbound]
      · intro other hother
        rw [hbound] at hother
        rw [← Option.some.inj hother, hold]
    · simp at h₂
  · next hfind =>
    have hbound : Directive.bound? s.setting b.identifier = none := hfind
    obtain ⟨_, _, s₃, _, hchange, hemit, rfl⟩ := runs_bind.mp h₂
    obtain ⟨rfl, rfl⟩ := runs_change.mp hchange
    obtain ⟨rfl, rfl⟩ := runs_emit.mp hemit
    refine ⟨⟨hto.ahead, ?_, hto.fault⟩, ?_, hdeclares, ?_⟩ <;> rw [hsetting]
    · simp only [Directive.settle, hbound]
      rfl
    · simp [Directive.leaves, hbound]
    · simp [hbound]

theorem baseDirective_runs {t : PlacedToken} {start : State} {u : Unit}
    (h : (baseDirective t).Runs s events u s') (hto : start.Passes [.directive "base"] s) :
    ∃ iri, DirectiveRun start (.base iri) events s' := by
  obtain ⟨_, a, s₁, _, hstate, h₁, rfl⟩ := runs_bind.mp h
  obtain ⟨rfl, rfl, rfl⟩ := runs_state.mp hstate
  split at h₁
  · simp at h₁
  · next hfirst =>
    obtain ⟨_, iri, s₂, _, hiri, h₂, rfl⟩ := runs_bind.mp h₁
    obtain ⟨rfl, hatom⟩ := passes_of_takeAtom hiri
    obtain ⟨_, _, s₃, _, hcount, hemit, rfl⟩ := runs_bind.mp h₂
    obtain ⟨rfl, rfl⟩ := runs_change.mp hcount
    obtain ⟨rfl, rfl⟩ := runs_emit.mp hemit
    have hall := hto.trans hatom
    have hsetting : start.setting = s₂.setting := hall.setting.symm
    refine ⟨iri, ⟨hall.ahead, ?_, hall.fault⟩, rfl, ?_⟩
    · rw [hsetting]
      rfl
    · have hdirectives : start.setting.directives = s.directives :=
        congrArg Setting.directives hto.setting.symm
      simp only [Directive.Fits, hdirectives]
      omega

theorem versionText_runs {t : PlacedToken} {what text : String}
    (h : (versionText t what).Runs s events text s') :
    ∃ kind, (kind = .decimal ∨ kind = .integer) ∧ t.token = .atom kind text ∧ events = [] ∧
      s = s' := by
  unfold versionText at h
  split at h
  · next value htoken =>
    obtain ⟨rfl, rfl, rfl⟩ := runs_pure.mp h
    exact ⟨.decimal, .inl rfl, htoken, rfl, rfl⟩
  · next value htoken =>
    obtain ⟨rfl, rfl, rfl⟩ := runs_pure.mp h
    exact ⟨.integer, .inr rfl, htoken, rfl, rfl⟩
  · simp at h

theorem versionDirective_runs {start : State} {u : Unit}
    (h : versionDirective.Runs s events u s') (hto : start.Passes [.directive "version"] s) :
    ∃ kind text, DirectiveRun start (.version kind text) events s' := by
  obtain ⟨_, t, s₁, _, htake, h₁, rfl⟩ := runs_bind.mp h
  obtain ⟨rfl, hnumber⟩ := passes_of_take htake
  obtain ⟨_, text, s₂, _, htext, h₂, rfl⟩ := runs_bind.mp h₁
  obtain ⟨kind, hkind, htoken, rfl, rfl⟩ := versionText_runs htext
  split at h₂
  · next hknown =>
    obtain ⟨_, _, s₃, _, hchange, hcount, rfl⟩ := runs_bind.mp h₂
    obtain ⟨rfl, rfl⟩ := runs_change.mp hchange
    obtain ⟨rfl, rfl⟩ := runs_change.mp hcount
    rw [htoken] at hnumber
    have hall := hto.trans hnumber
    have hsetting : start.setting = s₁.setting := hall.setting.symm
    refine ⟨kind, text, ⟨hall.ahead, ?_, hall.fault⟩, rfl, hkind, by simpa using hknown⟩
    rw [hsetting]
    rfl
  · simp at h₂

theorem bindingDirective_runs (binder : Binder) {name what : String} {kind : ReferenceKind}
    {t : PlacedToken} {start : State} {u : Unit}
    (h : (bindingDirective t what kind).Runs s events u s')
    (hto : start.Passes [.directive name] s)
    (htokens : ∀ b, Directive.tokens (.binding binder b) =
      [.directive name, .atom .identifier b.identifier, .atom .iri b.iri])
    (hdeclares : Directive.Declares binder kind) :
    ∃ b, DirectiveRun start (.binding binder b) events s' := by
  obtain ⟨_, identifier, s₁, _, hidentifierRun, h₁, rfl⟩ := runs_bind.mp h
  obtain ⟨rfl, hidentifier⟩ := passes_of_takeAtom hidentifierRun
  obtain ⟨_, iri, s₂, _, hiriRun, h₂, rfl⟩ := runs_bind.mp h₁
  obtain ⟨rfl, hiri⟩ := passes_of_takeAtom hiriRun
  refine ⟨⟨identifier, iri, kind⟩, bind_runs h₂ ?_ hdeclares⟩
  rw [htokens]
  exact (hto.trans hidentifier).trans hiri

theorem percentDirective_runs {t : PlacedToken} {name : String} {start : State} {u : Unit}
    (h : (percentDirective t name).Runs s events u s') (hto : start.Passes [.directive name] s) :
    ∃ d, DirectiveRun start d events s' := by
  unfold percentDirective at h
  split at h
  · next hname =>
    subst hname
    obtain ⟨iri, hrun⟩ := baseDirective_runs h hto
    exact ⟨_, hrun⟩
  · split at h
    · next hname =>
      subst hname
      obtain ⟨kind, text, hrun⟩ := versionDirective_runs h hto
      exact ⟨_, hrun⟩
    · split at h
      · next hname =>
        subst hname
        obtain ⟨b, hrun⟩ := bindingDirective_runs .percentPrefix h hto (fun _ => rfl) rfl
        exact ⟨_, hrun⟩
      · split at h
        · next hname =>
          subst hname
          obtain ⟨b, hrun⟩ := bindingDirective_runs .percentImport h hto (fun _ => rfl) rfl
          exact ⟨_, hrun⟩
        · simp at h

theorem usingDirective_runs {u : Unit} (h : usingDirective.Runs s events u s')
    (hhead : s.ahead.head? = some (.keyword .usingWord)) :
    ∃ d, DirectiveRun s d events s' := by
  obtain ⟨_, t, s₁, _, htake, h₁, rfl⟩ := runs_bind.mp h
  obtain ⟨rfl, husing⟩ := passes_of_take htake
  obtain ⟨_, identifier, s₂, _, hidentifierRun, h₂, rfl⟩ := runs_bind.mp h₁
  obtain ⟨rfl, hidentifier⟩ := passes_of_takeAtom hidentifierRun
  obtain ⟨_, _, s₃, _, hforRun, h₃, rfl⟩ := runs_bind.mp h₂
  obtain ⟨rfl, hfor⟩ := passes_of_expect hforRun
  obtain ⟨_, reference, s₄, _, hreferenceRun, h₄, rfl⟩ := runs_bind.mp h₃
  obtain ⟨rfl, hreference⟩ := passes_of_take hreferenceRun
  have htoken : t.token = .keyword .usingWord := by simpa [husing.ahead] using hhead
  rw [htoken] at husing
  split at h₄
  · next atomKind iri hatom =>
    split at h₄
    · next kind hkind =>
      rw [hatom] at hreference
      exact ⟨.binding (.quoted atomKind) ⟨identifier, iri, kind⟩,
        bind_runs h₄ (((husing.trans hidentifier).trans hfor).trans hreference) hkind⟩
    · simp at h₄
  · simp at h₄

theorem locationText_runs {t : PlacedToken} {what iri : String}
    (h : (locationText t what).Runs s events iri s') :
    ∃ isIri : Bool, t.token = .atom (if isIri then .iri else .string) iri ∧ events = [] ∧
      s = s' := by
  unfold locationText at h
  split at h
  · next value htoken =>
    obtain ⟨rfl, rfl, rfl⟩ := runs_pure.mp h
    exact ⟨false, htoken, rfl, rfl⟩
  · next value htoken =>
    obtain ⟨rfl, rfl, rfl⟩ := runs_pure.mp h
    exact ⟨true, htoken, rfl, rfl⟩
  · simp at h

theorem importDirective_runs {u : Unit} (h : importDirective.Runs s events u s')
    (hhead : s.ahead.head? = some (.keyword .importWord)) :
    ∃ d, DirectiveRun s d events s' := by
  obtain ⟨_, t, s₁, _, htake, h₁, rfl⟩ := runs_bind.mp h
  obtain ⟨rfl, himport⟩ := passes_of_take htake
  obtain ⟨_, location, s₂, _, hlocationRun, h₂, rfl⟩ := runs_bind.mp h₁
  obtain ⟨rfl, hlocation⟩ := passes_of_take hlocationRun
  obtain ⟨_, iri, s₃, _, htext, h₃, rfl⟩ := runs_bind.mp h₂
  obtain ⟨isIri, hiri, rfl, rfl⟩ := locationText_runs htext
  obtain ⟨_, _, s₄, _, hasRun, h₄, rfl⟩ := runs_bind.mp h₃
  obtain ⟨rfl, has⟩ := passes_of_expect hasRun
  obtain ⟨_, identifier, s₅, _, hidentifierRun, h₅, rfl⟩ := runs_bind.mp h₄
  obtain ⟨rfl, hidentifier⟩ := passes_of_takeAtom hidentifierRun
  have htoken : t.token = .keyword .importWord := by simpa [himport.ahead] using hhead
  rw [htoken] at himport
  rw [hiri] at hlocation
  exact ⟨.binding (.imported isIri) ⟨identifier, iri, .module⟩,
    bind_runs h₅ (((himport.trans hlocation).trans has).trans hidentifier) rfl⟩

theorem directives_runs {n : Nat} {u : Unit} (h : (directives n).Runs s events u s') :
    ∃ ds : List Directive,
      Turns s (ds.flatMap Directive.tokens) (Directive.settleAll s.setting ds) s' ∧
      events = (Directive.leavesAll s.setting ds).map .leaf ∧ Directive.FitsAll s.setting ds := by
  induction n generalizing s events with
  | zero =>
      obtain ⟨rfl, -, rfl⟩ := runs_pure.mp h
      exact ⟨[], ⟨rfl, rfl, rfl⟩, rfl, trivial⟩
  | succ n ih =>
      have hcons : ∀ {d : Directive} {first second : List Event} {between : State},
          DirectiveRun s d first between → (directives n).Runs between second u s' →
          ∃ ds : List Directive,
            Turns s (ds.flatMap Directive.tokens) (Directive.settleAll s.setting ds) s' ∧
            first ++ second = (Directive.leavesAll s.setting ds).map .leaf ∧
            Directive.FitsAll s.setting ds := by
        intro d first second between hd hrest
        obtain ⟨ds, hturns, rfl, hfits⟩ := ih hrest
        rw [hd.turns.setting] at hturns hfits ⊢
        refine ⟨d :: ds, hd.turns.trans hturns, ?_, hd.fits, hfits⟩
        simp [hd.events, Directive.leavesAll]
      obtain ⟨_, token, s₁, told, hpeek, h₁, rfl⟩ := runs_bind.mp h
      obtain ⟨rfl, hhead, rfl, -⟩ := runs_peek.mp hpeek
      rw [List.nil_append]
      split at h₁
      · next name =>
        obtain ⟨_, t, s₂, _, htake, h₂, rfl⟩ := runs_bind.mp h₁
        obtain ⟨rfl, hto⟩ := passes_of_take htake
        obtain ⟨_, _, s₃, _, hpercent, hrest, rfl⟩ := runs_bind.mp h₂
        have htoken : t.token = .directive name := by simpa [hto.ahead] using hhead
        rw [htoken] at hto
        obtain ⟨d, hd⟩ := percentDirective_runs hpercent hto
        rw [List.nil_append]
        exact hcons hd hrest
      · obtain ⟨_, _, s₃, _, husing, hrest, rfl⟩ := runs_bind.mp h₁
        obtain ⟨d, hd⟩ := usingDirective_runs husing hhead
        exact hcons hd hrest
      · obtain ⟨_, _, s₃, _, himport, hrest, rfl⟩ := runs_bind.mp h₁
        obtain ⟨d, hd⟩ := importDirective_runs himport hhead
        exact hcons hd hrest
      · obtain ⟨rfl, -, rfl⟩ := runs_pure.mp h₁
        exact ⟨[], ⟨rfl, rfl, rfl⟩, rfl, trivial⟩

/-! ## Texts -/

theorem optionalStatement_runs {u : Unit} (h : optionalStatement.Runs s events u s') :
    ∃ x : Option Phrase.Statement,
      s.Passes (x.toList.flatMap Category.statement.tokens) s' ∧
      events = Outline.eventsAll
        (x.toList.flatMap (Category.statement.outlines s.setting.scope)) ∧
      (∀ y ∈ x, Category.statement.Refers s.setting.scope y) ∧
      (s.setting.plus = false → ∀ y ∈ x, Category.statement.IsPlain y) := by
  obtain ⟨_, token, s₁, told, hpeek, h₁, rfl⟩ := runs_bind.mp h
  obtain ⟨rfl, -, rfl, -⟩ := runs_peek.mp hpeek
  split at h₁
  · obtain ⟨rfl, -, rfl⟩ := runs_pure.mp h₁
    exact ⟨none, State.Passes.refl s, rfl, by simp, by simp⟩
  · obtain ⟨rfl, -, rfl⟩ := runs_pure.mp h₁
    exact ⟨none, State.Passes.refl s, rfl, by simp, by simp⟩
  · obtain ⟨x, hx⟩ := statement_yields h₁
    refine ⟨some x, by simpa using hx.passes, ?_, by simpa using hx.refers,
      fun hlegacy => by simpa using hx.plain hlegacy⟩
    simp [hx.events, Category.events]

/-- What remains of a text behind its rules, up to its end. -/
theorem ending_runs {u : Unit} (h : ending.Runs s events u s') :
    ∃ (x : Option Phrase.Statement) (question : Bool),
      s.Passes (x.toList.flatMap Category.statement.tokens ++
        Document.questionTokens question) s' ∧
      s'.ahead = [] ∧ s'.fault = none ∧
      events = Outline.eventsAll
        (x.toList.flatMap (Category.statement.outlines s.setting.scope)) ∧
      (∀ y ∈ x, Category.statement.Refers s.setting.scope y) ∧
      (s.setting.plus = false → ∀ y ∈ x, Category.statement.IsPlain y) := by
  obtain ⟨_, _, s₁, _, hstatement, h₁, rfl⟩ := runs_bind.mp h
  obtain ⟨x, hx, rfl, hrefers, hplain⟩ := optionalStatement_runs hstatement
  obtain ⟨_, question, s₂, _, hquestionRun, h₂, rfl⟩ := runs_bind.mp h₁
  obtain ⟨rfl, hquestion⟩ := passes_of_accept hquestionRun
  obtain ⟨_, t, s₃, _, htake, h₃, rfl⟩ := runs_bind.mp h₂
  cases t with
  | some t => simp at h₃
  | none =>
      obtain ⟨rfl, -, rfl⟩ := runs_pure.mp h₃
      obtain ⟨rfl, ⟨-, htokens, hfault, rfl⟩ | ⟨_, _, hsome, -⟩⟩ := runs_take?.mp htake
      · refine ⟨x, question, hx.trans hquestion, ?_, hfault, by simp, hrefers, hplain⟩
        simp [State.ahead, htokens]
      · simp at hsome

/-- A text that was recognized is a phrase that its setting admits. -/
theorem document_runs {u : Unit} (h : document.Runs s events u s') :
    ∃ d : Document, s.ahead = d.tokens ∧ s.fault = none ∧
      events = (d.outline s.setting).events ∧ d.Fits s.setting := by
  obtain ⟨_, a, s₀, _, hstate, h₁, rfl⟩ := runs_bind.mp h
  obtain ⟨rfl, rfl, rfl⟩ := runs_state.mp hstate
  obtain ⟨_, hinner, rfl⟩ := runs_within.mp h₁
  obtain ⟨_, _, s₁, _, hdirectives, h₂, rfl⟩ := runs_bind.mp hinner
  obtain ⟨ds, hds, rfl, hfits⟩ := directives_runs hdirectives
  obtain ⟨_, _, s₂, _, hrules, hending, rfl⟩ := runs_bind.mp h₂
  obtain ⟨rs, hrs, rfl, hrulesRefer, hrulesPlain⟩ := rules_runs hrules
  obtain ⟨x, question, hx, hend, hfault, rfl, hstatementRefers, hstatementPlain⟩ :=
    ending_runs hending
  rw [hrs.scope] at hstatementRefers ⊢
  rw [hrs.plus] at hstatementPlain
  rw [hds.setting] at hrulesRefer hrulesPlain hstatementRefers hstatementPlain ⊢
  refine ⟨⟨ds, rs, x, question⟩, ?_, ?_, ?_, hfits, hrulesRefer, hstatementRefers, hrulesPlain,
    hstatementPlain⟩
  · rw [hds.ahead, hrs.ahead, hx.ahead, hend]
    simp [Document.tokens]
  · rw [← hds.fault, ← hrs.fault, ← hx.fault, hfault]
  · simp [Document.outline, Document.settled, Outline.events, Container.tag]

/-- What a text is parsed as, if there is no mistake in it. -/
theorem parse_document {text : String} {plus : Bool} (h : (parse text plus).fault = none) :
    ∃ d : Document, (scan text).tokens.map (·.token) = d.tokens ∧ (scan text).fault = none ∧
      (parse text plus).events = (d.outline (initial (scan text) plus).setting).events ∧
      d.Fits (initial (scan text) plus).setting := by
  unfold parse at h ⊢
  generalize hreply : document (initial (scan text) plus) = reply at h ⊢
  obtain ⟨events, result⟩ := reply
  cases result with
  | error fault => simp at h
  | ok value =>
      obtain ⟨u, s'⟩ := value
      obtain ⟨d, hahead, hfault, hevents, hfits⟩ := document_runs hreply
      exact ⟨d, hahead, hfault, hevents, hfits⟩

end Documents

end TopicQuery.Grammar
