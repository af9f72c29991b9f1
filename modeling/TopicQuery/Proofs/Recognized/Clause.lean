import TopicQuery.Proofs.Recognized.Term
import TopicQuery.Proofs.Shape

/-!
Calls and clauses that were recognized. The container a call is reported in was
chosen by a look at its arguments before they were taken, and the look saw what
was taken.
-/

namespace TopicQuery.Grammar

open Parser Phrase

section Calls

variable {s s' : State} {events : List Event}

/-! ## Arguments -/

theorem role_yields :
    (within .pair do
      within .player term
      expectMark .colon
      within .roleType term).Yields .role := by
  intro s events s' h
  obtain ⟨_, hpair, rfl⟩ := runs_within.mp h
  obtain ⟨_, _, s₁, _, hplayer, h₁, rfl⟩ := runs_bind.mp hpair
  obtain ⟨_, _, s₂, _, hcolonRun, htype, rfl⟩ := runs_bind.mp h₁
  obtain ⟨player, hplayer⟩ := yields_within term_yields _ hplayer
  obtain ⟨rfl, hcolon⟩ := passes_of_expect hcolonRun
  obtain ⟨type, htype⟩ := yields_within term_yields _ htype
  have hto := hplayer.passes.trans hcolon
  have hrefers := htype.refers
  have hplain := htype.plain
  rw [hto.scope] at hrefers
  rw [hto.plus] at hplain
  refine ⟨⟨player, type⟩, ?_, ?_, ⟨hplayer.refers, hrefers⟩,
    fun hlegacy => ⟨hplayer.plain hlegacy, hplain hlegacy⟩⟩
  · simpa [Category.role, Phrase.Role.tokens, Category.inside, Category.term] using hto.trans htype.passes
  · simp [hplayer.events, htype.events, hto.scope, Category.events, Category.inside, Category.term,
      Category.role, Phrase.Role.outline, Outline.events, Outline.eventsAll]

theorem arguments_runs {u : Unit} (h : arguments.Runs s events u s') :
    ∃ arguments : List Phrase.Term,
      s.Passes (.symbol .lparen ::
        (listed Phrase.Term.tokens arguments ++ [Token.symbol .rparen])) s' ∧
      events = Outline.eventsAll (arguments.map fun a => .leaf (a.leaf s.setting.scope)) ∧
      (∀ a ∈ arguments, a.Refers s.setting.scope) ∧
      (s.setting.plus = false → ∀ a ∈ arguments, a.IsPlain) := by
  obtain ⟨_, _, s₁, _, hopenRun, h₁, rfl⟩ := runs_bind.mp h
  obtain ⟨rfl, hopen⟩ := passes_of_expect hopenRun
  obtain ⟨_, closed, s₂, _, hclosedRun, h₂, rfl⟩ := runs_bind.mp h₁
  obtain ⟨rfl, hclosed⟩ := passes_of_accept hclosedRun
  cases closed with
  | true =>
      simp only [if_true] at hclosed h₂
      obtain ⟨rfl, -, rfl⟩ := runs_pure.mp h₂
      exact ⟨[], by simpa [listed] using hopen.trans hclosed, rfl, by simp, by simp⟩
  | false =>
      simp only [Bool.false_eq_true, if_false] at hclosed h₂
      obtain ⟨_, _, s₃, _, hitems, hcloseRun, rfl⟩ := runs_bind.mp h₂
      obtain ⟨arguments, harguments⟩ := yields_items term_yields hitems
      obtain ⟨rfl, hclose⟩ := passes_of_expect hcloseRun
      have hto := hopen.trans hclosed
      have hrefers := harguments.refers.2
      have hplain := harguments.plain
      rw [hto.scope] at hrefers
      rw [hto.plus] at hplain
      refine ⟨arguments, ?_, ?_, hrefers, hplain⟩
      · simpa [Category.list, Category.term] using (hto.trans harguments.passes).trans hclose
      · simp only [List.nil_append, List.append_nil, harguments.events, hto.scope, Category.events,
          Category.list, Category.term, List.map_eq_flatMap]

/-! ## Names -/

theorem calleeMarker_runs {marker : Option ReferenceKind}
    (h : calleeMarker.Runs s events marker s') :
    ∃ m : Option Marker, marker = m.map Marker.kind ∧ s.Passes (Marker.tokens m) s' ∧
      events = [] ∧ (s.setting.plus = false → m = none) := by
  obtain ⟨_, token, s₁, _, hpeek, h₁, rfl⟩ := runs_bind.mp h
  obtain ⟨rfl, rfl, rfl, -⟩ := runs_peek.mp hpeek
  split at h₁
  · obtain ⟨rfl, rfl, rfl⟩ := runs_pure.mp h₁
    exact ⟨none, rfl, State.Passes.refl s, rfl, fun _ => rfl⟩
  · next kind hmarked =>
    obtain ⟨token, hhead, hkind⟩ := Option.bind_eq_some_iff.mp hmarked
    obtain ⟨m, rfl, rfl⟩ := marker_of_markedKind? hkind
    obtain ⟨_, t, s₂, _, htake, h₂, rfl⟩ := runs_bind.mp h₁
    obtain ⟨rfl, hpasses⟩ := passes_of_take htake
    obtain ⟨_, _, s₃, _, hrequire, h₃, rfl⟩ := runs_bind.mp h₂
    obtain ⟨rfl, hplus, rfl⟩ := runs_requirePlus.mp hrequire
    obtain ⟨rfl, rfl, rfl⟩ := runs_pure.mp h₃
    have htoken : t.token = .symbol m.symbol := by
      simpa [hpasses.ahead] using hhead
    rw [htoken] at hpasses
    rw [hpasses.plus] at hplus
    exact ⟨some m, rfl, hpasses, rfl, by simp [hplus]⟩

/-- The name of a predicate that was recognized behind its mark. -/
structure NameRun (s : State) (name : Phrase.Term) (item : Leaf) (form : NameForm) (s' : State) :
    Prop where
  passes : s.Passes name.tokens s'
  leaf : item = name.leaf s.setting.scope
  form : form = name.form s.setting.scope
  names : name.Names s.setting.scope
  plain : s.setting.plus = false → name.IsPlain

theorem unmarked_runs {t : PlacedToken} {marker : Option ReferenceKind} {u : Unit} :
    (unmarked t marker).Runs s events u s' ↔ events = [] ∧ marker = none ∧ s = s' := by
  cases marker <;> simp [unmarked]

theorem calleeOf_runs {t : PlacedToken} {m : Option Marker} {item : Leaf} {form : NameForm}
    {start : State} (h : (calleeOf t (m.map Marker.kind)).Runs s events (item, form) s')
    (hstart : start.Passes (Marker.tokens m ++ [t.token]) s)
    (hmarked : start.setting.plus = false → m = none) :
    ∃ name : Phrase.Term, NameRun start name item form s' ∧ events = [] ∧ s = s' := by
  unfold calleeOf at h
  split at h
  · next value htoken =>
    obtain ⟨_, _, _, _, hunmarked, h₁, rfl⟩ := runs_bind.mp h
    obtain ⟨rfl, hnone, rfl⟩ := unmarked_runs.mp hunmarked
    obtain ⟨rfl, hvalue, rfl⟩ := runs_pure.mp h₁
    obtain ⟨rfl, rfl⟩ := Prod.mk.inj hvalue
    obtain rfl := Option.map_eq_none_iff.mp hnone
    rw [htoken] at hstart
    exact ⟨.atom .identifier value, ⟨hstart, rfl, rfl, .inl rfl, fun _ => trivial⟩, rfl, rfl⟩
  · next name htoken =>
    obtain ⟨_, kind, _, told, hkindOf, h₁, rfl⟩ := runs_bind.mp h
    obtain ⟨rfl, hkind, rfl⟩ := runs_kindOf.mp hkindOf
    obtain ⟨hbinds, hkind⟩ := kind_of_kind? hkind
    rw [htoken] at hstart
    rw [hstart.scope] at hbinds hkind
    cases m with
    | none =>
        cases kind <;>
        · obtain ⟨rfl, hvalue, rfl⟩ := runs_pure.mp h₁
          obtain ⟨rfl, rfl⟩ := Prod.mk.inj hvalue
          refine ⟨.qname none name, ⟨hstart, ?_, ?_, ⟨hbinds, fun _ => rfl⟩, fun _ => rfl⟩, rfl, rfl⟩
          · simp [Phrase.Term.leaf, Marker.kindOr, hkind]
          · simp [Phrase.Term.form, hkind]
    | some m =>
        have hmodule : start.setting.scope.kind name.qualifier ≠ .module := by
          intro hmodule
          rw [← hkind, hmodule] at h₁
          simp at h₁
        have hvalue : told = [] ∧ (.qname m.kind name, .dynamic) = (item, form) ∧ s = s' := by
          cases kind with
          | module => exact absurd hkind hmodule
          | _ => exact runs_pure.mp h₁
        obtain ⟨rfl, hvalue, rfl⟩ := hvalue
        obtain ⟨rfl, rfl⟩ := Prod.mk.inj hvalue
        refine ⟨.qname (some m) name, ⟨hstart, rfl, rfl, ⟨hbinds, fun h => absurd h hmodule⟩,
          fun hlegacy => ?_⟩, rfl, rfl⟩
        exact hmarked hlegacy
  · next name htoken =>
    obtain ⟨_, value, _, _, hcurie, h₁, rfl⟩ := runs_bind.mp h
    obtain ⟨rfl, rfl, hplus, hbinds, rfl⟩ := curieLeaf_runs hcurie
    obtain ⟨rfl, hvalue, rfl⟩ := runs_pure.mp h₁
    obtain ⟨rfl, rfl⟩ := Prod.mk.inj hvalue
    rw [htoken] at hstart
    rw [hstart.scope] at hbinds ⊢
    rw [hstart.plus] at hplus
    exact ⟨.curie m name, ⟨hstart, rfl, rfl, hbinds, by simp [hplus]⟩, rfl, rfl⟩
  · next value htoken =>
    obtain ⟨rfl, hvalue, rfl⟩ := runs_pure.mp h
    obtain ⟨rfl, rfl⟩ := Prod.mk.inj hvalue
    rw [htoken] at hstart
    cases m with
    | none =>
        exact ⟨.atom .iri value, ⟨hstart, rfl, rfl, .inr (.inl rfl), fun _ => trivial⟩, rfl, rfl⟩
    | some m =>
        refine ⟨.iri m value, ⟨hstart, ?_, rfl, trivial, fun hlegacy => ?_⟩, rfl, rfl⟩
        · cases m <;> rfl
        · exact absurd (hmarked hlegacy) (by simp)
  · next kind value hidentifier hiri htoken =>
    split at h
    · next hkinds =>
      obtain ⟨_, _, _, _, hunmarked, h₁, rfl⟩ := runs_bind.mp h
      obtain ⟨rfl, hnone, rfl⟩ := unmarked_runs.mp hunmarked
      obtain ⟨rfl, hvalue, rfl⟩ := runs_pure.mp h₁
      obtain ⟨rfl, rfl⟩ := Prod.mk.inj hvalue
      obtain rfl := Option.map_eq_none_iff.mp hnone
      rw [htoken] at hstart
      refine ⟨.atom kind value, ⟨hstart, rfl, ?_, .inr (.inr hkinds), fun _ => trivial⟩, rfl, rfl⟩
      obtain rfl | rfl | rfl := hkinds <;> rfl
    · simp at h
  · simp at h

/-! ## Calls -/

theorem callee_runs {name : Leaf} {u : Unit} (h : (callee name).Runs s events u s') :
    events = (Outline.within .callee [.leaf name]).events ∧ s = s' := by
  obtain ⟨_, hname, rfl⟩ := runs_within.mp h
  obtain ⟨rfl, rfl⟩ := runs_emit.mp hname
  exact ⟨rfl, rfl⟩

theorem associationCall_runs {name : Phrase.Term} {c : Scope} {u : Unit}
    (h : (associationCall (name.leaf c)).Runs s events u s') (hc : s.setting.scope = c) :
    ∃ rs : List Phrase.Role,
      s.Passes (.symbol .lparen :: (listed Phrase.Role.tokens rs ++ [Token.symbol .rparen])) s' ∧
      events = ((Call.association name rs).outline c).events ∧ Category.role.list.Refers c rs ∧
      (s.setting.plus = false → Category.role.list.IsPlain rs) := by
  obtain ⟨_, hinner, rfl⟩ := runs_within.mp h
  obtain ⟨_, _, s₁, _, hcallee, h₁, rfl⟩ := runs_bind.mp hinner
  obtain ⟨rfl, rfl⟩ := callee_runs hcallee
  obtain ⟨_, _, s₂, _, hopenRun, h₂, rfl⟩ := runs_bind.mp h₁
  obtain ⟨rfl, hopen⟩ := passes_of_expect hopenRun
  obtain ⟨_, _, s₃, _, hitems, hcloseRun, rfl⟩ := runs_bind.mp h₂
  obtain ⟨rs, hroles⟩ := yields_items role_yields hitems
  obtain ⟨rfl, hclose⟩ := passes_of_expect hcloseRun
  have hrefers := hroles.refers
  have hplain := hroles.plain
  rw [hopen.scope, hc] at hrefers
  rw [hopen.plus] at hplain
  refine ⟨rs, ?_, ?_, hrefers, hplain⟩
  · simpa [Category.list, Category.role] using (hopen.trans hroles.passes).trans hclose
  · simp only [List.nil_append, List.append_nil, hroles.events, hopen.scope, hc, Category.events,
      Category.list, Category.role, Call.outline, Call.calleeOutline, Outline.events, Outline.eventsAll,
      List.map_eq_flatMap]

/-- The call was told apart by its name and the number of its arguments. -/
theorem plainCall_runs {name : Phrase.Term} {c : Scope} {arity : Nat} {u : Unit}
    (h : (match callContainer s.rules (name.form c) arity with
      | .builtin builtin hints => within (.builtin builtin hints) arguments
      | container => plainCall container (name.leaf c)).Runs s events u s')
    (hc : s.setting.scope = c)
    (harity : ∀ arguments : List Phrase.Term, ∀ rest,
      s.ahead = .symbol .lparen ::
        (listed Phrase.Term.tokens arguments ++ Token.symbol .rparen :: rest) →
      arity = arguments.length) :
    ∃ arguments : List Phrase.Term,
      s.Passes (.symbol .lparen ::
        (listed Phrase.Term.tokens arguments ++ [Token.symbol .rparen])) s' ∧
      events = ((Call.plain name arguments).outline c).events ∧
      (∀ a ∈ arguments, a.Refers c) ∧
      (s.setting.plus = false → ∀ a ∈ arguments, a.IsPlain) := by
  have hrules : s.rules = c.rules := congrArg Scope.rules hc
  rw [hrules] at h
  have hlength : ∀ {between : State} {arguments : List Phrase.Term},
      s.Passes (.symbol .lparen ::
        (listed Phrase.Term.tokens arguments ++ [Token.symbol .rparen])) between →
      arity = arguments.length := fun hpasses =>
    harity _ _ (by simpa using hpasses.ahead)
  split at h
  · next builtin hints hbuiltin =>
    obtain ⟨_, hinner, rfl⟩ := runs_within.mp h
    obtain ⟨arguments, hpasses, rfl, hrefers, hplain⟩ := arguments_runs hinner
    rw [hc] at hrefers ⊢
    obtain rfl := hlength hpasses
    refine ⟨arguments, hpasses, ?_, hrefers, hplain⟩
    rw [Call.outline_builtin hbuiltin, Outline.events]
  · next container hother =>
    obtain ⟨_, hinner, rfl⟩ := runs_within.mp h
    obtain ⟨_, _, s₁, _, hcallee, h₁, rfl⟩ := runs_bind.mp hinner
    obtain ⟨rfl, rfl⟩ := callee_runs hcallee
    obtain ⟨arguments, hpasses, rfl, hrefers, hplain⟩ := arguments_runs h₁
    rw [hc] at hrefers ⊢
    obtain rfl := hlength hpasses
    refine ⟨arguments, hpasses, ?_, hrefers, hplain⟩
    rw [Call.outline_called hother]
    simp [Outline.events, Outline.eventsAll, Call.calleeOutline]

theorem predicate_yields : predicate.Yields .call := by
  intro s events s' h
  obtain ⟨_, _, s₁, _, hmarker, h₁, rfl⟩ := runs_bind.mp h
  obtain ⟨m, rfl, hto₁, rfl, hmarked⟩ := calleeMarker_runs hmarker
  obtain ⟨_, t, s₂, _, htake, h₂, rfl⟩ := runs_bind.mp h₁
  obtain ⟨rfl, hto₂⟩ := passes_of_take htake
  obtain ⟨_, shape, s₃, _, hlook, h₃, rfl⟩ := runs_bind.mp h₂
  obtain ⟨rfl, hshape, rfl, -⟩ := runs_look.mp hlook
  cases shape with
  | none =>
      obtain ⟨_, found, _, _, -, hfail, rfl⟩ := runs_bind.mp h₃
      cases found <;> simp at hfail
  | some shape =>
      obtain ⟨_, ⟨item, form⟩, s₄, _, hcallee, h₄, rfl⟩ := runs_bind.mp h₃
      obtain ⟨name, hname, rfl, rfl⟩ := calleeOf_runs hcallee (hto₁.trans hto₂) hmarked
      have hscope := hname.passes.scope
      have hplus := hname.passes.plus
      dsimp only at h₄
      rw [hname.leaf, hname.form] at h₄
      split at h₄
      · obtain ⟨rs, hpasses, hevents, hrefers, hplain⟩ := associationCall_runs h₄ hscope
        rw [hplus] at hplain
        refine ⟨.association name rs, ?_, ?_, ⟨hname.names, ?_, ?_⟩, fun hlegacy =>
          ⟨hname.plain hlegacy, ?_⟩⟩
        · simpa [Category.call, Call.tokens] using hname.passes.trans hpasses
        · simpa [Category.events, Category.call] using hevents
        · simp only [Call.terms, List.mem_flatMap, List.mem_cons, List.not_mem_nil, or_false]
          rintro t ⟨r, hr, rfl | rfl⟩
          · exact (hrefers.2 r hr).1
          · exact (hrefers.2 r hr).2
        · rintro _ ⟨⟩
          exact hrefers.1 rfl
        · simp only [Call.terms, List.mem_flatMap, List.mem_cons, List.not_mem_nil, or_false]
          rintro t ⟨r, hr, rfl | rfl⟩
          · exact (hplain hlegacy r hr).1
          · exact (hplain hlegacy r hr).2
      · obtain ⟨_, a, s₅, _, hstate, h₅, rfl⟩ := runs_bind.mp h₄
        obtain ⟨rfl, rfl, rfl⟩ := runs_state.mp hstate
        have harity : ∀ arguments : List Phrase.Term, ∀ rest,
            s₂.ahead = .symbol .lparen ::
              (listed Phrase.Term.tokens arguments ++ Token.symbol .rparen :: rest) →
            shape.arity = arguments.length := by
          intro arguments rest hahead
          have hdrop : (s₂.tokens.drop 0).map (·.token) =
              .symbol .lparen ::
                (listed Phrase.Term.tokens arguments ++ Token.symbol .rparen :: rest) := hahead
          rw [callShape_arguments hdrop] at hshape
          exact (congrArg CallShape.arity (Option.some.inj hshape)).symm
        obtain ⟨arguments, hpasses, hevents, hrefers, hplain⟩ := plainCall_runs h₅ hscope harity
        rw [hplus] at hplain
        refine ⟨.plain name arguments, ?_, ?_, ⟨hname.names, hrefers, by simp⟩, fun hlegacy =>
          ⟨hname.plain hlegacy, hplain hlegacy⟩⟩
        · simpa [Category.call, Call.tokens] using hname.passes.trans hpasses
        · simpa [Category.events, Category.call] using hevents

/-! ## Comparisons -/

theorem symbol_of_comparison? {mark : Symbol} {operator : Comparison}
    (h : mark.comparison? = some operator) : mark = operatorSymbol operator := by
  cases mark <;> simp [Symbol.comparison?] at h <;> subst h <;> rfl

theorem comparisonAhead_runs {operator : Option Comparison}
    (h : comparisonAhead.Runs s events operator s') : events = [] ∧ s = s' := by
  obtain ⟨_, size, s₁, _, hlook, h₁, rfl⟩ := runs_bind.mp h
  obtain ⟨rfl, -, rfl, -⟩ := runs_look.mp hlook
  cases size with
  | none =>
      obtain ⟨rfl, -, rfl⟩ := runs_pure.mp h₁
      exact ⟨rfl, rfl⟩
  | some size =>
      obtain ⟨_, token, s₂, _, hpeek, h₂, rfl⟩ := runs_bind.mp h₁
      obtain ⟨rfl, -, rfl, -⟩ := runs_peekAt.mp hpeek
      split at h₂ <;>
      · obtain ⟨rfl, -, rfl⟩ := runs_pure.mp h₂
        exact ⟨rfl, rfl⟩

/-- An operator that is seen stands as far ahead as the look at the term tells. -/
theorem comparisonAhead_some {operator : Comparison}
    (h : comparisonAhead.Runs s events (some operator) s') :
    ∃ size mark, (termSize s.tokens).value = some size ∧
      s.ahead[size]? = some (.symbol mark) ∧ mark.comparison? = some operator := by
  obtain ⟨_, size, _, _, hlook, h₁, -⟩ := runs_bind.mp h
  obtain ⟨-, hsize, rfl, -⟩ := runs_look.mp hlook
  cases size with
  | none => simp at h₁
  | some size =>
      obtain ⟨_, token, _, _, hpeek, h₂, -⟩ := runs_bind.mp h₁
      obtain ⟨-, htoken, rfl, -⟩ := runs_peekAt.mp hpeek
      split at h₂
      · next mark => exact ⟨size, mark, hsize, htoken, (runs_pure.mp h₂).2.1⟩
      · simp at h₂

/-- What stands as far ahead as the look at a term tells comes next behind the term. -/
theorem head?_behind_term {u : Unit} {size : Nat} (hsize : (termSize s.tokens).value = some size)
    (h : term.Runs s events u s') : s'.ahead.head? = s.ahead[size]? := by
  obtain ⟨t, ht, -⟩ := term_runs h
  rw [termSize_term ht.passes.ahead ht.ends] at hsize
  rw [ht.passes.ahead, ← Option.some.inj hsize, List.getElem?_append_right (Nat.le_refl _),
    Nat.sub_self, List.head?_eq_getElem?]

/-- The operator that was seen is the one behind the left side. -/
theorem comparison_runs {operator : Comparison} {u : Unit} {start : State}
    (hahead : comparisonAhead.Runs start [] (some operator) s)
    (h : (comparison operator).Runs s events u s') :
    ∃ left right : Phrase.Term, Spans .clause start (.comparison operator left right) events s' := by
  obtain ⟨-, rfl⟩ := comparisonAhead_runs hahead
  obtain ⟨size, mark, hsize, hseen, hoperator⟩ := comparisonAhead_some hahead
  obtain ⟨_, hinner, rfl⟩ := runs_within.mp h
  obtain ⟨_, _, s₁, _, hleftRun, h₁, rfl⟩ := runs_bind.mp hinner
  obtain ⟨_, hterm, rfl⟩ := runs_within.mp hleftRun
  obtain ⟨left, hleft, rfl⟩ := term_runs hterm
  obtain ⟨_, t, s₂, _, htake, h₂, rfl⟩ := runs_bind.mp h₁
  obtain ⟨rfl, hmark⟩ := passes_of_take htake
  obtain ⟨_, _, s₃, _, hrequire, h₃, rfl⟩ := runs_bind.mp h₂
  obtain ⟨rfl, hplus, rfl⟩ := runs_requirePlus.mp hrequire
  obtain ⟨right, hright⟩ := yields_within term_yields _ h₃
  have htoken : t.token = .symbol (operatorSymbol operator) := by
    have hnext : s₁.ahead.head? = some t.token := by rw [hmark.ahead]; rfl
    rw [head?_behind_term hsize hterm, hseen, symbol_of_comparison? hoperator] at hnext
    exact (Option.some.inj hnext).symm
  rw [htoken] at hmark
  have hto := hleft.passes.trans hmark
  have hrefers := hright.refers
  rw [hto.scope] at hrefers
  rw [hto.plus] at hplus
  refine ⟨left, right, ?_, ?_, ⟨hleft.refers, hrefers⟩, by simp [hplus]⟩
  · simp only [Category.clause, Phrase.Clause.tokens]
    simpa [clauses, Phrase.Clause.tokens, Category.inside, Category.term] using hto.trans hright.passes
  · simp [hright.events, hto.scope, Category.events, Category.inside, Category.term,
      Category.clause, Phrase.Clause.outline, Outline.events, Outline.eventsAll]

/-! ## Clauses -/

/-- Clauses as a list of at least one. -/
theorem clauseLists_of_list {xs : List Phrase.Clause} (hne : xs ≠ []) :
    ∃ cs : Clauses, cs.tokens = listed Phrase.Clause.tokens xs ∧
      (∀ c, cs.outlines c = xs.map (Phrase.Clause.outline c)) ∧
      (∀ c, (∀ x ∈ xs, x.Refers c) → cs.Refers c) ∧ ((∀ x ∈ xs, x.IsPlain) → cs.IsPlain) := by
  induction xs with
  | nil => exact absurd rfl hne
  | cons x xs ih =>
      cases xs with
      | nil =>
          exact ⟨.last x, rfl, fun _ => rfl, fun c h => by simpa [Clauses.Refers] using h,
            fun h => by simpa [Clauses.IsPlain] using h⟩
      | cons y ys =>
          obtain ⟨cs, htokens, houtlines, hrefers, hplain⟩ := ih (by simp)
          refine ⟨.cons x cs, ?_, fun c => ?_, fun c h => ⟨?_, ?_⟩, fun h => ⟨?_, ?_⟩⟩
          · simp [Clauses.tokens, htokens, listed]
          · simp [Clauses.outlines, houtlines]
          · exact h x (by simp)
          · exact hrefers c fun z hz => h z (by simp [hz])
          · exact h x (by simp)
          · exact hplain fun z hz => h z (by simp [hz])

theorem clauses_yields_of_clause {item : Parser Unit} (h : item.Yields .clause) :
    (items item).Yields .clauses := by
  intro s events s' hitems
  obtain ⟨xs, hxs⟩ := yields_items h hitems
  obtain ⟨cs, htokens, houtlines, hrefers, hplain⟩ := clauseLists_of_list hxs.refers.1
  refine ⟨cs, ?_, ?_, hrefers _ hxs.refers.2, fun hlegacy => hplain (hxs.plain hlegacy)⟩
  · have hpasses := hxs.passes
    simp only [Category.clauses, htokens]
    exact hpasses
  · rw [hxs.events]
    simp [Category.events, Category.list, Category.clauses, Category.clause, houtlines,
      List.map_eq_flatMap]

theorem branches_yields {inner : Parser Unit} (h : inner.Yields .clauses)
    (shortCircuit : Bool) (n : Nat) :
    (branchesUpTo inner shortCircuit n).Yields (.branches shortCircuit) := by
  induction n generalizing shortCircuit with
  | zero =>
      intro s events s' hrun
      obtain ⟨x, hx⟩ := yields_within h _ hrun
      exact ⟨.last x, hx.passes, hx.events, hx.refers, hx.plain⟩
  | succ n ih =>
      intro s events s' hrun
      obtain ⟨front, _, s₁, _, hfirst, h₁, rfl⟩ := runs_bind.mp hrun
      obtain ⟨x, hx⟩ := yields_within h _ hfirst
      obtain ⟨_, token, s₂, told, hpeek, h₂, rfl⟩ := runs_bind.mp h₁
      obtain ⟨rfl, htoken, rfl, -⟩ := runs_peek.mp hpeek
      have hmore : ∀ next : Bool, token = some (.symbol (barSymbol next)) →
          (do let _ ← take?; branchesUpTo inner next n : Parser Unit).Runs s₁ told () s' →
          ∃ bs, Spans (.branches shortCircuit) s bs (front ++ ([] ++ told)) s' := by
        intro next hbar hnext
        obtain ⟨_, t, s₃, _, htake, hrest, rfl⟩ := runs_bind.mp hnext
        obtain ⟨rfl, hto⟩ := passes_of_take? htake (htoken.trans hbar)
        obtain ⟨bs, hbs⟩ := ih next hrest
        have hto := hx.passes.trans hto
        have hrefers := hbs.refers
        have hplain := hbs.plain
        rw [hto.scope] at hrefers
        rw [hto.plus] at hplain
        refine ⟨.cons x next bs, ?_, ?_, ⟨hx.refers, hrefers⟩,
          fun hlegacy => ⟨hx.plain hlegacy, hplain hlegacy⟩⟩
        · have := hto.trans hbs.passes
          simp only [Category.branches, Branches.tokens]
          simpa [Category.branches, Category.inside, Category.clauses] using this
        · simp [hx.events, hbs.events, hto.scope, Category.events, Category.inside,
            Category.clauses, Category.branches, Branches.outlines, Outline.eventsAll]
      split at h₂
      · exact hmore false rfl h₂
      · exact hmore true rfl h₂
      · obtain ⟨rfl, -, rfl⟩ := runs_pure.mp h₂
        refine ⟨.last x, hx.passes, ?_, hx.refers, hx.plain⟩
        simp only [List.append_nil]
        exact hx.events

theorem clause_yields {inner : Parser Unit} (h : inner.Yields .clauses) :
    (clause inner).Yields .clause := by
  intro s events s' hrun
  obtain ⟨_, token, s₁, told, hpeek, h₁, rfl⟩ := runs_bind.mp hrun
  obtain ⟨rfl, hhead, rfl, -⟩ := runs_peek.mp hpeek
  split at h₁
  · simp at h₁
  · obtain ⟨_, t, s₂, _, htake, h₂, rfl⟩ := runs_bind.mp h₁
    obtain ⟨rfl, hnot⟩ := passes_of_take? htake hhead
    obtain ⟨_, hinner, rfl⟩ := runs_within.mp h₂
    obtain ⟨_, _, s₃, _, hopenRun, h₃, rfl⟩ := runs_bind.mp hinner
    obtain ⟨rfl, hopen⟩ := passes_of_expect hopenRun
    obtain ⟨_, _, s₄, _, hclauses, hcloseRun, rfl⟩ := runs_bind.mp h₃
    obtain ⟨cs, hcs⟩ := h hclauses
    obtain ⟨rfl, hclose⟩ := passes_of_expect hcloseRun
    have hto := hnot.trans hopen
    have hrefers := hcs.refers
    have hplain := hcs.plain
    rw [hto.scope] at hrefers
    rw [hto.plus] at hplain
    refine ⟨.negation cs, ?_, ?_, hrefers, hplain⟩
    · have := (hto.trans hcs.passes).trans hclose
      simp only [Category.clause, Phrase.Clause.tokens]
      simpa [Category.clauses] using this
    · simp [hcs.events, hto.scope, Category.events, Category.clauses, Category.clause,
        Phrase.Clause.outline, Outline.events]
  · obtain ⟨_, t, s₂, _, htake, h₂, rfl⟩ := runs_bind.mp h₁
    obtain ⟨rfl, hopen⟩ := passes_of_take? htake hhead
    obtain ⟨_, hinner, rfl⟩ := runs_within.mp h₂
    obtain ⟨_, a, s₃, _, hstate, h₃, rfl⟩ := runs_bind.mp hinner
    obtain ⟨rfl, rfl, rfl⟩ := runs_state.mp hstate
    obtain ⟨_, _, s₄, _, hbranches, hcloseRun, rfl⟩ := runs_bind.mp h₃
    obtain ⟨bs, hbs⟩ := branches_yields h false _ hbranches
    obtain ⟨rfl, hclose⟩ := passes_of_expect hcloseRun
    have hrefers := hbs.refers
    have hplain := hbs.plain
    rw [hopen.scope] at hrefers
    rw [hopen.plus] at hplain
    refine ⟨.alternatives bs, ?_, ?_, hrefers, hplain⟩
    · have := (hopen.trans hbs.passes).trans hclose
      simp only [Category.clause, Phrase.Clause.tokens]
      simpa [Category.branches] using this
    · simp [hbs.events, hopen.scope, Category.events, Category.branches, Category.clause,
        Phrase.Clause.outline, Outline.events]
  · obtain ⟨_, operator, s₂, _, hoperator, h₂, rfl⟩ := runs_bind.mp h₁
    obtain ⟨rfl, rfl⟩ := comparisonAhead_runs hoperator
    cases operator with
    | some operator =>
        obtain ⟨left, right, hspans⟩ := comparison_runs hoperator h₂
        exact ⟨.comparison operator left right, hspans⟩
    | none =>
        obtain ⟨call, hcall⟩ := predicate_yields h₂
        exact ⟨.call call, hcall.passes, hcall.events, hcall.refers, hcall.plain⟩

theorem clausesWithin_yields (depth : Nat) : (clausesWithin depth).Yields .clauses := by
  induction depth with
  | zero => intro s events s' h; simp [clausesWithin] at h
  | succ depth ih => exact clauses_yields_of_clause (clause_yields ih)

theorem clauses_yields : Grammar.clauses.Yields .clauses := by
  intro s events s' h
  obtain ⟨_, a, s₁, _, hstate, h₁, rfl⟩ := runs_bind.mp h
  obtain ⟨rfl, rfl, rfl⟩ := runs_state.mp hstate
  exact clausesWithin_yields _ h₁

end Calls

end TopicQuery.Grammar
