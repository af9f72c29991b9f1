import TopicQuery.Proofs.Recognized.Clause

/-!
Statements that were recognized.
-/

namespace TopicQuery.Grammar

open Parser Phrase

section Statements

variable {s s' : State} {events : List Event}

/-! ## Order and extent -/

theorem unsigned_runs {what : String} {number : UInt64}
    (h : (unsigned what).Runs s events number s') :
    ∃ b : Bound, s.Passes [.atom .integer b.text] s' ∧ events = [] ∧ number = b.number ∧
      b.Reads := by
  obtain ⟨_, t, s₁, _, htake, h₁, rfl⟩ := runs_bind.mp h
  obtain ⟨rfl, hpasses⟩ := passes_of_take htake
  split at h₁
  · next value htoken =>
    split at h₁
    · next n hnumber =>
      obtain ⟨rfl, rfl, rfl⟩ := runs_pure.mp h₁
      rw [htoken] at hpasses
      exact ⟨⟨value, n⟩, hpasses, rfl, rfl, hnumber⟩
    · simp at h₁
  · simp at h₁

theorem bound_runs {word : Keyword} {what : String} {number : Option UInt64}
    (h : (bound word what).Runs s events number s') :
    ∃ b : Option Bound, s.Passes (Bound.tokens word b) s' ∧ events = [] ∧
      number = b.map Bound.number ∧ ∀ x ∈ b, x.Reads := by
  obtain ⟨_, given, s₁, _, haccept, h₁, rfl⟩ := runs_bind.mp h
  obtain ⟨rfl, hword⟩ := passes_of_accept haccept
  cases given with
  | true =>
      simp only [if_true] at hword h₁
      obtain ⟨_, n, s₂, _, hunsigned, h₂, rfl⟩ := runs_bind.mp h₁
      obtain ⟨b, hpasses, rfl, rfl, hreads⟩ := unsigned_runs hunsigned
      obtain ⟨rfl, rfl, rfl⟩ := runs_pure.mp h₂
      exact ⟨some b, hword.trans hpasses, rfl, rfl, by simpa using hreads⟩
  | false =>
      simp only [Bool.false_eq_true, if_false] at hword h₁
      obtain ⟨rfl, rfl, rfl⟩ := runs_pure.mp h₁
      exact ⟨none, hword, rfl, rfl, by simp⟩

theorem emitBound_runs {item : UInt64 → Leaf} {b : Option Bound} {u : Unit}
    (h : (emitBound item (b.map Bound.number)).Runs s events u s') :
    events = Outline.eventsAll (Bound.outlines item b) ∧ s = s' := by
  cases b with
  | none =>
      obtain ⟨rfl, -, rfl⟩ := runs_pure.mp h
      exact ⟨rfl, rfl⟩
  | some b =>
      obtain ⟨rfl, rfl⟩ := runs_emit.mp h
      exact ⟨rfl, rfl⟩

theorem extent_runs {u : Unit} (h : extent.Runs s events u s') :
    ∃ limit offset : Option Bound,
      s.Passes (Bound.tokens .limit limit ++ Bound.tokens .offset offset) s' ∧
      events = Outline.eventsAll (Tail.extentOutlines limit offset) ∧
      (∀ b ∈ limit, b.Reads) ∧ ∀ b ∈ offset, b.Reads := by
  obtain ⟨_, _, s₁, _, hlimitRun, h₁, rfl⟩ := runs_bind.mp h
  obtain ⟨limit, hlimit, rfl, rfl, hlimitReads⟩ := bound_runs hlimitRun
  obtain ⟨_, _, s₂, told, hoffsetRun, h₂, rfl⟩ := runs_bind.mp h₁
  obtain ⟨offset, hoffset, rfl, rfl, hoffsetReads⟩ := bound_runs hoffsetRun
  have htold : told = Outline.eventsAll (Tail.extentOutlines limit offset) ∧ s₂ = s' := by
    split at h₂
    · next hsome =>
      obtain ⟨_, hinner, rfl⟩ := runs_within.mp h₂
      obtain ⟨_, _, s₃, _, hemit, h₃, rfl⟩ := runs_bind.mp hinner
      obtain ⟨rfl, rfl⟩ := emitBound_runs hemit
      obtain ⟨rfl, rfl⟩ := emitBound_runs h₃
      refine ⟨?_, rfl⟩
      cases limit <;> cases offset <;> simp_all [Tail.extentOutlines, Outline.events]
    · next hnone =>
      obtain ⟨rfl, -, rfl⟩ := runs_pure.mp h₂
      refine ⟨?_, rfl⟩
      cases limit <;> cases offset <;> simp_all [Tail.extentOutlines, Outline.eventsAll]
  obtain ⟨rfl, rfl⟩ := htold
  exact ⟨limit, offset, hlimit.trans hoffset, rfl, hlimitReads, hoffsetReads⟩

theorem sortKey_yields : sortKey.Yields .sortKey := by
  intro s events s' h
  obtain ⟨_, name, s₁, _, hname, h₁, rfl⟩ := runs_bind.mp h
  obtain ⟨rfl, hvar⟩ := passes_of_takeAtom hname
  obtain ⟨_, descending, s₂, _, hdescRun, h₂, rfl⟩ := runs_bind.mp h₁
  obtain ⟨rfl, hdesc⟩ := passes_of_accept hdescRun
  cases descending with
  | true =>
      obtain ⟨rfl, rfl⟩ := runs_emit.mp h₂
      exact ⟨⟨name, .descending⟩, hvar.trans hdesc, rfl, trivial, fun _ => trivial⟩
  | false =>
      obtain ⟨_, ascending, s₃, _, hascRun, h₃, rfl⟩ := runs_bind.mp h₂
      obtain ⟨rfl, hasc⟩ := passes_of_accept hascRun
      obtain ⟨rfl, rfl⟩ := runs_emit.mp h₃
      cases ascending with
      | true =>
          exact ⟨⟨name, .ascending⟩, (hvar.trans hdesc).trans hasc, rfl, trivial, fun _ => trivial⟩
      | false =>
          exact ⟨⟨name, .bare⟩, (hvar.trans hdesc).trans hasc, rfl, trivial, fun _ => trivial⟩

theorem sorting_runs {u : Unit} (h : sorting.Runs s events u s') :
    ∃ keys : List SortKey, s.Passes (Tail.orderTokens keys) s' ∧
      events = Outline.eventsAll (Tail.orderOutlines s.setting.scope keys) := by
  obtain ⟨_, ordered, s₁, _, horderRun, h₁, rfl⟩ := runs_bind.mp h
  obtain ⟨rfl, horder⟩ := passes_of_accept horderRun
  cases ordered with
  | true =>
      simp only [if_true] at horder h₁
      obtain ⟨_, _, s₂, _, hbyRun, h₂, rfl⟩ := runs_bind.mp h₁
      obtain ⟨rfl, hby⟩ := passes_of_expect hbyRun
      obtain ⟨keys, hkeys⟩ := yields_within (yields_items sortKey_yields) _ h₂
      have hto := horder.trans hby
      obtain ⟨k, ks, rfl⟩ := List.exists_cons_of_ne_nil hkeys.refers.1
      refine ⟨k :: ks, hto.trans hkeys.passes, ?_⟩
      simp [hkeys.events, hto.scope, Category.events, Category.inside, Tail.orderOutlines]
  | false =>
      simp only [Bool.false_eq_true, if_false] at horder h₁
      obtain ⟨rfl, -, rfl⟩ := runs_pure.mp h₁
      exact ⟨[], horder, rfl⟩

theorem conditionAndTail_yields : conditionAndTail.Yields .condition := by
  intro s events s' h
  obtain ⟨_, _, s₁, _, hcondition, h₁, rfl⟩ := runs_bind.mp h
  obtain ⟨cs, hcs⟩ := yields_within clauses_yields _ hcondition
  obtain ⟨_, _, s₂, _, hsorting, hextent, rfl⟩ := runs_bind.mp h₁
  obtain ⟨keys, hkeys, rfl⟩ := sorting_runs hsorting
  obtain ⟨limit, offset, hbounds, rfl, hreads⟩ := extent_runs hextent
  refine ⟨⟨cs, ⟨keys, limit, offset⟩⟩, hcs.passes.trans (hkeys.trans hbounds), ?_,
    ⟨hcs.refers, hreads⟩, hcs.plain⟩
  simp [hcs.events, hcs.passes.scope, Category.events, Category.inside, Category.condition,
    Category.clauses, Tail.outlines, Outline.eventsAll]

theorem optionalCondition_yields : optionalCondition.Yields .optionalCondition := by
  intro s events s' h
  obtain ⟨_, isFrom, s₁, _, hfromRun, h₁, rfl⟩ := runs_bind.mp h
  obtain ⟨rfl, hfrom⟩ := passes_of_accept hfromRun
  have hsome : ∀ (isWhere : Bool) {between : State} {told : List Event},
      s.Passes [.keyword (conditionWord isWhere)] between →
      conditionAndTail.Runs between told () s' → ∃ x, Spans .optionalCondition s x told s' := by
    intro isWhere between told hword hrun
    obtain ⟨x, hx⟩ := conditionAndTail_yields hrun
    have hrefers := hx.refers
    have hplain := hx.plain
    rw [hword.scope] at hrefers
    rw [hword.plus] at hplain
    refine ⟨some (isWhere, x), hword.trans hx.passes, ?_,
      by rintro _ ⟨⟩; exact hrefers, fun hlegacy => by rintro _ ⟨⟩; exact hplain hlegacy⟩
    simp [hx.events, hword.scope, Category.events, Category.optionalCondition]
  cases isFrom with
  | true => exact hsome false hfrom h₁
  | false =>
      simp only [Bool.false_eq_true, if_false] at hfrom h₁
      obtain ⟨_, isWhere, s₂, _, hwhereRun, h₂, rfl⟩ := runs_bind.mp h₁
      obtain ⟨rfl, hwhere⟩ := passes_of_accept hwhereRun
      cases isWhere with
      | true => exact hsome true (hfrom.trans hwhere) h₂
      | false =>
          obtain ⟨rfl, -, rfl⟩ := runs_pure.mp h₂
          exact ⟨none, hfrom.trans hwhere, rfl, by simp [Category.optionalCondition],
            by simp [Category.optionalCondition]⟩

/-! ## Statements -/

theorem iriTerm_yields : iriTerm.Yields .iri := by
  intro s events s' h
  obtain ⟨_, t, s₁, _, htake, h₁, rfl⟩ := runs_bind.mp h
  obtain ⟨rfl, hto⟩ := passes_of_take htake
  split at h₁
  · next value htoken =>
    obtain ⟨rfl, rfl⟩ := runs_emit.mp h₁
    rw [htoken] at hto
    exact ⟨.atom .iri value, hto, rfl, ⟨trivial, rfl⟩, fun _ => trivial⟩
  · next name htoken =>
    obtain ⟨_, item, s₂, _, hleaf, h₂, rfl⟩ := runs_bind.mp h₁
    obtain ⟨rfl, rfl, hbinds, hmodule, rfl⟩ := qnameLeaf_runs hleaf
    obtain ⟨rfl, rfl⟩ := runs_emit.mp h₂
    rw [htoken] at hto
    rw [hto.scope] at hbinds hmodule ⊢
    exact ⟨.qname none name, hto, rfl, ⟨⟨hbinds, hmodule⟩, rfl⟩, fun _ => rfl⟩
  · simp at h₁

theorem projection_yields : projection.Yields .projection := by
  intro s events s' h
  obtain ⟨_, t, s₁, _, htake, h₁, rfl⟩ := runs_bind.mp h
  obtain ⟨rfl, hto⟩ := passes_of_take htake
  split at h₁
  · next name htoken =>
    obtain ⟨rfl, rfl⟩ := runs_emit.mp h₁
    rw [htoken] at hto
    exact ⟨.variable name, hto, rfl, trivial, fun _ => trivial⟩
  · next htoken =>
    obtain ⟨_, _, s₂, _, hopenRun, h₂, rfl⟩ := runs_bind.mp h₁
    obtain ⟨rfl, hopen⟩ := passes_of_expect hopenRun
    obtain ⟨_, name, s₃, _, hname, h₃, rfl⟩ := runs_bind.mp h₂
    obtain ⟨rfl, hvar⟩ := passes_of_takeAtom hname
    obtain ⟨_, _, s₄, _, hcloseRun, h₄, rfl⟩ := runs_bind.mp h₃
    obtain ⟨rfl, hclose⟩ := passes_of_expect hcloseRun
    obtain ⟨rfl, rfl⟩ := runs_emit.mp h₄
    rw [htoken] at hto
    exact ⟨.count name, ((hto.trans hopen).trans hvar).trans hclose, rfl, trivial,
      fun _ => trivial⟩
  · simp at h₁

theorem deletion_yields : deletion.Yields .target := by
  intro s events s' h
  obtain ⟨_, token, s₁, _, hpeek, h₁, rfl⟩ := runs_bind.mp h
  obtain ⟨rfl, htoken, rfl, -⟩ := runs_peekAt.mp hpeek
  split at h₁
  · next hlparen =>
    obtain ⟨call, hcall⟩ := predicate_yields h₁
    refine ⟨.call call, hcall.passes, hcall.events, ⟨hcall.refers, ?_⟩, hcall.plain⟩
    obtain ⟨behind, hbehind⟩ := tokens_call call
    have hahead := hcall.passes.ahead
    simp only [Category.call, hbehind, List.append_assoc, List.cons_append] at hahead
    rw [hahead] at htoken
    match hname : call.name.tokens with
    | [] => exact absurd hname call.name.tokens_ne_nil
    | [t] => exact ⟨t, hname⟩
    | t :: u :: more =>
        have hu : u = .symbol .lparen := by simpa [hname, hlparen] using htoken
        have hmem : u ∈ call.name.tokens := by simp [hname]
        exact absurd (hu ▸ inert_of_mem_term u hmem) (by simp [Inert])
  · obtain ⟨t, ht⟩ := term_yields h₁
    exact ⟨.term t, ht.passes, ht.events, ht.refers, ht.plain⟩

/-- Names are reported one after the other. -/
theorem forM_emit_runs {names : List String} {u : Unit}
    (h : (names.forM fun name => emit (.leaf (.atom .var name)) : Parser Unit).Runs s events u s') :
    events = Outline.eventsAll (names.map fun name => .leaf (.atom .var name)) ∧ s = s' := by
  induction names generalizing s events with
  | nil =>
      obtain ⟨rfl, -, rfl⟩ := runs_pure.mp h
      exact ⟨rfl, rfl⟩
  | cons name names ih =>
      change (emit (.leaf (.atom .var name)) >>= fun _ =>
        names.forM fun name => emit (.leaf (.atom .var name))).Runs s events u s' at h
      obtain ⟨_, _, s₁, _, hemit, hrest, rfl⟩ := runs_bind.mp h
      obtain ⟨rfl, rfl⟩ := runs_emit.mp hemit
      obtain ⟨rfl, rfl⟩ := ih hrest
      exact ⟨rfl, rfl⟩

/-- A statement about a change, with or without a condition. -/
theorem change_yields (change : Change) {s₁ : State} {told : List Event} {u : Unit}
    (hto : s.Passes change.tokens s₁)
    (hcondition : optionalCondition.Runs s₁ told u s')
    (hrefers : change.Refers s.setting.scope) (hplain : s.setting.plus = false → change.IsPlain)
    (hevents : events = .enter change.container ::
      (Outline.eventsAll (change.outlines s.setting.scope) ++ told ++
        [Event.leave change.container.tag])) :
    ∃ x, Spans .statement s x events s' := by
  obtain ⟨x, hx⟩ := optionalCondition_yields hcondition
  have hrefersCondition := hx.refers
  have hplainCondition := hx.plain
  rw [hto.scope] at hrefersCondition
  rw [hto.plus] at hplainCondition
  refine ⟨.change change x, hto.trans hx.passes, ?_, ⟨hrefers, hrefersCondition⟩,
    fun hlegacy => ⟨hplain hlegacy, hplainCondition hlegacy⟩⟩
  simp [hevents, hx.events, hto.scope, Category.events, Category.statement, Outline.events]

theorem select_yields {u : Unit} (h : select.Runs s events u s')
    (hhead : s.ahead.head? = some (.keyword .select)) :
    ∃ x, Spans .statement s x events s' := by
  obtain ⟨_, _, s₁, _, htake, h₁, rfl⟩ := runs_bind.mp h
  obtain ⟨rfl, hselect⟩ := passes_of_take? htake hhead
  obtain ⟨_, hinner, rfl⟩ := runs_within.mp h₁
  obtain ⟨_, _, s₂, _, hitems, h₂, rfl⟩ := runs_bind.mp hinner
  obtain ⟨projections, hprojections⟩ := yields_items projection_yields hitems
  obtain ⟨_, t, s₃, _, htakeWord, h₃, rfl⟩ := runs_bind.mp h₂
  obtain ⟨rfl, hword⟩ := passes_of_take htakeWord
  split at h₃
  · next hconditionWord =>
    obtain ⟨isWhere, hisWhere⟩ : ∃ isWhere, t.token = .keyword (conditionWord isWhere) := by
      obtain hfrom | hwhere := hconditionWord
      · exact ⟨false, hfrom⟩
      · exact ⟨true, hwhere⟩
    obtain ⟨x, hx⟩ := conditionAndTail_yields h₃
    rw [hisWhere] at hword
    have hto := hselect.trans (hprojections.passes.trans hword)
    have hrefers := hx.refers
    have hplain := hx.plain
    rw [hto.scope] at hrefers
    rw [hto.plus] at hplain
    refine ⟨.select projections isWhere x, ?_, ?_, ⟨hprojections.refers.1, hrefers⟩, hplain⟩
    · simpa [Category.statement] using hto.trans hx.passes
    · simp [hprojections.events, hx.events, hto.scope, hselect.scope, Category.events,
        Category.statement, Outline.events]
  · simp at h₃

theorem insert_yields {u : Unit} (h : insert.Runs s events u s')
    (hhead : s.ahead.head? = some (.keyword .insert)) :
    ∃ x, Spans .statement s x events s' := by
  obtain ⟨_, _, s₁, _, htake, h₁, rfl⟩ := runs_bind.mp h
  obtain ⟨rfl, hinsert⟩ := passes_of_take? htake hhead
  obtain ⟨_, hinner, rfl⟩ := runs_within.mp h₁
  obtain ⟨_, t, s₂, _, htakeContent, h₂, rfl⟩ := runs_bind.mp hinner
  obtain ⟨rfl, hcontent⟩ := passes_of_take htakeContent
  split at h₂
  · next content htoken =>
    obtain ⟨_, _, s₃, _, hfragment, h₃, rfl⟩ := runs_bind.mp h₂
    obtain ⟨_, hmentions, rfl⟩ := runs_within.mp hfragment
    obtain ⟨_, _, s₄, _, hnames, hemit, rfl⟩ := runs_bind.mp hmentions
    obtain ⟨rfl, rfl⟩ := forM_emit_runs hnames
    obtain ⟨rfl, rfl⟩ := runs_emit.mp hemit
    rw [htoken] at hcontent
    refine change_yields (.insert content) (hinsert.trans hcontent) h₃ trivial
      (fun _ => trivial) ?_
    simp [Change.outlines, Change.contentOutline, Change.container, Outline.events,
      Outline.eventsAll]
  · obtain ⟨_, _, _, _, hfail, -⟩ := runs_bind.mp h₂
    simp at hfail

theorem update_yields {u : Unit} (h : update.Runs s events u s')
    (hhead : s.ahead.head? = some (.keyword .update)) :
    ∃ x, Spans .statement s x events s' := by
  obtain ⟨_, _, s₁, _, htake, h₁, rfl⟩ := runs_bind.mp h
  obtain ⟨rfl, hupdate⟩ := passes_of_take? htake hhead
  obtain ⟨_, hinner, rfl⟩ := runs_within.mp h₁
  obtain ⟨_, _, s₂, _, hitems, h₂, rfl⟩ := runs_bind.mp hinner
  obtain ⟨calls, hcalls⟩ := yields_items predicate_yields hitems
  have hrefers := hcalls.refers
  have hplain := hcalls.plain
  rw [hupdate.scope] at hrefers
  rw [hupdate.plus] at hplain
  refine change_yields (.update calls) (hupdate.trans hcalls.passes) h₂ hrefers hplain ?_
  simp [hcalls.events, hupdate.scope, Category.events, Change.outlines, Change.container]

theorem delete_yields {u : Unit} (h : delete.Runs s events u s')
    (hhead : s.ahead.head? = some (.keyword .delete)) :
    ∃ x, Spans .statement s x events s' := by
  obtain ⟨_, _, s₁, _, htake, h₁, rfl⟩ := runs_bind.mp h
  obtain ⟨rfl, hdelete⟩ := passes_of_take? htake hhead
  obtain ⟨_, hinner, rfl⟩ := runs_within.mp h₁
  obtain ⟨_, _, s₂, _, hitems, h₂, rfl⟩ := runs_bind.mp hinner
  obtain ⟨targets, htargets⟩ := yields_items deletion_yields hitems
  have hrefers := htargets.refers
  have hplain := htargets.plain
  rw [hdelete.scope] at hrefers
  rw [hdelete.plus] at hplain
  refine change_yields (.delete targets) (hdelete.trans htargets.passes) h₂ hrefers hplain ?_
  simp [htargets.events, hdelete.scope, Category.events, Change.outlines, Change.container]

theorem merge_yields {u : Unit} (h : merge.Runs s events u s')
    (hhead : s.ahead.head? = some (.keyword .merge)) :
    ∃ x, Spans .statement s x events s' := by
  obtain ⟨_, _, s₁, _, htake, h₁, rfl⟩ := runs_bind.mp h
  obtain ⟨rfl, hmerge⟩ := passes_of_take? htake hhead
  obtain ⟨_, hinner, rfl⟩ := runs_within.mp h₁
  obtain ⟨_, _, s₂, _, hfirstRun, h₂, rfl⟩ := runs_bind.mp hinner
  obtain ⟨first, hfirst⟩ := term_yields hfirstRun
  obtain ⟨_, _, s₃, _, hcommaRun, h₃, rfl⟩ := runs_bind.mp h₂
  obtain ⟨rfl, hcomma⟩ := passes_of_expect hcommaRun
  obtain ⟨_, _, s₄, _, hsecondRun, h₄, rfl⟩ := runs_bind.mp h₃
  obtain ⟨second, hsecond⟩ := term_yields hsecondRun
  have hto := hmerge.trans (hfirst.passes.trans hcomma)
  have hrefers := And.intro hfirst.refers hsecond.refers
  have hplain := hfirst.plain
  have hplainSecond := hsecond.plain
  rw [hmerge.scope, (hfirst.passes.trans hcomma).scope, hmerge.scope] at hrefers
  rw [hmerge.plus] at hplain
  rw [hto.plus] at hplainSecond
  refine change_yields (.merge first second) ?_ h₄ hrefers
    (fun hlegacy => ⟨hplain hlegacy, hplainSecond hlegacy⟩) ?_
  · simpa [Change.tokens, Category.term] using hto.trans hsecond.passes
  · simp [hfirst.events, hsecond.events, hmerge.scope, hto.scope, Category.events, Category.term,
      Change.outlines, Change.container, Outline.eventsAll]

theorem load_yields {u : Unit} (h : load.Runs s events u s')
    (hhead : s.ahead.head? = some (.keyword .load)) :
    ∃ x, Spans .statement s x events s' := by
  obtain ⟨_, t, s₁, _, htake, h₁, rfl⟩ := runs_bind.mp h
  obtain ⟨rfl, hload⟩ := passes_of_take htake
  have htoken : t.token = .keyword .load := by simpa [hload.ahead] using hhead
  obtain ⟨_, _, s₂, _, hrequire, h₂, rfl⟩ := runs_bind.mp h₁
  obtain ⟨rfl, hplus, rfl⟩ := runs_requirePlus.mp hrequire
  obtain ⟨_, hinner, rfl⟩ := runs_within.mp h₂
  obtain ⟨_, _, s₃, _, hsourceRun, h₃, rfl⟩ := runs_bind.mp hinner
  obtain ⟨source, hsource⟩ := iriTerm_yields hsourceRun
  obtain ⟨_, into, s₄, _, hintoRun, h₄, rfl⟩ := runs_bind.mp h₃
  obtain ⟨rfl, hinto⟩ := passes_of_accept hintoRun
  rw [htoken] at hload
  rw [hload.plus] at hplus
  have hrefers := hsource.refers
  rw [hload.scope] at hrefers
  have hto := hload.trans (hsource.passes.trans hinto)
  cases into with
  | true =>
      obtain ⟨targets, htargets⟩ := yields_within (yields_items iriTerm_yields) _ h₄
      have htargetsRefer := htargets.refers
      rw [hto.scope] at htargetsRefer
      obtain ⟨x, xs, rfl⟩ := List.exists_cons_of_ne_nil htargetsRefer.1
      refine ⟨.load source (x :: xs), ?_, ?_, ⟨hrefers, htargetsRefer.2⟩, by simp [hplus]⟩
      · simpa [Category.statement, Category.intoTokens, Category.iri, Category.inside] using
          hto.trans htargets.passes
      · simp [hsource.events, htargets.events, hload.scope, hto.scope, Category.events,
          Category.statement, Category.intoOutlines, Category.inside, Outline.events]
  | false =>
      obtain ⟨rfl, -, rfl⟩ := runs_pure.mp h₄
      refine ⟨.load source [], ?_, ?_, ⟨hrefers, by simp⟩, by simp [hplus]⟩
      · simpa [Category.statement, Category.intoTokens, Category.iri] using hto
      · simp [hsource.events, hload.scope, Category.events, Category.statement,
          Category.intoOutlines, Outline.events]

theorem singleIri_runs {what : String} {container : Container} {token : Token} {u : Unit}
    (h : (singleIri what container).Runs s events u s') (hhead : s.ahead.head? = some token) :
    ∃ source : Phrase.Term, s.Passes (token :: source.tokens) s' ∧
      events =
        (Outline.within container (Category.iri.outlines s.setting.scope source)).events ∧
      Category.iri.Refers s.setting.scope source ∧ s.setting.plus = true := by
  obtain ⟨_, t, s₁, _, htake, h₁, rfl⟩ := runs_bind.mp h
  obtain ⟨rfl, hto⟩ := passes_of_take htake
  have htoken : t.token = token := by simpa [hto.ahead] using hhead
  obtain ⟨_, _, s₂, _, hrequire, h₂, rfl⟩ := runs_bind.mp h₁
  obtain ⟨rfl, hplus, rfl⟩ := runs_requirePlus.mp hrequire
  obtain ⟨_, hinner, rfl⟩ := runs_within.mp h₂
  obtain ⟨source, hsource⟩ := iriTerm_yields hinner
  have hrefers := hsource.refers
  rw [htoken] at hto
  rw [hto.scope] at hrefers
  rw [hto.plus] at hplus
  refine ⟨source, hto.trans hsource.passes, ?_, hrefers, hplus⟩
  simp [hsource.events, hto.scope, Category.events, Outline.events]

theorem statement_yields : statement.Yields .statement := by
  intro s events s' h
  obtain ⟨_, token, s₁, told, hpeek, h₁, rfl⟩ := runs_bind.mp h
  obtain ⟨rfl, hhead, rfl, -⟩ := runs_peek.mp hpeek
  rw [List.nil_append]
  split at h₁
  · exact select_yields h₁ hhead
  · exact insert_yields h₁ hhead
  · exact update_yields h₁ hhead
  · exact delete_yields h₁ hhead
  · exact merge_yields h₁ hhead
  · exact load_yields h₁ hhead
  · obtain ⟨source, hpasses, hevents, hrefers, hplus⟩ := singleIri_runs h₁ hhead
    exact ⟨.drop source, hpasses, by simpa [Category.events, Category.statement] using hevents,
      hrefers, by simp [hplus]⟩
  · obtain ⟨source, hpasses, hevents, hrefers, hplus⟩ := singleIri_runs h₁ hhead
    exact ⟨.create source, hpasses, by simpa [Category.events, Category.statement] using hevents,
      hrefers, by simp [hplus]⟩
  · obtain ⟨_, hinner, rfl⟩ := runs_within.mp h₁
    obtain ⟨x, hx⟩ := conditionAndTail_yields hinner
    refine ⟨.bare x, hx.passes, ?_, hx.refers, hx.plain⟩
    simp [hx.events, Category.events, Category.statement, Outline.events]

end Statements

end TopicQuery.Grammar
