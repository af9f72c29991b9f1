import TopicQuery.Proofs.Phrase.Document

/-!
What was recognized is a phrase. Whenever a recognizer of the grammar succeeds,
the tokens it took are those of a phrase that the setting admits, and the events
it reported are those of the outline of the phrase.
-/

namespace TopicQuery.Grammar

open Parser Phrase

namespace State.Passes

variable {s s' : State} {ts : List Token}

theorem scope (h : s.Passes ts s') : s'.setting.scope = s.setting.scope := by rw [h.setting]

theorem plus (h : s.Passes ts s') : s'.setting.plus = s.setting.plus := by rw [h.setting]

end State.Passes

section Steps

variable {s s' : State} {events : List Event}

theorem passes_of_take {what : String} {t : PlacedToken}
    (h : (take what).Runs s events t s') : events = [] ∧ s.Passes [t.token] s' := by
  obtain ⟨rfl, rest, htokens, rfl⟩ := runs_take.mp h
  exact ⟨rfl, State.passes_behind htokens⟩

theorem passes_of_take? {token : Token} {t : Option PlacedToken}
    (h : take?.Runs s events t s') (hhead : s.ahead.head? = some token) :
    events = [] ∧ s.Passes [token] s' := by
  obtain ⟨rfl, ⟨-, htokens, -⟩ | ⟨first, rest, -, htokens, rfl⟩⟩ := runs_take?.mp h
  · simp [State.ahead, htokens] at hhead
  · obtain rfl : first.token = token := by simpa [State.ahead, htokens] using hhead
    exact ⟨rfl, State.passes_behind htokens⟩

theorem passes_of_expect {token : Token} {u : Unit} (h : (expect token).Runs s events u s') :
    events = [] ∧ s.Passes [token] s' := by
  obtain ⟨rfl, t, rest, htokens, rfl, rfl⟩ := runs_expect.mp h
  exact ⟨rfl, State.passes_behind htokens⟩

theorem passes_of_accept {token : Token} {taken : Bool}
    (h : (accept token).Runs s events taken s') :
    events = [] ∧ s.Passes (if taken then [token] else []) s' := by
  obtain ⟨rfl, ⟨rfl, t, rest, htokens, rfl, rfl⟩ | ⟨rfl, -, -, rfl⟩⟩ := runs_accept.mp h
  · exact ⟨rfl, State.passes_behind htokens⟩
  · exact ⟨rfl, State.Passes.refl s⟩

theorem passes_of_takeAtom {kind : AtomKind} {what : String} {value : String}
    (h : (takeAtom kind what).Runs s events value s') :
    events = [] ∧ s.Passes [.atom kind value] s' := by
  obtain ⟨_, t, between, _, htake, h₁, rfl⟩ := runs_bind.mp h
  obtain ⟨rfl, hpasses⟩ := passes_of_take htake
  split at h₁
  · next k v htoken =>
    split at h₁
    · next hkind =>
      obtain ⟨rfl, rfl, rfl⟩ := runs_pure.mp h₁
      rw [htoken, hkind] at hpasses
      exact ⟨rfl, hpasses⟩
    · simp at h₁
  · simp at h₁

theorem runs_requirePlus {t : PlacedToken} {what : String} {u : Unit} :
    (requirePlus t what).Runs s events u s' ↔
      events = [] ∧ s.setting.plus = true ∧ s = s' := by
  unfold requirePlus
  simp only [runs_bind, runs_state]
  constructor
  · rintro ⟨_, _, _, _, ⟨rfl, rfl, rfl⟩, h, rfl⟩
    split at h
    · next hplus =>
      obtain ⟨rfl, -, rfl⟩ := runs_pure.mp h
      exact ⟨rfl, hplus, rfl⟩
    · simp at h
  · rintro ⟨rfl, hplus, rfl⟩
    have hplus : s.plus = true := hplus
    exact ⟨[], s, s, [], ⟨rfl, rfl, rfl⟩, by simp [hplus], rfl⟩

theorem runs_kindOf {t : PlacedToken} {qualifier : String} {kind : ReferenceKind} :
    (kindOf t qualifier).Runs s events kind s' ↔
      events = [] ∧ s.setting.scope.kind? qualifier = some kind ∧ s = s' := by
  unfold kindOf
  simp only [runs_bind, runs_state, Scope.kind?, Option.map_eq_some_iff]
  constructor
  · rintro ⟨_, _, _, _, ⟨rfl, rfl, rfl⟩, h, rfl⟩
    split at h
    · next binding hfind =>
      obtain ⟨rfl, rfl, rfl⟩ := runs_pure.mp h
      exact ⟨rfl, ⟨binding, hfind, rfl⟩, rfl⟩
    · simp at h
  · rintro ⟨rfl, ⟨binding, hfind, rfl⟩, rfl⟩
    have hfind : s.bindings.find? (·.identifier == qualifier) = some binding := hfind
    exact ⟨[], s, s, [], ⟨rfl, rfl, rfl⟩, by simp [hfind], rfl⟩

theorem kind_of_kind? {c : Scope} {qualifier : String} {kind : ReferenceKind}
    (h : c.kind? qualifier = some kind) : c.Binds qualifier ∧ c.kind qualifier = kind := by
  simp [Scope.Binds, Scope.kind, h]

/-! ## Terms -/

theorem curieLeaf_runs {t : PlacedToken} {name : QualifiedName} {marker : Option ReferenceKind}
    {item : Leaf} (h : (curieLeaf t name marker).Runs s events item s') :
    events = [] ∧ s = s' ∧ s.setting.plus = true ∧ s.setting.scope.Binds name.qualifier ∧
      item = .curie (marker.getD (bracketKind (s.setting.scope.kind name.qualifier))) name := by
  obtain ⟨_, _, _, _, hrequire, h₁, rfl⟩ := runs_bind.mp h
  obtain ⟨rfl, hplus, rfl⟩ := runs_requirePlus.mp hrequire
  obtain ⟨_, kind, _, _, hkindOf, h₂, rfl⟩ := runs_bind.mp h₁
  obtain ⟨rfl, hkind, rfl⟩ := runs_kindOf.mp hkindOf
  obtain ⟨rfl, rfl, rfl⟩ := runs_pure.mp h₂
  obtain ⟨hbinds, rfl⟩ := kind_of_kind? hkind
  exact ⟨rfl, rfl, hplus, hbinds, rfl⟩

theorem qnameLeaf_runs {t : PlacedToken} {name : QualifiedName} {marker : Option ReferenceKind}
    {item : Leaf} (h : (qnameLeaf t name marker).Runs s events item s') :
    events = [] ∧ s = s' ∧ s.setting.scope.Binds name.qualifier ∧
      s.setting.scope.kind name.qualifier ≠ .module ∧
      item = .qname (marker.getD (s.setting.scope.kind name.qualifier)) name := by
  obtain ⟨_, kind, _, _, hkindOf, h₁, rfl⟩ := runs_bind.mp h
  obtain ⟨rfl, hkind, rfl⟩ := runs_kindOf.mp hkindOf
  obtain ⟨hbinds, rfl⟩ := kind_of_kind? hkind
  split at h₁
  · simp at h₁
  · next hmodule =>
    obtain ⟨rfl, rfl, rfl⟩ := runs_pure.mp h₁
    exact ⟨rfl, rfl, hbinds, hmodule, rfl⟩

theorem datatype_runs {d : Datatype} (h : datatype.Runs s events d s') :
    events = [] ∧ s.Passes [datatypeToken d] s' ∧
      ∀ name, d = .qname name → s.setting.scope.Binds name.qualifier := by
  obtain ⟨_, t, between, _, htake, h₁, rfl⟩ := runs_bind.mp h
  obtain ⟨rfl, hpasses⟩ := passes_of_take htake
  split at h₁
  · next value htoken =>
    obtain ⟨rfl, rfl, rfl⟩ := runs_pure.mp h₁
    rw [htoken] at hpasses
    exact ⟨rfl, hpasses, by simp⟩
  · next name htoken =>
    obtain ⟨_, kind, _, _, hkindOf, h₂, rfl⟩ := runs_bind.mp h₁
    obtain ⟨rfl, hkind, rfl⟩ := runs_kindOf.mp hkindOf
    obtain ⟨rfl, rfl, rfl⟩ := runs_pure.mp h₂
    rw [htoken] at hpasses
    refine ⟨rfl, hpasses, ?_⟩
    rintro _ ⟨rfl⟩
    rw [← hpasses.scope]
    exact (kind_of_kind? hkind).1
  · simp at h₁

theorem marker_of_markedKind? {token : Token} {kind : ReferenceKind}
    (h : markedKind? token = some kind) :
    ∃ m : Marker, token = .symbol m.symbol ∧ kind = m.kind := by
  unfold markedKind? at h
  split at h
  · exact ⟨.locator, rfl, (Option.some.inj h).symm⟩
  · exact ⟨.item, rfl, (Option.some.inj h).symm⟩
  · simp at h

theorem marked_runs {m : Marker} {item : Leaf} (h : (marked m.kind).Runs s events item s') :
    ∃ t : Phrase.Term, s.Passes t.tokens.tail s' ∧ t.tokens.head? = some (.symbol m.symbol) ∧ events = [] ∧
      item = t.leaf s.setting.scope ∧ t.Refers s.setting.scope ∧ t.Ends s'.ahead := by
  obtain ⟨_, t, between, _, htake, h₁, rfl⟩ := runs_bind.mp h
  obtain ⟨rfl, hpasses⟩ := passes_of_take htake
  split at h₁
  · next value htoken =>
    obtain ⟨rfl, rfl, rfl⟩ := runs_pure.mp h₁
    rw [htoken] at hpasses
    refine ⟨.iri m value, hpasses, rfl, rfl, ?_, trivial, trivial⟩
    cases m <;> rfl
  · next name htoken =>
    obtain ⟨rfl, rfl, hbinds, hmodule, rfl⟩ := qnameLeaf_runs h₁
    rw [htoken] at hpasses
    rw [hpasses.scope] at hbinds hmodule ⊢
    exact ⟨.qname (some m) name, hpasses, rfl, rfl, rfl, ⟨hbinds, hmodule⟩, trivial⟩
  · next name htoken =>
    obtain ⟨rfl, rfl, -, hbinds, rfl⟩ := curieLeaf_runs h₁
    rw [htoken] at hpasses
    rw [hpasses.scope] at hbinds ⊢
    exact ⟨.curie (some m) name, hpasses, rfl, rfl, rfl, hbinds, trivial⟩
  · simp at h₁

/-- A term that was recognized. -/
structure TermRun (s : State) (t : Phrase.Term) (s' : State) : Prop where
  passes : s.Passes t.tokens s'
  refers : t.Refers s.setting.scope
  plain : s.setting.plus = false → t.IsPlain
  ends : t.Ends s'.ahead

theorem termLeaf_runs {first : PlacedToken} {item : Leaf} {start : State}
    (h : (termLeaf first).Runs s events item s') (hfirst : start.Passes [first.token] s) :
    ∃ t : Phrase.Term, TermRun start t s' ∧ events = [] ∧ item = t.leaf start.setting.scope := by
  unfold termLeaf at h
  split at h
  · next value htoken =>
    rw [htoken] at hfirst
    obtain ⟨_, typed, between, _, haccept, h₁, rfl⟩ := runs_bind.mp h
    obtain ⟨rfl, hmark⟩ := passes_of_accept haccept
    cases typed with
    | true =>
        simp only [if_true] at h₁ hmark
        obtain ⟨_, d, _, _, hdatatype, h₂, rfl⟩ := runs_bind.mp h₁
        obtain ⟨rfl, hpasses, hqname⟩ := datatype_runs hdatatype
        obtain ⟨rfl, rfl, rfl⟩ := runs_pure.mp h₂
        have hall := (hfirst.trans hmark).trans hpasses
        refine ⟨.literal value d, ⟨hall, ?_, fun _ => trivial, trivial⟩, rfl, rfl⟩
        cases d with
        | iri text => trivial
        | qname name =>
            have := hqname name rfl
            rwa [hmark.scope, hfirst.scope] at this
    | false =>
        simp only [Bool.false_eq_true, if_false] at h₁ hmark
        obtain ⟨rfl, rfl, rfl⟩ := runs_pure.mp h₁
        have hends : between.ahead.head? ≠ some (.symbol .hatHat) := by
          obtain ⟨-, ⟨hno, -⟩ | ⟨-, hhead, -, rfl⟩⟩ := runs_accept.mp haccept
          · simp at hno
          · exact hhead
        exact ⟨.atom .string value, ⟨hfirst.trans hmark, trivial, fun _ => trivial, hends⟩, rfl,
          rfl⟩
  · next kind value hstring htoken =>
    rw [htoken] at hfirst
    obtain ⟨rfl, rfl, rfl⟩ := runs_pure.mp h
    have hends : Phrase.Term.Ends s.ahead (.atom kind value) := by
      cases kind with
      | string => exact absurd rfl hstring
      | _ => trivial
    exact ⟨.atom kind value, ⟨hfirst, trivial, fun _ => trivial, hends⟩, rfl, rfl⟩
  · next name htoken =>
    rw [htoken] at hfirst
    obtain ⟨rfl, rfl, hbinds, hmodule, rfl⟩ := qnameLeaf_runs h
    rw [hfirst.scope] at hbinds hmodule ⊢
    exact ⟨.qname none name, ⟨hfirst, ⟨hbinds, hmodule⟩, fun _ => rfl, trivial⟩, rfl, rfl⟩
  · next name htoken =>
    rw [htoken] at hfirst
    obtain ⟨rfl, rfl, hplus, hbinds, rfl⟩ := curieLeaf_runs h
    rw [hfirst.scope] at hbinds ⊢
    rw [hfirst.plus] at hplus
    exact ⟨.curie none name, ⟨hfirst, hbinds, by simp [hplus], trivial⟩, rfl, rfl⟩
  · split at h
    · next marker hmarker =>
      obtain ⟨m, htoken, rfl⟩ := marker_of_markedKind? hmarker
      rw [htoken] at hfirst
      obtain ⟨_, _, _, _, hrequire, h₁, rfl⟩ := runs_bind.mp h
      obtain ⟨rfl, hplus, rfl⟩ := runs_requirePlus.mp hrequire
      obtain ⟨t, hpasses, hhead, rfl, rfl, hrefers, hends⟩ := marked_runs h₁
      rw [hfirst.scope] at hrefers ⊢
      rw [hfirst.plus] at hplus
      refine ⟨t, ⟨?_, hrefers, by simp [hplus], hends⟩, rfl, rfl⟩
      have hcons : t.tokens = [.symbol m.symbol] ++ t.tokens.tail := by
        cases htokens : t.tokens with
        | nil => simp [htokens] at hhead
        | cons u us => simpa [htokens] using hhead
      rw [hcons]
      exact hfirst.trans hpasses
    · simp at h

/-! ## Categories -/

/-- A phrase of a category was recognized between the two states. -/
structure Spans {α : Type} (k : Category α) (s : State) (x : α) (events : List Event)
    (s' : State) : Prop where
  passes : s.Passes (k.tokens x) s'
  events : events = k.events s.setting.scope x
  refers : k.Refers s.setting.scope x
  plain : s.setting.plus = false → k.IsPlain x

/-- Whatever the recognizer accepts is a phrase of the category. -/
def Parser.Yields {α : Type} (p : Parser Unit) (k : Category α) : Prop :=
  ∀ ⦃s events s'⦄, p.Runs s events () s' → ∃ x, Spans k s x events s'

theorem yields_within {α : Type} {p : Parser Unit} {k : Category α} (h : p.Yields k)
    (container : Container) : (within container p).Yields (k.inside container) := by
  intro s events s' hwithin
  obtain ⟨inner, hinner, rfl⟩ := runs_within.mp hwithin
  obtain ⟨x, hx⟩ := h hinner
  refine ⟨x, hx.passes, ?_, hx.refers, hx.plain⟩
  simp [Category.events, Category.inside, Outline.events, hx.events]

/-- Items are told apart by the commas between them. -/
theorem yields_items {α : Type} {item : Parser Unit} {k : Category α} (h : item.Yields k) :
    (items item).Yields k.list := by
  have hupTo : ∀ n, (itemsUpTo item n).Yields k.list := by
    intro n
    induction n with
    | zero =>
        intro s events s' hitem
        obtain ⟨x, hx⟩ := h hitem
        refine ⟨[x], hx.passes, ?_, ⟨by simp, by simpa using hx.refers⟩,
          by simpa [Category.list] using hx.plain⟩
        simp [hx.events, Category.events, Category.list]
    | succ n ih =>
        intro s events s' hitems
        obtain ⟨_, _, between, _, hitem, hrest, rfl⟩ := runs_bind.mp hitems
        obtain ⟨x, hx⟩ := h hitem
        obtain ⟨_, more, behind, _, haccept, hnext, rfl⟩ := runs_bind.mp hrest
        obtain ⟨rfl, hcomma⟩ := passes_of_accept haccept
        cases more with
        | false =>
            simp only [Bool.false_eq_true, if_false] at hcomma hnext
            obtain ⟨rfl, -, rfl⟩ := runs_pure.mp hnext
            refine ⟨[x], ?_, ?_, ⟨by simp, by simpa using hx.refers⟩,
              by simpa [Category.list] using hx.plain⟩
            · simpa [Category.list, listed] using hx.passes.trans hcomma
            · simp [hx.events, Category.events, Category.list]
        | true =>
            simp only [if_true] at hcomma hnext
            obtain ⟨xs, hxs⟩ := ih hnext
            have hto := hx.passes.trans hcomma
            have hrefers := hxs.refers
            have hplain := hxs.plain
            rw [hto.scope] at hrefers
            rw [hto.plus] at hplain
            refine ⟨x :: xs, ?_, ?_, ⟨by simp, ?_⟩, fun hlegacy => ?_⟩
            · obtain ⟨y, ys, rfl⟩ := List.exists_cons_of_ne_nil hrefers.1
              simpa [Category.list, listed] using hto.trans hxs.passes
            · simp [hx.events, hxs.events, hto.scope, Category.events, Category.list]
            · simpa using ⟨hx.refers, hrefers.2⟩
            · simpa [Category.list] using ⟨hx.plain hlegacy, hplain hlegacy⟩
  intro s events s' hitems
  obtain ⟨_, _, _, _, hstate, hrest, rfl⟩ := runs_bind.mp hitems
  obtain ⟨rfl, rfl, rfl⟩ := runs_state.mp hstate
  exact hupTo _ hrest

theorem term_runs {u : Unit} (h : term.Runs s events u s') :
    ∃ t : Phrase.Term, TermRun s t s' ∧ events = [.leaf (t.leaf s.setting.scope)] := by
  obtain ⟨_, first, between, _, htake, h₁, rfl⟩ := runs_bind.mp h
  obtain ⟨rfl, hfirst⟩ := passes_of_take htake
  obtain ⟨_, item, _, _, hleaf, h₂, rfl⟩ := runs_bind.mp h₁
  obtain ⟨t, ht, rfl, rfl⟩ := termLeaf_runs hleaf hfirst
  obtain ⟨rfl, rfl⟩ := runs_emit.mp h₂
  exact ⟨t, ht, rfl⟩

theorem term_yields : term.Yields .term := by
  intro s events s' h
  obtain ⟨t, ht, rfl⟩ := term_runs h
  exact ⟨t, ht.passes, rfl, ht.refers, ht.plain⟩

end Steps

end TopicQuery.Grammar
