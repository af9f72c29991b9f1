import TopicQuery.Proofs.References.Document

/-!
Prefixes of a text. Its events bind every prefix once and in front of everything but the
base, and use it only behind its binding. Which kind of reference a prefixed name is
reported as can be read off the tokens: it is the kind of the mark in front of the name,
or else the kind that its prefix was bound with. All of this holds of the events in front
of a mistake as well.
-/

namespace TopicQuery

open Grammar Phrase

/-! ## Prefixes among events -/

/-- The prefix that an event binds. -/
def Event.binding? : Event → Option Prefixed
  | .leaf (.binding identifier iri kind) => some ⟨identifier, iri, kind⟩
  | _ => none

/-- The prefixes that events bind, in order. -/
def boundPrefixes (events : List Event) : List Prefixed := events.filterMap Event.binding?

/-- The event opens a text, names its base or binds a prefix. -/
def Event.IsHeader : Event → Prop
  | .enter .document => True
  | .leaf (.base _) => True
  | .leaf (.binding _ _ _) => True
  | _ => False

/-- What the events of a text with these tokens say of its base and its prefixes. -/
structure KeepsPrefixes (tokens : List Token) (events : List Event) : Prop where
  /-- The base is named directly behind the start. -/
  base : ∀ before iri after, events = before ++ .leaf (.base iri) :: after → before = [.start]
  /-- Prefixes are bound in front of rules and statements. -/
  header : ∀ before identifier iri kind after,
    events = before ++ .leaf (.binding identifier iri kind) :: after → ∀ e ∈ before, e.IsHeader
  /-- Every prefix is bound once. -/
  distinct : ((boundPrefixes events).map Prefixed.identifier).Nodup
  /-- A prefix is used behind its binding. -/
  bound : ∀ before e after r, events = before ++ e :: after → e.reference? = some r →
    r.name.qualifier ∈ (boundPrefixes before).map Prefixed.identifier
  /-- A module is referred to by the name of a predicate, with a prefix bound to a module. -/
  module : ∀ before name after, events = before ++ .leaf (.qname .module name) :: after →
    before.getLast? = some (.enter .callee) ∧
      ∃ iri, ⟨name.qualifier, iri, .module⟩ ∈ boundPrefixes before
  /-- The references reported are the first of those that the tokens behind the directives are. -/
  written : references events = [] ∨ ∃ (ds : List Directive) (body : List Token),
    tokens = ds.flatMap Directive.tokens ++ body ∧ EndsDirectives body ∧
      references events <+: Before.nothing.named ⟨[], boundPrefixes events⟩ body

/-! ## Kinds of prefixes -/

/-- A scope in which prefixes are bound to the same kinds names the same references. -/
theorem Before.named_congr {c c' : Scope} (h : ∀ qualifier, c.kind qualifier = c'.kind qualifier)
    (b : Before) (ts : List Token) : b.named c ts = b.named c' ts := by
  induction ts generalizing b with
  | nil => rfl
  | cons t ts ih =>
      have hfirst : b.reference? c t = b.reference? c' t := by
        cases t <;> simp [Before.reference?, h]
      rw [Before.named, Before.named, hfirst, ih]

/-! ## Headers -/

section Header

variable {base : Option String} {bs : List Prefixed} {events before after : List Event}

theorem boundPrefixes_append (es fs : List Event) :
    boundPrefixes (es ++ fs) = boundPrefixes es ++ boundPrefixes fs := List.filterMap_append

theorem boundPrefixes_header : boundPrefixes (headerEvents base bs) = bs := by
  have hbindings : ∀ bs : List Prefixed,
      boundPrefixes ((bs.map Directive.bindingLeaf).map .leaf) = bs := by
    intro bs
    induction bs with
    | nil => rfl
    | cons b bs ih => simpa [boundPrefixes, Event.binding?, Directive.bindingLeaf] using ih
  cases base with
  | none => exact hbindings bs
  | some iri => exact hbindings bs

theorem isHeader_of_mem {e : Event} (he : e ∈ headerEvents base bs) : e.IsHeader := by
  obtain ⟨iri, rfl⟩ | ⟨b, -, rfl⟩ := mem_headerEvents he
  · trivial
  · trivial

theorem reference?_of_mem {e : Event} (he : e ∈ headerEvents base bs) : e.reference? = none := by
  obtain ⟨iri, rfl⟩ | ⟨b, -, rfl⟩ := mem_headerEvents he
  · rfl
  · rfl

/-- Only the first event of a header names a base. -/
theorem before_base {iri : String}
    (h : headerEvents base bs = before ++ .leaf (.base iri) :: after) : before = [] := by
  have hbindings : .leaf (.base iri) ∉ (bs.map Directive.bindingLeaf).map Event.leaf := by
    simp [Directive.bindingLeaf]
  cases before with
  | nil => rfl
  | cons e before =>
      refine absurd ?_ hbindings
      cases base with
      | none =>
          rw [headerEvents, Option.toList_none, List.map_nil, List.nil_append] at h
          simp [h]
      | some iri =>
          rw [headerEvents, Option.toList_some, List.map_singleton, List.singleton_append,
            List.map_cons, List.cons_append] at h
          simp [(List.cons.inj h).2]

/-- A prefix is bound to the same kind by bindings in the opposite order. -/
theorem kind?_reverse {rules rules' : List String} (h : Directive.Distinct bs) (qualifier : String) :
    Scope.kind? ⟨rules, bs.reverse⟩ qualifier = Scope.kind? ⟨rules', bs⟩ qualifier :=
  congrArg (Option.map Prefixed.kind) (Directive.find?_reverse h qualifier)

theorem exists_of_binds {c : Scope} {qualifier : String} (h : c.Binds qualifier) :
    ∃ iri, ⟨qualifier, iri, c.kind qualifier⟩ ∈ c.bindings := by
  obtain ⟨kind, hkind⟩ := Option.isSome_iff_exists.mp h
  obtain ⟨⟨identifier, iri, kind⟩, hfound, rfl⟩ := Option.map_eq_some_iff.mp hkind
  obtain rfl : identifier = qualifier := by simpa using List.find?_some hfound
  refine ⟨iri, ?_⟩
  rw [Scope.kind, hkind]
  exact List.mem_of_find?_eq_some hfound

theorem boundPrefixes_start :
    boundPrefixes (.start :: (headerEvents base bs ++ events)) = bs ++ boundPrefixes events := by
  change boundPrefixes (headerEvents base bs ++ events) = _
  rw [boundPrefixes_append, boundPrefixes_header]

theorem references_start :
    references (.start :: (headerEvents base bs ++ events)) = references events := by
  have hheader : references (headerEvents base bs) = [] :=
    List.filterMap_eq_nil_iff.mpr fun _ => reference?_of_mem
  change references (headerEvents base bs ++ events) = _
  rw [references_append, hheader, List.nil_append]

end Header

/-! ## Behind a header -/

namespace Headed

variable {tokens : List Token} {bs : List Prefixed} {events before after : List Event}

theorem boundPrefixes_behind (h : Headed tokens bs events) : boundPrefixes events = [] := by
  refine List.filterMap_eq_nil_iff.mpr fun e he => ?_
  cases e with
  | leaf item =>
      cases item with
      | binding identifier iri kind =>
          exact absurd he (h.allowed.not_header.2 identifier iri kind)
      | _ => rfl
  | _ => rfl

theorem exists_bound (h : Headed tokens bs events) {e : Event} (he : e ∈ events) {r : Reference}
    (hr : e.reference? = some r) :
    ∃ iri, ⟨r.name.qualifier, iri, Scope.kind ⟨definedRules tokens, bs.reverse⟩ r.name.qualifier⟩ ∈
      bs := by
  obtain ⟨iri, hmem⟩ := exists_of_binds (h.allowed.binds he hr)
  exact ⟨iri, List.mem_reverse.mp hmem⟩

/-- Which kinds the references are of can be told by the bindings in their order. -/
theorem written_bound (h : Headed tokens bs events) :
    references events = [] ∨ ∃ (ds : List Directive) (body : List Token),
      tokens = ds.flatMap Directive.tokens ++ body ∧ EndsDirectives body ∧
        references events <+: Before.nothing.named ⟨[], bs⟩ body := by
  refine h.written.imp id fun ⟨ds, body, htokens, hends, hprefix⟩ => ⟨ds, body, htokens, hends, ?_⟩
  have hkinds : ∀ qualifier, Scope.kind ⟨definedRules tokens, bs.reverse⟩ qualifier =
      Scope.kind ⟨[], bs⟩ qualifier := fun qualifier => by
    rw [Scope.kind, Scope.kind, kind?_reverse h.distinct]
  rwa [Before.named_congr hkinds] at hprefix

/-- A header and what is allowed behind it keep to the prefixes of the header. -/
theorem keepsPrefixes (h : Headed tokens bs events) (base : Option String) :
    KeepsPrefixes tokens (.start :: (headerEvents base bs ++ events)) := by
  have hbound : boundPrefixes (.start :: (headerEvents base bs ++ events)) = bs := by
    rw [boundPrefixes_start, h.boundPrefixes_behind, List.append_nil]
  have hmem : ∀ {all front after : List Event} {e : Event}, all = front ++ e :: after → e ∈ all := by
    rintro all front after e rfl
    simp
  refine ⟨?_, ?_, ?_, ?_, ?_, ?_⟩
  · intro before iri after hevents
    obtain ⟨-, hstart⟩ | ⟨front, rfl, ⟨more, hmore⟩ | ⟨behind, -, hbehind⟩⟩ := behind_start hevents
    · cases hstart
    · rw [before_base hmore]
    · exact absurd (hmem hbehind) (h.allowed.not_header.1 iri)
  · intro before identifier iri kind after hevents
    obtain ⟨-, hstart⟩ | ⟨front, rfl, ⟨more, hmore⟩ | ⟨behind, -, hbehind⟩⟩ := behind_start hevents
    · cases hstart
    · intro e he
      obtain rfl | he := List.mem_cons.mp he
      · trivial
      · exact isHeader_of_mem (hmore ▸ List.mem_append_left _ he)
    · exact absurd (hmem hbehind) (h.allowed.not_header.2 identifier iri kind)
  · rw [hbound]
    exact h.distinct
  · intro before e after r hevents hr
    obtain ⟨-, rfl⟩ | ⟨front, rfl, ⟨more, hmore⟩ | ⟨behind, rfl, hbehind⟩⟩ := behind_start hevents
    · cases hr
    · rw [reference?_of_mem (hmem hmore)] at hr
      cases hr
    · obtain ⟨iri, hb⟩ := h.exists_bound (hmem hbehind) hr
      rw [boundPrefixes_start, List.map_append]
      exact List.mem_append_left _ (List.mem_map_of_mem hb)
  · intro before name after hevents
    obtain ⟨-, hstart⟩ | ⟨front, rfl, ⟨more, hmore⟩ | ⟨behind, rfl, hbehind⟩⟩ := behind_start hevents
    · cases hstart
    · cases reference?_of_mem (hmem hmore)
    · obtain ⟨hlast, hkind⟩ := h.allowed.module hbehind
      obtain ⟨iri, hb⟩ := h.exists_bound (hmem hbehind) (r := .qname .module name) rfl
      rw [Reference.name, hkind] at hb
      refine ⟨?_, iri, ?_⟩
      · rw [List.getLast?_cons, List.getLast?_append, hlast]
        rfl
      · rw [boundPrefixes_start]
        exact List.mem_append_left _ hb
  · rw [references_start, hbound]
    exact h.written_bound

end Headed

/--
The events of a text keep to the prefixes that it binds, in either dialect and with or
without a mistake in it.
-/
theorem parse_keepsPrefixes (text : String) (plus : Bool) :
    KeepsPrefixes ((scan text).tokens.map (·.token)) (parse text plus).events := by
  obtain ⟨base, bs, events, hevents, hheaded⟩ := parse_headed text plus
  rw [hevents]
  exact hheaded.keepsPrefixes base

end TopicQuery
