import TopicQuery.Proofs.Built.Document

/-!
The builder and the texts that are parsed. For such a text the builder, which keeps a
frame for every open container and filters what is in it by kinds, finishes with the
query that the outline of the text is translated into. It fails only if an IRI is not
resolved, a prefixed name not expanded, or a parameter of a rule repeated or unused: every
prefix in such a text is bound and every number is one, so nothing else keeps its terms from
being read.
-/

namespace TopicQuery

open Outline Grammar

/-! ## Prefixes and bindings -/

namespace Builder

/-- The binding is that of a prefix, with its IRI resolved against a base. -/
structure Resolves (f : Factory) (base : Iri) (p : Prefixed) (found : Binding) : Prop where
  identifier : found.identifier = p.identifier
  iri : f.resolveIri base p.iri = .ok found.iri

theorem resolves_of_resolved {f : Factory} {base : Iri} {p : Prefixed} {found : Binding}
    (h : resolved f base p = .ok found) : Resolves f base p found := by
  rw [resolved] at h
  cases hiri : f.resolveIri base p.iri with
  | error failure =>
      rw [hiri] at h
      cases h
  | ok iri =>
      rw [hiri] at h
      obtain rfl := Except.ok.inj h
      exact ⟨rfl, hiri⟩

/-- Prefixes and their bindings are found under the same identifiers. -/
theorem find?_resolves {f : Factory} {base : Iri} {ps : List Prefixed} {bs : List Binding}
    (h : List.Forall₂ (Resolves f base) ps bs) (qualifier : String) :
    Option.Rel (Resolves f base) (ps.find? (·.identifier == qualifier))
      (bs.find? (·.identifier == qualifier)) := by
  induction h with
  | nil => exact .none
  | @cons p found ps bs hfirst _ ih =>
      rw [List.find?_cons, List.find?_cons, hfirst.identifier]
      cases p.identifier == qualifier with
      | true => exact .some hfirst
      | false => exact ih

end Builder

namespace Phrase.Document

variable {f : Factory} {b : Builder} {document : Iri} {c : Setting} {d : Document}

/-- What the reader of a text knows. -/
structure IsReader (f : Factory) (document : Iri) (c : Setting) (d : Document) (b : Builder) :
    Prop where
  based : d.based f document = .ok b.base
  bindings : List.Forall₂ (Builder.Resolves f b.base) (d.prefixes c) b.bindings
  bound : b.prefixes = b.bindings.reverse

theorem isReader (h : d.reader f document c = .ok b) : d.IsReader f document c b := by
  rw [reader] at h
  obtain ⟨base, hbased, h⟩ := ok_of_bind h
  obtain ⟨bindings, hbindings, h⟩ := ok_of_bind h
  cases h
  exact ⟨hbased, (mapM_eq_ok_iff.mp hbindings).imp fun _ _ => Builder.resolves_of_resolved, rfl⟩

/-- Prefixes are bound as the text binds them. -/
theorem IsReader.find? (h : d.IsReader f document c b) (qualifier : String) :
    Option.Rel (Builder.Resolves f b.base)
      ((d.settled c).bindings.find? (·.identifier == qualifier))
      (b.prefixes.find? (·.identifier == qualifier)) := by
  have hall := List.forall₂_reverse_iff.mpr h.bindings
  rw [← h.bound, prefixes, List.reverse_reverse] at hall
  exact Builder.find?_resolves hall qualifier

/-- A prefix that is bound in the text is bound for its reader. -/
theorem IsReader.exists_binding (h : d.IsReader f document c b) {qualifier : String}
    (hbinds : (d.settled c).scope.Binds qualifier) :
    ∃ found, b.binding qualifier = .ok found := by
  have hfind := h.find? qualifier
  rw [Scope.Binds, Scope.kind?, Option.isSome_map, Option.isSome_iff_exists] at hbinds
  obtain ⟨p, hp⟩ := hbinds
  rw [Setting.scope_bindings] at hp
  rw [hp] at hfind
  cases hfound : b.prefixes.find? (·.identifier == qualifier) with
  | none =>
      rw [hfound] at hfind
      cases hfind
  | some found => exact ⟨found, by rw [Builder.binding, hfound]⟩

/-- The binding of a prefix is the one that the text declares for it. -/
theorem IsReader.binding_iff (h : d.IsReader f document c b) (hfits : d.Fits c) (hc : Fresh c)
    {qualifier : String} {iri : Iri} :
    (∃ found, b.binding qualifier = .ok found ∧ found.iri = iri) ↔
      ∃ p ∈ d.prefixes c, p.identifier = qualifier ∧ f.resolveIri b.base p.iri = .ok iri := by
  have hfind := h.find? qualifier
  constructor
  · rintro ⟨found, hfound, rfl⟩
    rw [Builder.binding] at hfound
    split at hfound
    · next other hother =>
      obtain rfl := Except.ok.inj hfound
      rw [hother] at hfind
      cases hp : (d.settled c).bindings.find? (·.identifier == qualifier) with
      | none =>
          rw [hp] at hfind
          cases hfind
      | some p =>
          rw [hp] at hfind
          obtain ⟨hresolves⟩ := hfind
          have hidentifier : p.identifier = qualifier := by simpa using List.find?_some hp
          exact ⟨p, List.mem_reverse.mpr (List.mem_of_find?_eq_some hp), hidentifier, hresolves.iri⟩
    · cases hfound
  · rintro ⟨p, hp, rfl, hiri⟩
    -- a prefix is bound once, so what is found under its identifier is its own binding
    have hdistinct := distinct_prefixes hfits hc
    rw [prefixes, List.reverse_reverse] at hdistinct
    rw [(Directive.find?_eq_some_iff hdistinct).mpr ⟨List.mem_reverse.mp hp, rfl⟩] at hfind
    cases hfound : b.prefixes.find? (·.identifier == p.identifier) with
    | none =>
        rw [hfound] at hfind
        cases hfind
    | some found =>
        rw [hfound] at hfind
        obtain ⟨hresolves⟩ := hfind
        refine ⟨found, by rw [Builder.binding, hfound], ?_⟩
        exact Except.ok.inj (hresolves.iri.symm.trans hiri)

end Phrase.Document

/-! ## Why terms of a text are not read -/

namespace Phrase

variable {f : Factory} {b : Builder} {document : Iri} {c : Setting} {d : Document}

/-- A leaf that is read alike in every text has no IRI and no prefixed name in it. -/
theorem unread_sure (hf : f.IsUsual) {item : Leaf} (hitem : item.IsSure) (failure : Failure) :
    b.Unread f item failure ↔ b.operand f item = .error failure := by
  have hnone : item.iri? = none ∧ item.expanded? = none := by
    cases item with
    | atom kind value => cases kind <;> first | exact absurd hitem id | exact ⟨rfl, rfl⟩
    | _ => first | exact absurd hitem id | exact ⟨rfl, rfl⟩
  have hread : ∃ x, b.operand f item = .ok x := by
    obtain ⟨createIri, resolveIri, internal, rule, rfl⟩ := hf
    cases item with
    | atom kind value => cases kind <;> first | exact absurd hitem id | exact ⟨_, rfl⟩
    | _ => first | exact absurd hitem id | exact ⟨_, rfl⟩
  obtain ⟨x, hx⟩ := hread
  simp [Builder.Unread, hnone, hx]

/-- A number among the tokens of a text is read, if the length of the text fits a machine word. -/
theorem IsDocument.numeral {plus : Bool} {text : String} (h : IsDocument plus text d)
    (hlength : text.length < 2 ^ 63) {kind : AtomKind} {value : String}
    (hmem : .atom kind value ∈ d.tokens) : Numeral kind value := by
  have hwritten : (Token.atom kind value).written.length ≤ text.length := by
    rw [← h.tokens] at hmem
    obtain ⟨placed, hplaced, heq⟩ := List.mem_map.mp hmem
    rw [← heq]
    exact (Scan.possible_of_mem hplaced).2
  have hproper := h.proper _ hmem
  cases kind with
  | integer => exact numeral_of_proper hproper (hwritten.trans_lt hlength)
  | decimal => exact numeral_of_proper hproper (hwritten.trans_lt hlength)
  | _ => trivial

theorem Term.hasNumeral {sc : Scope} {t : Term}
    (h : ∀ kind value, .atom kind value ∈ t.tokens → Numeral kind value) :
    (t.leaf sc).HasNumeral := by
  cases t with
  | atom kind value => exact h kind value List.mem_cons_self
  | iri marker value => cases marker <;> trivial
  | _ => trivial

/-- The prefix of a term that refers to something, or names a predicate, is bound. -/
theorem Term.binds {sc : Scope} {t : Term} (h : t.Refers sc ∨ t.Names sc) {qualifier : String}
    (hqualifier : (t.leaf sc).qualifier? = some qualifier) : sc.Binds qualifier := by
  cases t with
  | atom kind value => cases hqualifier
  | iri marker value => cases hqualifier
  | literal value datatype =>
      cases datatype with
      | iri iri => cases hqualifier
      | qname name =>
          obtain rfl := Option.some.inj hqualifier
          exact h.elim id fun h => absurd h id
  | qname marker name =>
      obtain rfl := Option.some.inj hqualifier
      exact h.elim And.left And.left
  | curie marker name =>
      obtain rfl := Option.some.inj hqualifier
      exact h.elim id id

/-- Only IRIs that are not resolved or not expanded keep the terms of a text from being read. -/
theorem IsDocument.explains {plus : Bool} {text : String} (h : IsDocument plus text d)
    (hlength : text.length < 2 ^ 63) (hf : f.IsUsual)
    (hreader : d.IsReader f document (settingOf plus text) b) :
    Explains f b (b.Unread f) (d.settled (settingOf plus text)).scope d.tokens := by
  rintro item (hsure | ⟨t, rfl, ht, htokens⟩) failure
  · exact unread_sure hf hsure failure
  · refine Builder.unread_iff (isTerm_term t) ?_ (fun qualifier hqualifier => ?_) failure
    · exact Term.hasNumeral fun kind value hmem => h.numeral hlength (htokens hmem)
    · exact hreader.exists_binding (Term.binds ht hqualifier)

end Phrase

/-! ## Flaws of an outline -/

namespace Outline

/-- The base of what lies in a document: the one declared, resolved against that of the document. -/
def IsBase (resolveIri : Iri → String → Except Failure Iri) (document : Iri)
    (inner : List Outline) (base : Iri) : Prop :=
  (∀ iri, .leaf (.base iri) ∉ inner) ∧ base = document ∨
    ∃ iri, .leaf (.base iri) ∈ inner ∧ resolveIri document iri = .ok base

/-- What can be wrong with what lies in a document, and the failure it leads to. -/
inductive Flaw (createIri : String → Except Failure Iri)
    (resolveIri : Iri → String → Except Failure Iri) (document : Iri) (inner : List Outline) :
    Failure → Prop
  /-- The base is not resolved. -/
  | base {iri : String} {failure : Failure} (hiri : .leaf (.base iri) ∈ inner)
      (h : resolveIri document iri = .error failure) :
      Flaw createIri resolveIri document inner failure
  /-- The IRI of a prefix, of a reference or of a datatype is not resolved. -/
  | reference {base : Iri} {item : Leaf} {iri : String} {failure : Failure}
      (hbase : IsBase resolveIri document inner base) (hitem : .leaf item ∈ eventsAll inner)
      (hiri : item.iri? = some iri) (h : resolveIri base iri = .error failure) :
      Flaw createIri resolveIri document inner failure
  /-- A prefixed name is not expanded. -/
  | expansion {base ns : Iri} {item : Leaf} {name : QualifiedName} {iri : String}
      {kind : ReferenceKind} {failure : Failure}
      (hbase : IsBase resolveIri document inner base) (hitem : .leaf item ∈ eventsAll inner)
      (hname : item.expanded? = some name)
      (hbinding : .leaf (.binding name.qualifier iri kind) ∈ inner)
      (hns : resolveIri base iri = .ok ns)
      (h : createIri (ns.text ++ name.localPart) = .error failure) :
      Flaw createIri resolveIri document inner failure
  /-- A rule declares a parameter twice. -/
  | repeated {name : String} {parameters : List String} {body : List Outline} {p : String}
      (hrule : .within (.rule name) ((parameters.map fun v => .leaf (.atom .var v)) ++
        [.within .body body]) ∈ inner)
      (h : [p, p].Sublist parameters) :
      Flaw createIri resolveIri document inner (.builder (.repeatedParameter name p))
  /-- A parameter of a rule is no argument, no part of a role and no operand in its body. -/
  | unused {name : String} {parameters : List String} {body : List Outline} {p : String}
      (hrule : .within (.rule name) ((parameters.map fun v => .leaf (.atom .var v)) ++
        [.within .body body]) ∈ inner)
      (hp : p ∈ parameters) (h : .leaf (.atom .var p) ∉ eventsAll body) :
      Flaw createIri resolveIri document inner (.builder (.unusedParameter name p))

end Outline

namespace Phrase.Document

variable {f : Factory} {b : Builder} {document : Iri} {c : Setting} {d : Document}

theorem mem_inner {o : Outline} : o ∈ d.inner c ↔
    (∃ iri, d.base? = some iri ∧ o = .leaf (.base iri)) ∨
      (∃ p ∈ d.prefixes c, o = .leaf (Directive.bindingLeaf p)) ∨ o ∈ d.body c := by
  rw [inner, List.map_map]
  simp only [List.mem_append, List.mem_map, Option.mem_toList, or_assoc,
    Function.comp_apply, @eq_comm _ o]

theorem base_mem_inner {iri : String} :
    .leaf (.base iri) ∈ d.inner c ↔ d.base? = some iri := by
  rw [mem_inner]
  constructor
  · rintro (⟨other, hbase, heq⟩ | ⟨p, -, heq⟩ | hbody)
    · cases heq
      exact hbase
    · cases heq
    · exact absurd rfl (ne_leaf_of_mem_body hbody _)
  · exact fun hbase => .inl ⟨iri, hbase, rfl⟩

theorem binding_mem_inner {p : Prefixed} :
    .leaf (Directive.bindingLeaf p) ∈ d.inner c ↔ p ∈ d.prefixes c := by
  rw [mem_inner]
  constructor
  · rintro (⟨iri, -, heq⟩ | ⟨other, hother, heq⟩ | hbody)
    · cases heq
    · obtain ⟨identifier, iri, kind⟩ := p
      obtain ⟨identifier', iri', kind'⟩ := other
      cases heq
      exact hother
    · exact absurd rfl (ne_leaf_of_mem_body hbody _)
  · exact fun hp => .inr (.inl ⟨p, hp, rfl⟩)

theorem leaf_mem_eventsAll_inner {item : Leaf} : .leaf item ∈ eventsAll (d.inner c) ↔
    (∃ iri, d.base? = some iri ∧ item = .base iri) ∨
      (∃ p ∈ d.prefixes c, item = Directive.bindingLeaf p) ∨
        .leaf item ∈ eventsAll (d.body c) := by
  constructor
  · intro h
    obtain ⟨o, ho, hevent⟩ := mem_eventsAll.mp h
    obtain ⟨iri, hbase, rfl⟩ | ⟨p, hp, rfl⟩ | hbody := mem_inner.mp ho
    · exact .inl ⟨iri, hbase, Event.leaf.inj (List.mem_singleton.mp hevent)⟩
    · exact .inr (.inl ⟨p, hp, Event.leaf.inj (List.mem_singleton.mp hevent)⟩)
    · exact .inr (.inr (mem_eventsAll.mpr ⟨o, hbody, hevent⟩))
  · rintro (⟨iri, hbase, rfl⟩ | ⟨p, hp, rfl⟩ | hbody)
    · exact mem_eventsAll.mpr ⟨_, base_mem_inner.mpr hbase, List.mem_singleton_self _⟩
    · exact mem_eventsAll.mpr ⟨_, binding_mem_inner.mpr hp, List.mem_singleton_self _⟩
    · obtain ⟨o, ho, hevent⟩ := mem_eventsAll.mp hbody
      exact mem_eventsAll.mpr ⟨o, mem_inner.mpr (.inr (.inr ho)), hevent⟩

/-- The rules that lie in the outline of a text are the rules of the text. -/
theorem rule_mem_inner {name : String} {parameters : List String} {body : List Outline} :
    .within (.rule name) ((parameters.map fun v => Outline.leaf (.atom .var v)) ++
        [Outline.within .body body]) ∈ d.inner c ↔
      ∃ r ∈ d.rules, r.name = name ∧ r.parameters = parameters ∧
        r.body.outlines (d.settled c).scope = body := by
  rw [mem_inner]
  constructor
  · rintro (⟨iri, -, heq⟩ | ⟨p, -, heq⟩ | hbody)
    · cases heq
    · cases heq
    · rw [Document.body, flatMap_rules] at hbody
      obtain hrule | hstatement := List.mem_append.mp hbody
      · obtain ⟨r, hr, heq⟩ := List.mem_map.mp hrule
        rw [Rule.outline, Rule.inner] at heq
        obtain ⟨hname, hinner⟩ := Outline.within.inj heq
        obtain ⟨hparameters, hlast⟩ := List.append_inj' hinner rfl
        have hinjective : Function.Injective fun v : String => Outline.leaf (.atom .var v) := by
          intro v w hvw
          cases hvw
          rfl
        refine ⟨r, hr, Container.rule.inj hname, ?_, ?_⟩
        · exact List.map_injective_iff.mpr hinjective hparameters
        · exact (Outline.within.inj (List.cons.inj hlast).1).2
      · obtain ⟨x, -, hx⟩ := List.mem_flatMap.mp hstatement
        cases x with
        | change x y => cases x <;> cases List.mem_singleton.mp hx
        | _ => cases List.mem_singleton.mp hx
  · rintro ⟨r, hr, rfl, rfl, rfl⟩
    refine .inr (.inr (List.mem_append_left _ ?_))
    rw [flatMap_rules]
    exact List.mem_map.mpr ⟨r, hr, rfl⟩

theorem isBase_inner {base : Iri} :
    IsBase f.resolveIri document (d.inner c) base ↔ d.based f document = .ok base := by
  rw [IsBase, based]
  simp only [base_mem_inner]
  cases d.base? with
  | none => simp [eq_comm]
  | some iri => simp

/-- Behind its directives a text has a flaw if a term is not read or a parameter misused. -/
theorem IsReader.flaw_iff (h : d.IsReader f document c b) (hfits : d.Fits c) (hc : Fresh c)
    (failure : Failure) :
    Flaw f.createIri f.resolveIri document (d.inner c) failure ↔
      FlawIn (b.Unread f) (eventsAll (d.body c)) failure ∨
        ∃ r ∈ d.rules, r.Misuses (d.settled c).scope failure := by
  have hbase : ∀ base, IsBase f.resolveIri document (d.inner c) base ↔ base = b.base := by
    intro base
    rw [isBase_inner, h.based, Except.ok.injEq, eq_comm]
  constructor
  · rintro (⟨hiri, hfails⟩ | ⟨hb, hitem, hiri, hfails⟩ | ⟨hb, hitem, hname, hbinding, hns, hfails⟩ |
      ⟨hrule, hp⟩ | ⟨hrule, hp, hunused⟩)
    · have hbased := h.based
      rw [Document.based, base_mem_inner.mp hiri] at hbased
      cases hfails.symm.trans hbased
    · obtain rfl := (hbase _).mp hb
      obtain ⟨other, -, rfl⟩ | ⟨p, hp, rfl⟩ | hbody := leaf_mem_eventsAll_inner.mp hitem
      · cases hiri
      · obtain ⟨found, -, hresolves⟩ := exists_of_mem_forall₂ h.bindings hp
        obtain rfl := Option.some.inj hiri
        rw [hresolves.iri] at hfails
        cases hfails
      · exact .inl ⟨_, hbody, .inl ⟨_, hiri, hfails⟩⟩
    · obtain rfl := (hbase _).mp hb
      obtain ⟨other, -, rfl⟩ | ⟨p, -, rfl⟩ | hbody := leaf_mem_eventsAll_inner.mp hitem
      · cases hname
      · cases hname
      · have hp : (⟨_, _, _⟩ : Prefixed) ∈ d.prefixes c := binding_mem_inner.mp hbinding
        obtain ⟨found, hfound, rfl⟩ := (h.binding_iff hfits hc).mpr ⟨_, hp, rfl, hns⟩
        exact .inl ⟨_, hbody, .inr ⟨_, found, hname, hfound, hfails⟩⟩
    · obtain ⟨r, hr, rfl, rfl, rfl⟩ := rule_mem_inner.mp hrule
      exact .inr ⟨r, hr, .inl ⟨_, hp, rfl⟩⟩
    · obtain ⟨r, hr, rfl, rfl, rfl⟩ := rule_mem_inner.mp hrule
      exact .inr ⟨r, hr, .inr ⟨_, hp, hunused, rfl⟩⟩
  · have hmem : ∀ {item}, .leaf item ∈ eventsAll (d.body c) → .leaf item ∈ eventsAll (d.inner c) :=
      fun hitem => leaf_mem_eventsAll_inner.mpr (.inr (.inr hitem))
    rintro (⟨item, hitem, ⟨iri, hiri, hfails⟩ | ⟨name, found, hname, hfound, hfails⟩⟩ |
      ⟨r, hr, ⟨p, hp, rfl⟩ | ⟨p, hp, hunused, rfl⟩⟩)
    · exact .reference ((hbase _).mpr rfl) (hmem hitem) hiri hfails
    · obtain ⟨⟨identifier, iri, kind⟩, hp, rfl, hiri⟩ :=
        (h.binding_iff hfits hc).mp ⟨found, hfound, rfl⟩
      exact .expansion ((hbase _).mpr rfl) (hmem hitem) hname (binding_mem_inner.mpr hp) hiri hfails
    · exact .repeated (rule_mem_inner.mpr ⟨r, hr, rfl, rfl, rfl⟩) hp
    · exact .unused (rule_mem_inner.mpr ⟨r, hr, rfl, rfl, rfl⟩) hp hunused

/-- If the directives of a text do not say how to read it, one of their IRIs is not resolved. -/
theorem flaw_of_reader {failure : Failure} (h : d.reader f document c = .error failure) :
    Flaw f.createIri f.resolveIri document (d.inner c) failure := by
  rw [reader] at h
  cases hbased : d.based f document with
  | error other =>
      rw [hbased] at h
      obtain rfl := Except.error.inj h
      rw [based] at hbased
      cases hbase : d.base? with
      | none =>
          rw [hbase] at hbased
          cases hbased
      | some iri =>
          rw [hbase] at hbased
          exact .base (base_mem_inner.mpr hbase) hbased
  | ok base =>
      rw [hbased, ok_bind] at h
      cases hbindings : (d.prefixes c).mapM (Builder.resolved f base) with
      | ok bindings =>
          rw [hbindings] at h
          cases h
      | error other =>
          rw [hbindings] at h
          obtain rfl := Except.error.inj h
          have hresolved : ∀ p ∈ d.prefixes c, Outcome
              (fun failure => f.resolveIri base p.iri = .error failure) (fun _ => True)
              (Builder.resolved f base p) := by
            intro p _
            rw [Builder.resolved]
            cases f.resolveIri base p.iri with
            | error failure => exact rfl
            | ok iri => exact .ok (by simp) trivial
          have hall := Outcome.mapM hresolved
          rw [hbindings] at hall
          obtain ⟨p, hp, hfails⟩ := hall
          have hleaf : .leaf (Directive.bindingLeaf p) ∈ eventsAll (d.inner c) :=
            leaf_mem_eventsAll_inner.mpr (.inr (.inl ⟨p, hp, rfl⟩))
          exact .reference (isBase_inner.mpr hbased) hleaf rfl hfails

end Phrase.Document

open Phrase

/--
A query that is built from the events of a text is the translation of the outline that these
events walk through.
-/
theorem Query.ofEvents_translated (createIri : String → Except Failure Iri)
    (resolveIri : Iri → String → Except Failure Iri) {plus : Bool} {text : String}
    {document : Iri} {q : Query}
    (h : ofEvents (.plainWith createIri resolveIri) document (parse text plus).events
      ((parse text plus).fault.map Failure.ofParse) = .ok q) :
    ∃ inner, (parse text plus).events = (Outline.within .document inner).events ∧
      query? (.plainWith createIri resolveIri) document inner = some q := by
  cases hfault : (parse text plus).fault with
  | some fault =>
      rw [hfault, ofEvents] at h
      obtain ⟨b, -, h⟩ := ok_of_bind h
      cases h
  | none =>
      obtain ⟨d, hd⟩ := exists_document hfault
      have hfresh := fresh_settingOf plus text
      rw [hfault, hd.events, Option.map_none] at h
      refine ⟨d.inner (settingOf plus text), ?_, ?_⟩
      · rw [hd.events, Document.outline_eq hd.fits hfresh]
      · exact Document.query?_of_ofEvents (Factory.admits_plainWith createIri resolveIri).usual rfl
          hd.fits hfresh h

/-- A text with a prefix, a rule of two branches, a count, roles, an order and a limit. -/
def reportOfRoles : String :=
  "using o for i\"o:\" r($a) :- \x7bo:p($a) || not(q($a, 1))\x7d. " ++
    "select $x, count($y) from r($x), t($x : a, $y : o:b) order by $x desc limit 3?"

/-- The place of a document to build queries in. -/
def reportBase : Iri := ⟨"http", some "x.example", "/doc", none, none⟩

theorem Query.ofEvents_translated_reportOfRoles :
    ∃ q inner, Query.ofEvents (.plainWith Iri.create Iri.join) reportBase
        (parse reportOfRoles true).events
        ((parse reportOfRoles true).fault.map Failure.ofParse) = .ok q ∧
      (parse reportOfRoles true).events = (Outline.within .document inner).events ∧
      query? (.plainWith Iri.create Iri.join) reportBase inner = some q := by
  have hbuilds : (Query.ofEvents (.plainWith Iri.create Iri.join) reportBase
      (parse reportOfRoles true).events
      ((parse reportOfRoles true).fault.map Failure.ofParse)).toOption.isSome = true := by
    decide +kernel
  cases h : Query.ofEvents (.plainWith Iri.create Iri.join) reportBase
      (parse reportOfRoles true).events
      ((parse reportOfRoles true).fault.map Failure.ofParse) with
  | error failure =>
      rw [h] at hbuilds
      cases hbuilds
  | ok q =>
      obtain ⟨inner, hinner⟩ := Query.ofEvents_translated Iri.create Iri.join h
      exact ⟨q, inner, rfl, hinner⟩

/--
Building a text that is parsed fails only with a flaw of the text, whether an IRI is not
resolved, a prefixed name not expanded, or a parameter of a rule repeated or unused. It fails
if there is one, and otherwise there is a query. The length of a text is less than 2^63, as
that of every string.
-/
theorem Query.ofEvents_fails_iff (createIri : String → Except Failure Iri)
    (resolveIri : Iri → String → Except Failure Iri) (document : Iri) {plus : Bool} {text : String}
    (hparses : (parse text plus).fault = none) (hlength : text.length < 2 ^ 63) :
    ∃ inner, (parse text plus).events = (Outline.within .document inner).events ∧
      (∀ failure, ofEvents (.plainWith createIri resolveIri) document (parse text plus).events
        none = .error failure → Flaw createIri resolveIri document inner failure) ∧
      ((∃ failure, ofEvents (.plainWith createIri resolveIri) document (parse text plus).events
        none = .error failure) ↔ ∃ failure, Flaw createIri resolveIri document inner failure) ∧
      ((∀ failure, ¬Flaw createIri resolveIri document inner failure) →
        ∃ q, ofEvents (.plainWith createIri resolveIri) document (parse text plus).events
          none = .ok q) := by
  obtain ⟨d, hd⟩ := exists_document hparses
  have hfresh := fresh_settingOf plus text
  have husual := (Factory.admits_plainWith createIri resolveIri).usual
  have hevents : (parse text plus).events =
      (Outline.within .document (d.inner (settingOf plus text))).events := by
    rw [hd.events, Document.outline_eq hd.fits hfresh]
  have houtcome : Outcome (Flaw createIri resolveIri document (d.inner (settingOf plus text)))
      (fun q => query? (.plainWith createIri resolveIri) document (d.inner (settingOf plus text)) =
        some q)
      (ofEvents (.plainWith createIri resolveIri) document (parse text plus).events none) := by
    rw [hd.events]
    cases hreader : d.reader (.plainWith createIri resolveIri) document (settingOf plus text) with
    | error failure =>
        rw [Document.ofEvents_eq hd.fits hfresh, hreader]
        exact Document.flaw_of_reader hreader
    | ok b =>
        have hb := Document.isReader hreader
        exact (Document.outcome_ofEvents husual rfl hd.fits hfresh hreader
          (hd.explains hlength husual hb)).of_iff (hb.flaw_iff hd.fits hfresh)
  exact ⟨d.inner (settingOf plus text), hevents, houtcome.fails_iff⟩

/-- A text with a rule that does not use its second parameter. -/
def ruleOfOne : String := "r($a, $b) :- p($a : t, $x : u). r($x, $y)?"

theorem Query.ofEvents_fails_iff_ruleOfOne :
    ∃ inner failure, (parse ruleOfOne false).events = (Outline.within .document inner).events ∧
      Query.ofEvents (.plainWith Iri.create Iri.join) reportBase (parse ruleOfOne false).events
        none = .error failure ∧
      Flaw Iri.create Iri.join reportBase inner failure := by
  obtain ⟨hparses, hlength, hfails⟩ : (parse ruleOfOne false).fault = none ∧
      ruleOfOne.length < 2 ^ 63 ∧ (Query.ofEvents (.plainWith Iri.create Iri.join) reportBase
        (parse ruleOfOne false).events none).toOption.isNone = true := by
    decide +kernel
  obtain ⟨inner, hevents, hflaw, -⟩ :=
    Query.ofEvents_fails_iff Iri.create Iri.join reportBase hparses hlength
  cases h : Query.ofEvents (.plainWith Iri.create Iri.join) reportBase
      (parse ruleOfOne false).events none with
  | ok q =>
      rw [h] at hfails
      cases hfails
  | error failure => exact ⟨inner, failure, hevents, rfl, hflaw failure h⟩

end TopicQuery
