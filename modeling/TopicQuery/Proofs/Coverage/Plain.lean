import TopicQuery.Proofs.Every
import TopicQuery.Proofs.Optimized.Parsed
import TopicQuery.Proofs.Rendered.Clause

/-!
What only tolog+ can write, told element by element. A clause without clauses inside it is
written in tolog+, and in plain tolog unless some element of it needs tolog+.
-/

namespace TopicQuery

open Phrase

namespace Element

/-- The names of the elements that only tolog+ has. -/
def plusNames : List String := ["base", "infix-predicate", "curie", "load", "drop", "create"]

/-- Plain tolog can write the element, if it can write what lies in it. -/
def Plain (c : Scope) (e : Element) : Prop :=
  e.name ∉ plusNames ∧ (e.name = "qname" →
    e.attr? "kind" = (e.attr? "prefix").bind fun q => (c.kind? q).map ReferenceKind.text)

/-- Plain tolog can write the element and all that lies in it. -/
def AllPlain (c : Scope) (e : Element) : Prop := e.Every (Plain c)

end Element

/-! ## Styles that know the prefixes of a scope -/

namespace Style

variable {s : Style} {c : Scope}

/-- The prefixes of the style are those of the scope. -/
def Knows (s : Style) (c : Scope) : Prop := ∀ qualifier, s.kind? qualifier = c.kind? qualifier

/-- The style without comments. -/
def bare (s : Style) : Style := { s with hints := false }

theorem Knows.suits (h : s.Knows c) : s.bare.Suits c := ⟨rfl, h⟩

/-- Terms are written without comments. -/
theorem term_bare (e : Element) : s.bare.term e = s.term e := rfl

/-- Comments stand in front of clauses, not in them. -/
theorem plainClause_bare (e : Element) : s.bare.plainClause e = s.plainClause e := rfl

/-- The step can be made if the dialect has what it needs. -/
def Makes {α : Type} (s : Style) (r : Except RenderFault α) (plain : Prop) : Prop :=
  Gives r (s.Allows plain) fun _ => True

section Makes

variable {α β : Type} {r : Except RenderFault α} {plain plain' : Prop}

theorem makes_of_gives {Q : α → Prop} (h : Gives r (s.Allows plain) Q) : s.Makes r plain :=
  h.imp fun _ => trivial

/-- What spells its tokens without comments can be read. -/
theorem Writes.legible {r : Except RenderFault String} {ts : List Token}
    (h : s.bare.Writes r plain ts) : Gives r (s.Allows plain) Legible :=
  h.imp fun hspelled => ⟨ts, hspelled⟩

theorem makes_ok (a : α) : s.Makes (.ok a) True := (gives_ok trivial).of_iff allows_true.symm

theorem Makes.of_iff (h : s.Makes r plain) (hiff : plain ↔ plain') : s.Makes r plain' :=
  Gives.of_iff h (allows_congr hiff)

theorem Makes.bind (h : s.Makes r plain) {f : α → Except RenderFault β}
    (hf : ∀ a, s.Makes (f a) plain') : s.Makes (r >>= f) (plain ∧ plain') :=
  (Gives.bind h fun a _ => hf a).of_iff allows_and.symm

theorem Makes.map (h : s.Makes r plain) (f : α → β) : s.Makes (r >>= fun a => .ok (f a)) plain :=
  (h.bind fun a => makes_ok (f a)).of_iff (Iff.of_eq (and_true plain))

theorem makes_mapM {f : β → Except RenderFault α} {plain : β → Prop} {xs : List β}
    (h : ∀ x ∈ xs, s.Makes (f x) (plain x)) : s.Makes (xs.mapM f) (∀ x ∈ xs, plain x) :=
  ((gives_mapM h).of_iff allows_forall.symm).imp fun _ => trivial

/-- What the dialect does not have fails, and nothing else does. -/
theorem Makes.fails_iff (h : s.Makes r plain) : (∃ fault, r = .error fault) ↔ ¬s.Allows plain := by
  constructor
  · rintro ⟨fault, rfl⟩ hallows
    obtain ⟨a, ha⟩ := h.succeeds hallows
    cases ha
  · intro hnot
    cases hr : r with
    | ok a => exact absurd (h.holds hr).1 hnot
    | error fault => exact ⟨fault, rfl⟩

theorem makes_requirePlus (construct : PlusConstruct) : s.Makes (s.requirePlus construct) False :=
  gives_requirePlus construct

end Makes

end Style

namespace Element

open Style

variable {s : Style} {c : Scope} {e : Element}

/-! ## Elements that need nothing -/

/-- The names of the elements that need nothing by themselves. -/
theorem plain_of_name (h : e.name ∉ "qname" :: plusNames) : e.Plain c :=
  ⟨fun hmem => h (List.mem_cons_of_mem _ hmem), fun hname => absurd (hname ▸ List.mem_cons_self) h⟩

theorem allPlain_iff (h : e.name ∉ "qname" :: plusNames) :
    e.AllPlain c ↔ ∀ d ∈ e.children, d.AllPlain c := by
  rw [AllPlain, every_iff]
  exact and_iff_right (plain_of_name h)

theorem not_allPlain (h : e.name ∈ plusNames) : ¬e.AllPlain c :=
  fun hall => (every_iff.mp hall).1.1 h

theorem allPlain_within {k : Container} {os : List Outline}
    (h : k.tag ∉ [.comparison, .load, .drop, .create]) :
    (Outline.within k os).element.AllPlain c ↔ ∀ o ∈ os, o.element.AllPlain c := by
  have hnames : ∀ tag ∉ [Tag.comparison, .load, .drop, .create],
      tag.name ∉ "qname" :: plusNames := by
    intro tag htag
    cases tag <;> first | decide | exact absurd (by decide) htag
  have hiff := allPlain_iff (c := c) (e := (Outline.within k os).element) (hnames k.tag h)
  rw [hiff, Outline.element, Outline.elements_eq_map]
  simp

end Element

namespace Phrase

open Element Style

variable {s : Style} {c : Scope}

/-! ## Terms -/

theorem kind?_eq_some {qualifier : String} (h : c.Binds qualifier) :
    c.kind? qualifier = some (c.kind qualifier) := by
  obtain ⟨kind, hkind⟩ := Option.isSome_iff_exists.mp h
  rw [Scope.kind, hkind]
  rfl

theorem plain_qname {kind : ReferenceKind} {name : QualifiedName} (h : c.Binds name.qualifier) :
    (Leaf.qname kind name).element.Plain c ↔ kind = c.kind name.qualifier := by
  have hname : (Leaf.qname kind name).element.name ∉ plusNames :=
    show "qname" ∉ plusNames by decide
  have htext : kind.text = (c.kind name.qualifier).text ↔ kind = c.kind name.qualifier := by
    refine ⟨fun h => ?_, congrArg _⟩
    simpa using congrArg ReferenceKind.ofText? h
  rw [Plain, and_iff_right hname, ← htext]
  simp [Leaf.element, Leaf.name, Leaf.attributes, Element.attr?, referenceAttributes, Attributes.get?,
    kind?_eq_some h]

theorem allPlain_leaf {item : Leaf} (h : item.name ∉ "qname" :: plusNames) :
    (Outline.leaf item).element.AllPlain c :=
  (allPlain_iff h).mpr (by simp [Outline.element, Leaf.element])

/-- A term of the scope needs what its canonical form needs. -/
theorem allPlain_term {t : Term} (hbinds : t.Binds c) :
    (t.leaf c).element.AllPlain c ↔ (t.canonical c).IsPlain := by
  have hleaf : ∀ item : Leaf, item.element.AllPlain c ↔ item.element.Plain c := fun item => by
    rw [AllPlain, every_iff]
    simp [Leaf.element]
  have hatom : ∀ kind value, (Leaf.atom kind value).element.Plain c := by
    have hnames : ∀ kind : AtomKind, kind.name ∉ "qname" :: plusNames := by
      intro kind
      cases kind <;> decide
    exact fun kind value => plain_of_name (hnames kind)
  rw [hleaf]
  cases t with
  | atom kind value => exact iff_of_true (hatom kind value) trivial
  | iri marker value => exact iff_of_true (hatom marker.atomKind value) trivial
  | literal value datatype =>
      exact iff_of_true (plain_of_name (show "literal" ∉ "qname" :: plusNames by decide)) trivial
  | curie marker name =>
      exact iff_of_false (fun h => h.1 (show "curie" ∈ plusNames by decide)) id
  | qname marker name =>
      rw [Term.leaf, plain_qname hbinds]
      cases marker with
      | none => simp [Marker.kindOr, Term.canonical, Term.IsPlain, Marker.kept_eq_none_of_none]
      | some m => simp [Marker.kindOr, Term.canonical, Term.IsPlain, Marker.kept]

/-- The element is one of a term whose prefix is bound. -/
def IsTermOf (c : Scope) (e : Element) : Prop :=
  ∃ t : Term, t.Binds c ∧ (∀ u ∈ t.tokens, u.Proper) ∧ e = (t.leaf c).element

theorem term_legible (hs : s.Knows c) {e : Element} (he : IsTermOf c e) :
    Gives (s.term e) (s.Allows (e.AllPlain c)) Legible := by
  obtain ⟨t, hbinds, hproper, rfl⟩ := he
  have hwrites := term_writes hs.suits hbinds hproper
  rw [term_bare] at hwrites
  exact (Writes.legible hwrites).of_iff (allows_congr (allPlain_term hbinds).symm)

theorem terms_legible (hs : s.Knows c) {es : List Element} (hes : ∀ e ∈ es, IsTermOf c e) :
    Gives (s.terms es) (s.Allows (∀ e ∈ es, e.AllPlain c)) fun texts =>
      ∀ text ∈ texts, Legible text := by
  refine ((gives_mapM fun e he => term_legible hs (hes e he)).of_iff allows_forall.symm).imp ?_
  intro texts htexts text htext
  exact (exists_of_mem_forall₂ htexts.flip htext).elim fun _ h => h.2

theorem term_makes (hs : s.Knows c) {e : Element} (he : IsTermOf c e) :
    s.Makes (s.term e) (e.AllPlain c) := makes_of_gives (term_legible hs he)

theorem terms_makes (hs : s.Knows c) {es : List Element} (hes : ∀ e ∈ es, IsTermOf c e) :
    s.Makes (s.terms es) (∀ e ∈ es, e.AllPlain c) := makes_of_gives (terms_legible hs hes)

/-! ## Calls and comparisons -/

theorem allPlain_callee {name : Term} (hbinds : name.Binds c) :
    (Call.calleeOutline c name).element.AllPlain c ↔ (name.canonical c).IsPlain := by
  rw [Call.calleeOutline, allPlain_within (by decide), List.forall_mem_singleton, Outline.element,
    allPlain_term hbinds]

theorem allPlain_terms {ts : List Term} (hbinds : ∀ t ∈ ts, t.Binds c) :
    (∀ o ∈ ts.map fun t => Outline.leaf (t.leaf c), o.element.AllPlain c) ↔
      ∀ t ∈ ts.map (Term.canonical c), t.IsPlain := by
  simp only [List.forall_mem_map, Outline.element]
  exact forall₂_congr fun t ht => allPlain_term (hbinds t ht)

theorem allPlain_part {k : Container} (hk : k ∈ [.left, .right, .player, .roleType]) {t : Term}
    (hbinds : t.Binds c) :
    (Outline.within k [.leaf (t.leaf c)]).element.AllPlain c ↔ (t.canonical c).IsPlain := by
  have htag : k.tag ∉ [.comparison, .load, .drop, .create] := by
    revert k
    decide
  rw [allPlain_within htag, List.forall_mem_singleton, Outline.element, allPlain_term hbinds]

/-- A call needs what its canonical form needs. -/
theorem allPlain_call {call : Call} (hrefers : call.Refers c) :
    (call.outline c).element.AllPlain c ↔ (call.canonical c).IsPlain := by
  cases call with
  | plain name arguments =>
      have hterms : (∀ o ∈ arguments.map fun t => Outline.leaf (t.leaf c), o.element.AllPlain c) ↔
          ∀ t ∈ arguments.map (Term.canonical c), t.IsPlain :=
        allPlain_terms fun t ht => Term.binds_of_refers (hrefers.2.1 t ht)
      have hname := allPlain_callee (Term.binds_of_names hrefers.1)
      have hcalled : ∀ k : Container, k.tag ∉ [.comparison, .load, .drop, .create] →
          ((Outline.within k (Call.calleeOutline c name ::
            arguments.map fun a => .leaf (a.leaf c))).element.AllPlain c ↔
              ((Call.plain name arguments).canonical c).IsPlain) := by
        intro k hk
        rw [allPlain_within hk, List.forall_mem_cons, hterms]
        exact and_congr_left' hname
      obtain ⟨builtin, hints, hform, hk⟩ | hk | hk :=
        Call.callContainer_cases c.rules (name.form c) arguments.length
      · obtain rfl := eq_identifier_of_form hform
        rw [Call.outline_builtin hk, allPlain_within (by simp [Container.tag]), hterms]
        simp [Call.canonical, Call.IsPlain, Call.name, Call.terms, Term.canonical, Term.IsPlain]
      · rw [Call.outline_called (by simp [hk]), hk]
        exact hcalled .call (by decide)
      · rw [Call.outline_called (by simp [hk]), hk]
        exact hcalled .dynamic (by decide)
  | association name roles =>
      have hrefersRoles := Call.forall_terms_association.mp hrefers.2.1
      have hrole : ∀ r ∈ roles, (Role.outline c r).element.AllPlain c ↔
          (r.player.canonical c).IsPlain ∧ (r.type.canonical c).IsPlain := by
        intro r hr
        obtain ⟨hplayer, htype⟩ := hrefersRoles r hr
        rw [Role.outline, allPlain_within (by decide), List.forall_mem_cons,
          List.forall_mem_singleton, allPlain_part (by simp) (Term.binds_of_refers hplayer),
          allPlain_part (by simp) (Term.binds_of_refers htype)]
      have hname : (Call.calleeOutline c name).element.AllPlain c ↔ (name.canonical c).IsPlain :=
        allPlain_callee (Term.binds_of_names hrefers.1)
      rw [Call.outline, allPlain_within (by decide), List.forall_mem_cons, List.forall_mem_map,
        Call.canonical, Call.IsPlain, Call.forall_terms_association, List.forall_mem_map]
      exact and_congr hname (forall₂_congr hrole)

/-! ## Clauses without clauses inside them -/

/-- The names of clauses without clauses inside them. -/
def simpleNames : List String := "internal-predicate" :: "infix-predicate" :: callNames

/-- The element is a clause without clauses inside it, whatever it is written for. -/
structure Simple (c : Scope) (e : Element) : Prop where
  name : e.name ∈ simpleNames
  flat : e.Flat
  legible : ∀ {s : Style}, s.Knows c →
    Gives (s.plainClause e) (s.Allows (e.AllPlain c)) Legible
  arguments : e.name = "builtin-predicate" → ∀ d ∈ e.children, IsTermOf c d

theorem Simple.makes {e : Element} (h : Simple c e) (hs : s.Knows c) :
    s.Makes (s.plainClause e) (e.AllPlain c) := makes_of_gives (h.legible hs)

theorem Simple.isClause {e : Element} (h : Simple c e) : isClause e = true := by
  have hnames : ∀ n ∈ simpleNames, ["predicate", "builtin-predicate", "internal-predicate",
      "infix-predicate", "association-predicate", "dynamic-predicate", "not", "or"].contains n =
        true := by decide
  exact hnames _ h.name

theorem simple_call {call : Call} (hrefers : call.Refers c) (hproper : ∀ u ∈ call.tokens, u.Proper) :
    Simple c (call.outline c).element where
  name := List.mem_cons_of_mem _ (List.mem_cons_of_mem _ (call_name c call))
  flat := flat_call (namesWords_of_proper hproper)
  legible {s} hs := by
    have hwrites := call_writes hs.suits hrefers hproper
    rw [plainClause_bare] at hwrites
    exact (Writes.legible hwrites).of_iff (allows_congr (allPlain_call hrefers).symm)
  arguments hname := by
    cases call with
    | association name roles =>
        exact absurd hname (show "association-predicate" ≠ "builtin-predicate" by decide)
    | plain name arguments =>
        obtain ⟨builtin, hints, -, hk⟩ | hk | hk :=
          Call.callContainer_cases c.rules (name.form c) arguments.length
        · rw [Call.outline_builtin hk]
          refine children_within fun o ho => ?_
          obtain ⟨t, ht, rfl⟩ := List.mem_map.mp ho
          exact ⟨t, Term.binds_of_refers (hrefers.2.1 t ht), fun u hu => hproper u <|
            List.mem_append_right _ <| List.mem_cons_of_mem _ <| List.mem_append_left _ <|
              mem_listed_of_mem ht hu, rfl⟩
        · rw [Call.outline_called (by simp [hk]), hk] at hname
          exact absurd hname (show "predicate" ≠ "builtin-predicate" by decide)
        · rw [Call.outline_called (by simp [hk]), hk] at hname
          exact absurd hname (show "dynamic-predicate" ≠ "builtin-predicate" by decide)

theorem simple_comparison {operator : Comparison} {left right : Term} (hleft : left.Refers c)
    (hright : right.Refers c)
    (hproper : ∀ u ∈ (Clause.comparison operator left right).tokens, u.Proper) :
    Simple c ((Clause.comparison operator left right).outline c).element where
  name := show "infix-predicate" ∈ simpleNames by decide
  flat := flat_within (show "infix-predicate" ∉ _ by decide) (flatAll_cons (flat_part (by simp) _)
    (flatAll_cons (flat_part (by simp) _) flatAll_nil))
  legible {s} hs := by
    have hwrites := comparison_writes hs.suits hleft hright hproper
    have hnot : ¬((Clause.comparison operator left right).outline c).element.AllPlain c :=
      not_allPlain (show "infix-predicate" ∈ plusNames by decide)
    exact (Writes.legible hwrites).of_iff (allows_congr (iff_of_false id hnot))
  arguments hname := absurd hname (show "infix-predicate" ≠ "builtin-predicate" by decide)

end Phrase

end TopicQuery
