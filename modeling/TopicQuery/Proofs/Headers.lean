import TopicQuery.Proofs.Accepted.Document
import TopicQuery.Proofs.Agree
import TopicQuery.Proofs.Canonical.Document
import TopicQuery.Proofs.RoundTrip
import TopicQuery.Proofs.Unconditional.Scanned

/-!
Headers of rendered texts. Directives are told from their tokens: each by how it begins, and
all of them by what cannot begin one. So a header that is parsed on its own declares what
the text declared, unless tolog+ writes an IRI between angle brackets that cannot stand
there.
-/

namespace TopicQuery.Phrase

open Grammar

/-! ## Directives and their tokens -/

namespace Directive

variable {x y : Directive} {xs ys : List Directive} {rest rest' tail ts : List Token} {c : Setting}

/-- The kind of a prefix is the one that its binding is written for. -/
def KindFits : Directive → Prop
  | binding binder b => Declares binder b.kind
  | _ => True

theorem kindFits_of_fits (h : x.Fits c) : x.KindFits := by
  cases x with
  | binding binder b => exact h.1
  | _ => trivial

/-- A directive is told from its tokens, whatever stands behind them. -/
theorem eq_of_tokens (hx : x.KindFits) (hy : y.KindFits)
    (h : x.tokens ++ rest = y.tokens ++ rest') : x = y ∧ rest = rest' := by
  have hkind : ∀ {binder : Binder} {identifier iri : String} {kind kind' : ReferenceKind},
      Declares binder kind → Declares binder kind' →
        Directive.binding binder ⟨identifier, iri, kind⟩ =
          .binding binder ⟨identifier, iri, kind'⟩ := by
    intro binder identifier iri kind kind' hdeclares hdeclares'
    have heq : kind = kind' := by
      cases binder with
      | quoted atomKind => exact Option.some.inj (hdeclares.symm.trans hdeclares')
      | _ => exact Eq.trans hdeclares hdeclares'.symm
    rw [heq]
  -- any two that are written differently differ in their first two tokens
  rcases x with iri | ⟨kind, text⟩ | ⟨_ | _ | kind | isIri, identifier, iri, bound⟩ <;>
    rcases y with iri' | ⟨kind', text'⟩ | ⟨_ | _ | kind' | isIri', identifier', iri', bound'⟩ <;>
    simp only [tokens, List.cons_append, List.nil_append, List.cons.injEq, Token.directive.injEq,
      Token.atom.injEq, Token.keyword.injEq, reduceCtorEq, false_and, and_false, String.reduceEq,
      true_and] at h
  · obtain ⟨rfl, rfl⟩ := h
    exact ⟨rfl, rfl⟩
  · obtain ⟨⟨rfl, rfl⟩, rfl⟩ := h
    exact ⟨rfl, rfl⟩
  · obtain ⟨rfl, rfl, rfl⟩ := h
    exact ⟨hkind hx hy, rfl⟩
  · obtain ⟨rfl, rfl, rfl⟩ := h
    exact ⟨hkind hx hy, rfl⟩
  · obtain ⟨rfl, ⟨rfl, rfl⟩, rfl⟩ := h
    exact ⟨hkind hx hy, rfl⟩
  · obtain ⟨⟨hform, rfl⟩, rfl, rfl⟩ := h
    obtain rfl : isIri = isIri' := by cases isIri <;> cases isIri' <;> simp at hform ⊢
    exact ⟨hkind hx hy, rfl⟩

theorem exists_tokens_cons (x : Directive) : ∃ t more, x.tokens = t :: more ∧
    ((∃ name, t = .directive name) ∨ t = .keyword .usingWord ∨ t = .keyword .importWord) := by
  rcases x with iri | ⟨kind, text⟩ | ⟨_ | _ | kind | isIri, b⟩
  · exact ⟨_, _, rfl, .inl ⟨_, rfl⟩⟩
  · exact ⟨_, _, rfl, .inl ⟨_, rfl⟩⟩
  · exact ⟨_, _, rfl, .inl ⟨_, rfl⟩⟩
  · exact ⟨_, _, rfl, .inl ⟨_, rfl⟩⟩
  · exact ⟨_, _, rfl, .inr (.inl rfl)⟩
  · exact ⟨_, _, rfl, .inr (.inr rfl)⟩

/-- What is told to be directives begins with those that are written. -/
theorem exists_append_of_tokens (hys : ∀ y ∈ ys, y.KindFits) (hfits : FitsAll c xs)
    (htail : Next BehindDirectives tail)
    (h : xs.flatMap tokens ++ tail = ys.flatMap tokens ++ ts) :
    ∃ zs, xs = ys ++ zs ∧ ts = zs.flatMap tokens ++ tail := by
  induction ys generalizing c xs with
  | nil => exact ⟨xs, rfl, h.symm⟩
  | cons y ys ih =>
      cases xs with
      | nil =>
          obtain ⟨t, more, htokens, ht⟩ := y.exists_tokens_cons
          have hstop := htail t (by
            rw [List.flatMap_nil, List.nil_append] at h
            simp [h, htokens])
          obtain ⟨name, rfl⟩ | rfl | rfl := ht
          · exact absurd rfl (hstop.1 name)
          · exact absurd rfl hstop.2.1
          · exact absurd rfl hstop.2.2.1
      | cons x xs =>
          simp only [List.flatMap_cons, List.append_assoc] at h
          obtain ⟨rfl, hrest⟩ := eq_of_tokens (kindFits_of_fits hfits.1)
            (hys y List.mem_cons_self) h
          obtain ⟨zs, rfl, hts⟩ := ih (fun z hz => hys z (List.mem_cons_of_mem _ hz)) hfits.2 hrest
          exact ⟨zs, rfl, hts⟩

/-- What begins with a directive and an identifier binds the identifier to an IRI. -/
theorem exists_binding_of_tokens {word identifier : String} (hfits : FitsAll c xs)
    (htail : Next BehindDirectives tail)
    (h : xs.flatMap tokens ++ tail = .directive word :: .atom .identifier identifier :: ts) :
    ∃ binder iri kind zs, xs = .binding binder ⟨identifier, iri, kind⟩ :: zs ∧
      .atom .iri iri ∈ xs.flatMap tokens := by
  cases xs with
  | nil =>
      rw [List.flatMap_nil, List.nil_append] at h
      exact absurd rfl ((htail (.directive word) (by simp [h])).1 word)
  | cons x xs =>
      rw [List.flatMap_cons, List.append_assoc] at h
      cases x with
      | base iri => simp [tokens] at h
      | version kind text =>
          obtain ⟨hkind, -⟩ := hfits.1
          obtain rfl | rfl := hkind <;> simp [tokens] at h
      | binding binder b =>
          obtain ⟨identifier', iri, kind⟩ := b
          cases binder with
          | quoted atomKind => simp [tokens] at h
          | imported isIri => simp [tokens] at h
          | percentPrefix =>
              simp only [tokens, List.cons_append, List.cons.injEq, Token.atom.injEq, true_and] at h
              obtain ⟨-, rfl, -⟩ := h
              exact ⟨_, iri, kind, xs, rfl, by simp [tokens]⟩
          | percentImport =>
              simp only [tokens, List.cons_append, List.cons.injEq, Token.atom.injEq, true_and] at h
              obtain ⟨-, rfl, -⟩ := h
              exact ⟨_, iri, kind, xs, rfl, by simp [tokens]⟩

theorem fitsAll_append :
    FitsAll c (xs ++ ys) ↔ FitsAll c xs ∧ FitsAll (settleAll c xs) ys := by
  induction xs generalizing c with
  | nil => simp [FitsAll, settleAll]
  | cons x xs ih => simp [FitsAll, settleAll, ih, and_assoc]

theorem leavesAll_append :
    leavesAll c (xs ++ ys) = leavesAll c xs ++ leavesAll (settleAll c xs) ys := by
  induction xs generalizing c with
  | nil => rfl
  | cons x xs ih => simp [leavesAll, settleAll, ih]

end Directive

end TopicQuery.Phrase

namespace TopicQuery

/-! ## Declarations -/

/-- The event names a base or binds a prefix. -/
def Event.declares : Event → Bool
  | .leaf (.base _) => true
  | .leaf (.binding _ _ _) => true
  | _ => false

/-- The declarations among some events. -/
def declarations (events : List Event) : List Event := events.filter Event.declares

theorem declarations_append (es es' : List Event) :
    declarations (es ++ es') = declarations es ++ declarations es' := List.filter_append es es'

/-- The IRIs that tolog+ writes between angle brackets. -/
def bracketedIris (events : List Event) : List String :=
  events.filterMap fun
    | .leaf (.binding _ iri .subjectIdentifier) => some iri
    | .leaf (.binding _ iri .module) => some iri
    | _ => none

/-- The text is rendered, and the header of what is written declares what the text did. -/
def KeepsHeader (dialect : Dialect) (hints plus plus' : Bool) (text : String) : Prop :=
  ∃ tree header kinds behind, Element.ofText plus text = .ok tree ∧
    tree.toText dialect hints = .ok (header ++ behind) ∧
    Phrase.header dialect tree = .ok (header, kinds) ∧
    (parse header plus').fault = none ∧
    declarations (parse header plus').events = declarations (parse text plus).events

namespace Phrase

open Grammar Outline

theorem mem_bracketedIris {iri : String} {events : List Event} :
    iri ∈ bracketedIris events ↔ ∃ b : Prefixed, b.kind ∈ [.subjectIdentifier, .module] ∧
      b.iri = iri ∧ .leaf (Directive.bindingLeaf b) ∈ events := by
  constructor
  · intro hmem
    obtain ⟨e, he, hiri⟩ := List.mem_filterMap.mp hmem
    split at hiri
    · obtain rfl := Option.some.inj hiri
      exact ⟨⟨_, _, .subjectIdentifier⟩, by simp, rfl, he⟩
    · obtain rfl := Option.some.inj hiri
      exact ⟨⟨_, _, .module⟩, by simp, rfl, he⟩
    · cases hiri
  · rintro ⟨⟨identifier, iri, kind⟩, hkind, rfl, hmem⟩
    simp only [List.mem_cons, List.not_mem_nil, or_false] at hkind
    refine List.mem_filterMap.mpr ⟨_, hmem, ?_⟩
    rcases hkind with rfl | rfl <;> rfl

namespace Document

variable {d : Document} {c : Setting} {dialect : Dialect}

theorem declares_of_isInner {e : Event} (h : isInner e = true) : e.declares = false := by
  cases e with
  | leaf item => cases item <;> first | rfl | cases h
  | _ => rfl

theorem declarations_leavesAll (ds : List Directive) :
    declarations ((Directive.leavesAll c ds).map .leaf) = (Directive.leavesAll c ds).map .leaf := by
  refine List.filter_eq_self.mpr fun e he => ?_
  obtain ⟨item, hitem, rfl⟩ := List.mem_map.mp he
  obtain ⟨iri, rfl⟩ | ⟨identifier, iri, kind, rfl⟩ := Directive.mem_leavesAll hitem <;> rfl

/-- A text declares what its directives are reported as. -/
theorem declarations_outline (d : Document) (c : Setting) :
    declarations (d.outline c).events = (Directive.leavesAll c d.directives).map .leaf := by
  have hrules : declarations (eventsAll (d.rules.flatMap
      (Category.rule.outlines (d.settled c).scope))) = [] := by
    have hall : InnerAll (d.rules.flatMap (Category.rule.outlines (d.settled c).scope)) :=
      InnerAll.flatMap fun r _ => r.innerAll
    exact List.filter_eq_nil_iff.mpr fun e he => by
      simp [declares_of_isInner (isInner_of_innerAll hall e he)]
  have hstatement : declarations (eventsAll (d.statement.toList.flatMap
      (Category.statement.outlines (d.settled c).scope))) = [] := by
    refine List.filter_eq_nil_iff.mpr fun e he => ?_
    cases hinner : isInner e with
    | true => simp [declares_of_isInner hinner]
    | false =>
        cases hx : d.statement with
        | none => simp [hx, eventsAll] at he
        | some x =>
            rw [hx, Option.toList_some, List.flatMap_singleton, Statement.mem_events hinner] at he
            obtain rfl | ⟨-, rfl⟩ | ⟨content, -, rfl⟩ := he <;> simp [Event.declares]
  have hleaves := declarations_leavesAll (c := c) d.directives
  have hends : declarations [.enter .document] = [] ∧
      declarations [.leave Container.document.tag] = [] := ⟨rfl, rfl⟩
  rw [outline, events, ← List.singleton_append, declarations_append, declarations_append,
    eventsAll_append, eventsAll_append, eventsAll_leaves, declarations_append, declarations_append,
    hends.1, hends.2, hrules, hstatement, hleaves]
  simp

/-! ## The header of a text on its own -/

/-- What is rendered begins with its header. -/
theorem exists_header {hints : Bool} {tree : Element} {written : String}
    (hname : tree.name = "tolog") (h : render dialect hints tree = .ok written) :
    ∃ text kinds behind, header dialect tree = .ok (text, kinds) ∧ written = text ++ behind := by
  rw [render_eq hname] at h
  obtain ⟨⟨text, kinds⟩, hheader, hrest⟩ := ok_of_bind h
  obtain ⟨parts, -, heq⟩ := ok_of_bind hrest
  exact ⟨text, kinds, String.join parts, hheader, (Except.ok.inj heq).symm⟩

/-- The header of a text, as a text. -/
def headerOf (dialect : Dialect) (c : Setting) (d : Document) : Document :=
  ⟨canonicalDirectives dialect d.base? (d.prefixes c), [], none, false⟩

/-- A header that can be written is parsed as a text of its own. -/
theorem isDocument_header {plus' : Bool} {text : String} {kinds : List (String × ReferenceKind)}
    (hfits : d.Fits c) (hc : Fresh c) (h : d.Written dialect c)
    (hheader : header dialect (d.outline c).element = .ok (text, kinds)) :
    IsDocument plus' text (d.headerOf dialect c) := by
  obtain ⟨-, front, heq, hfront⟩ := (header_gives hfits hc h.proper).holds hheader
  obtain rfl := (Prod.mk.inj heq).1
  have hsealed : Sealed (d.headerOf dialect c).tokens (front ++ d.bindingLines dialect c) := by
    have hall := hfront.append (sealed_bindingLines h)
    simpa [headerOf, tokens, canonicalDirectives, questionTokens] using hall
  obtain ⟨htokens, hfault⟩ := (hsealed.finishes Scan.finishes_nil) .start
  rw [List.append_nil, List.append_nil] at htokens
  rw [List.append_nil] at hfault
  have hfits' : (d.headerOf dialect c).Fits (settingOf plus' (front ++ d.bindingLines dialect c)) :=
    { directives := (settleAll_canonicalDirectives dialect d.base? (fresh_settingOf plus' _)
        (distinct_prefixes hfits hc)).1
      rules := by simp [headerOf]
      statement := by simp [headerOf]
      rulesPlain := by simp [headerOf]
      statementPlain := by simp [headerOf] }
  exact ⟨htokens, hfits', parse_of_document htokens hfault hfits'⟩

/-! ## Lines that are told to be the bindings -/

/-- In tolog+ an IRI that is no locator stands between brackets behind its prefix. -/
theorem exists_bracketed {b : Prefixed} (hkind : b.kind ∈ [.subjectIdentifier, .module]) :
    ∃ word behind, (Token.directive word).Proper ∧
      bindingLine .plus b = "%" ++ word ++ " " ++ (b.identifier ++ " ") ++ behind ∧
      (canonicalBinding .plus b).tokens =
        [.directive word, .atom .identifier b.identifier, .atom .iri b.iri] := by
  obtain ⟨identifier, iri, kind⟩ := b
  simp only [List.mem_cons, List.not_mem_nil, or_false] at hkind
  have hline : ∀ word, (⟨.plus, false, []⟩ : Style).directive identifier iri kind =
      "%" ++ word ++ " " ++ identifier ++ " <" ++ iri ++ ">" →
        bindingLine .plus ⟨identifier, iri, kind⟩ =
          "%" ++ word ++ " " ++ (identifier ++ " ") ++ ("<" ++ iri ++ ">" ++ "\n") := by
    intro word hdirective
    rw [bindingLine, hdirective, show (" <" : String) = " " ++ "<" from rfl]
    simp only [String.append_assoc]
  rcases hkind with rfl | rfl
  · exact ⟨"prefix", _, proper_directive (by simp), hline "prefix" rfl, rfl⟩
  · exact ⟨"import", _, proper_directive (by simp), hline "import" rfl, rfl⟩

/-- What is told from the line of a new prefix to be its binding is written by proper tokens. -/
theorem binding_proper {b : Prefixed} {ds : List Directive} {leaves : List Leaf}
    {tail : List Token} {place : Text.Position} {rest : List Char}
    (hidentifier : (Token.atom .identifier b.identifier).Proper)
    (hkind : b.kind ∈ [.subjectIdentifier, .module])
    (hnew : Directive.bound? c b.identifier = none) (hfits : Directive.FitsAll c ds)
    (hleaves : Directive.leavesAll c ds = Directive.bindingLeaf b :: leaves)
    (htail : Next BehindDirectives tail) (hproper : ∀ t ∈ ds.flatMap Directive.tokens, t.Proper)
    (htokens : ds.flatMap Directive.tokens ++ tail =
      (Scan.ofText .query place ((bindingLine .plus b).toList ++ rest)).plain) :
    ∀ t ∈ (canonicalBinding .plus b).tokens, t.Proper := by
  obtain ⟨word, behind, hword, hline, hcanonical⟩ := exists_bracketed hkind
  have hsealed : Sealed [.directive word, .atom .identifier b.identifier]
      ("%" ++ word ++ " " ++ (b.identifier ++ " ")) :=
    (sealed_prefix_word word hword).append (spelled_identifier hidentifier).blank
  obtain ⟨place', hplain⟩ := plain_of_sealed hsealed (behind.toList ++ rest) place
  rw [hline, String.toList_append, List.append_assoc, hplain] at htokens
  obtain ⟨binder, iri, kind, zs, rfl, hmem⟩ :=
    Directive.exists_binding_of_tokens hfits htail htokens
  -- the prefix is new, so it is reported with what it is told to be bound to
  have hfirst : Leaf.binding b.identifier iri kind = Directive.bindingLeaf b := by
    rw [Directive.leavesAll, Directive.leaves, hnew] at hleaves
    exact (List.cons.inj hleaves).1
  obtain rfl : iri = b.iri := (Leaf.binding.inj hfirst).2.1
  intro t ht
  rw [hcanonical] at ht
  simp only [List.mem_cons, List.not_mem_nil, or_false] at ht
  obtain rfl | rfl | rfl := ht
  · exact hword
  · exact hidentifier
  · exact hproper _ hmem

/-- Bindings whose lines are told to be those bindings are written by proper tokens. -/
theorem bindings_proper {bs : List Prefixed} {ds : List Directive} {tail : List Token}
    {place : Text.Position}
    (hlines : ∀ b ∈ bs, (Token.atom .identifier b.identifier).Proper ∧
      (b.kind ∉ [.subjectIdentifier, .module] → ∀ t ∈ (canonicalBinding .plus b).tokens, t.Proper))
    (hdistinct : Directive.Distinct (bs.reverse ++ c.bindings)) (hfits : Directive.FitsAll c ds)
    (hleaves : Directive.leavesAll c ds = bs.map Directive.bindingLeaf)
    (htail : Next BehindDirectives tail) (hproper : ∀ t ∈ ds.flatMap Directive.tokens, t.Proper)
    (htokens : ds.flatMap Directive.tokens ++ tail =
      (Scan.ofText .query place (String.join (bs.map (bindingLine .plus))).toList).plain) :
    ∀ b ∈ bs, ∀ t ∈ (canonicalBinding .plus b).tokens, t.Proper := by
  induction bs generalizing c ds place with
  | nil => simp
  | cons b bs ih =>
      have hdistinct' : Directive.Distinct (bs.reverse ++ b :: c.bindings) := by
        simpa using hdistinct
      have hnew := Directive.bound?_of_distinct hdistinct'
      rw [List.map_cons, String.join_cons, String.toList_append] at htokens
      rw [List.map_cons] at hleaves
      obtain ⟨hidentifier, hother⟩ := hlines b List.mem_cons_self
      have hb : ∀ t ∈ (canonicalBinding .plus b).tokens, t.Proper := by
        by_cases hkind : b.kind ∈ [.subjectIdentifier, .module]
        · exact binding_proper hidentifier hkind hnew hfits hleaves htail hproper htokens
        · exact hother hkind
      obtain ⟨place', hplain⟩ := plain_of_sealed (sealed_bindingLine hb)
        (String.join (bs.map (bindingLine .plus))).toList place
      rw [hplain] at htokens
      have hkinds : ∀ y ∈ [canonicalBinding .plus b], y.KindFits :=
        List.forall_mem_singleton.mpr (declares_canonicalBinder .plus b.kind)
      obtain ⟨zs, rfl, hrest⟩ := Directive.exists_append_of_tokens hkinds hfits htail
        (htokens.trans (by rw [List.flatMap_singleton]))
      rw [List.singleton_append] at hfits hleaves hproper
      have hsettle : ((canonicalBinding .plus b).settle c).bindings = b :: c.bindings := by
        simp [canonicalBinding, Directive.settle, hnew]
      have hleaves' : Directive.leavesAll ((canonicalBinding .plus b).settle c) zs =
          bs.map Directive.bindingLeaf := by
        rw [Directive.leavesAll, canonicalBinding, Directive.leaves, hnew] at hleaves
        exact (List.cons.inj hleaves).2
      rw [List.flatMap_cons] at hproper
      refine List.forall_mem_cons.mpr ⟨hb, ih (fun b' hb' => hlines b' (List.mem_cons_of_mem _ hb'))
        ?_ hfits.2 hleaves' (fun t ht => hproper t (List.mem_append_right _ ht)) hrest.symm⟩
      rwa [hsettle]

/-! ## Headers that declare what the text did -/

/-- In front of the bindings nothing is bound, and only the base is declared. -/
theorem settleAll_front (dialect : Dialect) (base : Option String) (c : Setting) :
    (Directive.settleAll c (base.toList.map .base ++ canonicalVersion dialect)).bindings =
        c.bindings ∧
      Directive.leavesAll c (base.toList.map .base ++ canonicalVersion dialect) =
        base.toList.map .base := by
  cases base <;> cases dialect <;> exact ⟨rfl, rfl⟩

/-- A header that is parsed as the declarations of a text can be written. -/
theorem written_of_header {plus' : Bool} {text : String} {kinds : List (String × ReferenceKind)}
    {d' : Document} (hfits : d.Fits c) (hc : Fresh c) (hproper : ∀ t ∈ d.tokens, t.Proper)
    (hheader : header .plus (d.outline c).element = .ok (text, kinds))
    (h' : IsDocument plus' text d')
    (hleaves : Directive.leavesAll (settingOf plus' text) d'.directives =
      Directive.leavesAll c d.directives) : d.Written .plus c := by
  obtain ⟨-, front, heq, hfront⟩ := (header_gives hfits hc hproper).holds hheader
  obtain rfl := (Prod.mk.inj heq).1
  set c' := settingOf plus' (front ++ d.bindingLines .plus c) with hc'
  obtain ⟨hbindings, hbase⟩ := settleAll_front .plus d.base? c'
  obtain ⟨place, hplain⟩ := plain_of_sealed hfront (d.bindingLines .plus c).toList .start
  have hkinds : ∀ y ∈ d.base?.toList.map .base ++ canonicalVersion .plus, y.KindFits := by
    cases d.base? <;> simp [canonicalVersion, Directive.KindFits]
  obtain ⟨zs, hzs, hrest⟩ := Directive.exists_append_of_tokens hkinds h'.fits.directives
    (next_rules d'.rules) (by rw [← hplain, ← String.toList_append]; exact h'.tokens.symm)
  have hall := h'.fits.directives
  rw [hzs, Directive.fitsAll_append] at hall
  rw [hzs, Directive.leavesAll_append, hbase, leavesAll_eq hfits hc] at hleaves
  refine ⟨hproper, bindings_proper (fun b hb => ?_) ?_ hall.2 (List.append_cancel_left hleaves)
    (next_rules d'.rules) (fun t ht => h'.proper t ?_) hrest.symm⟩
  · obtain ⟨binder, hmem, -⟩ := exists_binder hfits hc hb
    exact ⟨(binder_proper hproper hmem).1, fun hkind =>
      canonicalBinding_proper hfits hc hproper hb fun _ hbracketed => absurd hbracketed hkind⟩
  · rw [hbindings, (fresh_settingOf plus' _).bindings, List.append_nil]
    exact distinct_prefixes hfits hc
  · rw [tokens, hzs, List.flatMap_append]
    exact List.mem_append_left _ (List.mem_append_right _ ht)

/-- A text can be written if every IRI that is written between brackets may stand there. -/
theorem written_iff (hfits : d.Fits c) (hc : Fresh c) (hproper : ∀ t ∈ d.tokens, t.Proper) :
    d.Written dialect c ↔
      (dialect = .plus → ∀ iri ∈ bracketedIris (d.outline c).events, IsBracketable iri) := by
  constructor
  · rintro h rfl iri hiri
    obtain ⟨b, hkind, rfl, hmem⟩ := mem_bracketedIris.mp hiri
    obtain ⟨word, behind, -, -, hcanonical⟩ := exists_bracketed hkind
    have hb := (binding_mem_iff hfits hc).mp hmem
    exact proper_iri_iff.mp (h.bindings b hb _ (by simp [hcanonical]))
  · exact fun hiris => ⟨hproper, fun b hb =>
      canonicalBinding_proper hfits hc hproper hb fun hdialect hkind =>
        proper_iri_iff.mpr (hiris hdialect b.iri (mem_bracketedIris.mpr
          ⟨b, hkind, rfl, (binding_mem_iff hfits hc).mpr hb⟩))⟩

end Document

/-- A text keeps its header if its bindings can be written. -/
theorem IsDocument.keepsHeader_iff_written {hints plus plus' : Bool} {text written : String}
    {d : Document} {dialect : Dialect} (h : IsDocument plus text d)
    (hwritten : ((d.outline (settingOf plus text)).element).toText dialect hints = .ok written) :
    KeepsHeader dialect hints plus plus' text ↔ d.Written dialect (settingOf plus text) := by
  have hfresh := fresh_settingOf plus text
  constructor
  · rintro ⟨tree, header, kinds, behind, htree, -, hheader, hfault, hdeclares⟩
    obtain rfl := Except.ok.inj (h.tree.symm.trans htree)
    cases dialect with
    | legacy => exact Document.written h.fits hfresh h.proper (by simp)
    | plus =>
        obtain ⟨d', h'⟩ := exists_document hfault
        rw [h'.events, h.events, Document.declarations_outline, Document.declarations_outline]
          at hdeclares
        have hleaves := List.map_injective_iff.mpr (fun _ _ => Event.leaf.inj) hdeclares
        exact Document.written_of_header h.fits hfresh h.proper hheader h' hleaves
  · intro hlines
    obtain ⟨header, kinds, behind, hheader, rfl⟩ :=
      Document.exists_header (by rw [Document.element_outline h.fits hfresh])
        (toText_of_render.mp hwritten)
    have h' : IsDocument plus' header _ := Document.isDocument_header h.fits hfresh hlines hheader
    refine ⟨_, header, kinds, behind, h.tree, hwritten, hheader, by rw [h'.parses], ?_⟩
    rw [h'.events, h.events, Document.declarations_outline, Document.declarations_outline,
      Document.leavesAll_eq h.fits hfresh]
    exact congrArg _ (settleAll_canonicalDirectives dialect d.base? (fresh_settingOf plus' header)
      (Document.distinct_prefixes h.fits hfresh)).2.1

end Phrase

open Phrase

/--
The header of a rendered text declares what the text did exactly if tolog+ is not asked to
write an IRI between brackets that may not stand there.
-/
theorem keepsHeader_iff {dialect : Dialect} {hints plus : Bool} {text : String} (plus' : Bool)
    (hparses : (parse text plus).fault = none)
    (hwrites : ∃ tree written, Element.ofText plus text = .ok tree ∧
      tree.toText dialect hints = .ok written) :
    KeepsHeader dialect hints plus plus' text ↔
      (dialect = .plus → ∀ iri ∈ bracketedIris (parse text plus).events, IsBracketable iri) := by
  obtain ⟨d, h⟩ := exists_document hparses
  obtain ⟨tree, written, htree, hwritten⟩ := hwrites
  obtain rfl := Except.ok.inj (h.tree.symm.trans htree)
  rw [h.keepsHeader_iff_written hwritten, h.events,
    Document.written_iff h.fits (fresh_settingOf plus text) h.proper]

/-- A text with a binding of each form. -/
def boundInAllForms : String :=
  "%base <b> using l for a\"no iri\" %import m <m> import \"n\" as n %prefix p <p> p:q(l:r)?"

theorem keepsHeader_iff_boundInAllForms :
    KeepsHeader .plus true false true boundInAllForms ↔ (Dialect.plus = .plus →
      ∀ iri ∈ bracketedIris (parse boundInAllForms false).events, IsBracketable iri) := by
  suffices h : _ ∧ _ from keepsHeader_iff true h.1 (exists_written h.2)
  decide +kernel

/-- A prefix that is bound to a quoted reference with a blank in it does not keep its binding. -/
theorem not_keepsHeader_blank :
    (parse "using p for i\"http://x y/\"" true).fault = none ∧
      (∃ tree written, Element.ofText true "using p for i\"http://x y/\"" = .ok tree ∧
        tree.toText .plus false = .ok written) ∧
      ¬KeepsHeader .plus false true true "using p for i\"http://x y/\"" := by
  suffices h : _ ∧ _ ∧ (((Element.ofText true "using p for i\"http://x y/\"").toOption.bind
      fun tree => (Phrase.header .plus tree).toOption).map fun header =>
        (parse header.1 true).fault) ≠ some none by
    refine ⟨h.1, exists_written h.2.1, ?_⟩
    rintro ⟨tree, header, kinds, behind, htree, -, hheader, hfault, -⟩
    refine h.2.2 ?_
    rw [htree]
    simp only [Except.toOption, Option.bind_some, hheader, Option.map_some, hfault]
  decide +kernel

end TopicQuery
