import TopicQuery.Proofs.Accepted.Step
import TopicQuery.Proofs.Shape

/-!
Phrases of terms, calls and clauses are accepted: the recognizers read their
tokens and report their outlines, whatever stands behind them.
-/

namespace TopicQuery.Grammar

open Parser Phrase

section Terms

variable {c : Setting} {ts : List Token}

/-! ## Terms -/

/-- Nothing types the string in front. -/
def Untyped (rest : List Token) : Prop := rest.head? ≠ some (.symbol .hatHat)

theorem ends_of_untyped {t : Phrase.Term} (h : Untyped ts) : t.Ends ts := by
  cases t with
  | atom kind value => cases kind <;> first | exact h | trivial
  | _ => trivial

/-- What tolog 1.0 lacks is only read in tolog+. -/
theorem plus_of_not {p : Prop} (h : c.plus = false → p) (hp : ¬p) : c.plus = true := by
  cases hplus : c.plus with
  | false => exact absurd (h hplus) hp
  | true => rfl

theorem reads_datatype {d : Datatype}
    (h : ∀ name, d = .qname name → c.scope.Binds name.qualifier) :
    datatype.Reads c (datatypeToken d :: ts) [] d c ts := by
  refine reads_take fun first hfirst => ?_
  rw [hfirst]
  cases d with
  | iri text => exact reads_pure
  | qname name => exact reads_then (reads_kindOf (h name rfl)) reads_pure

theorem reads_curieLeaf {first : PlacedToken} {name : QualifiedName}
    {marker : Option ReferenceKind} (hplus : c.plus = true) (h : c.scope.Binds name.qualifier) :
    (curieLeaf first name marker).Reads c ts []
      (.curie (marker.getD (bracketKind (c.scope.kind name.qualifier))) name) c ts :=
  reads_then (reads_requirePlus hplus) (reads_then (reads_kindOf h) reads_pure)

theorem reads_qnameLeaf {first : PlacedToken} {name : QualifiedName}
    {marker : Option ReferenceKind} (h : c.scope.Binds name.qualifier)
    (hmodule : c.scope.kind name.qualifier ≠ .module) :
    (qnameLeaf first name marker).Reads c ts []
      (.qname (marker.getD (c.scope.kind name.qualifier)) name) c ts := by
  refine reads_then (reads_kindOf h) ?_
  rw [if_neg hmodule]
  exact reads_pure

theorem markedKind?_symbol (m : Marker) : markedKind? (.symbol m.symbol) = some m.kind := by
  cases m <;> rfl

/-- A mark and the reference behind it. -/
theorem reads_marked {first : PlacedToken} {m : Marker} {ts' : List Token} {item : Leaf}
    (hfirst : first.token = .symbol m.symbol) (hplus : c.plus = true)
    (h : (marked m.kind).Reads c ts [] item c ts') :
    (termLeaf first).Reads c ts [] item c ts' := by
  unfold termLeaf
  have hmarked : (requirePlus first "reference markers" >>= fun _ => marked m.kind).Reads c ts []
      item c ts' := reads_then (reads_requirePlus hplus) h
  cases m <;>
  · simp only [hfirst, Marker.symbol, markedKind?]
    exact hmarked

theorem term_accepts : term.Accepts .term Untyped := by
  intro c x rest hrefers hplain hstop
  have hterm : ∀ {t : Token} {behind : List Token},
      x.tokens = t :: behind →
      (∀ first : PlacedToken, first.token = t →
        (termLeaf first).Reads c (behind ++ rest) [] (x.leaf c.scope) c rest) →
      term.Reads c (x.tokens ++ rest) [.leaf (x.leaf c.scope)] () c rest := by
    intro t behind htokens hleaf
    rw [htokens]
    exact reads_take fun first hfirst => reads_then (hleaf first hfirst) reads_emit
  cases x with
  | atom kind value =>
      refine hterm rfl fun first hfirst => ?_
      unfold termLeaf
      cases kind with
      | string =>
          simp only [hfirst]
          refine reads_then (reads_accept_other hstop) ?_
          exact reads_pure
      | _ =>
          simp only [hfirst]
          exact reads_pure
  | literal value d =>
      refine hterm rfl fun first hfirst => ?_
      unfold termLeaf
      simp only [hfirst]
      refine reads_then reads_accept (reads_then (reads_datatype ?_) reads_pure)
      rintro name rfl
      exact hrefers
  | qname marker name =>
      cases marker with
      | none =>
          refine hterm rfl fun first hfirst => ?_
          unfold termLeaf
          simp only [hfirst]
          exact reads_qnameLeaf hrefers.1 hrefers.2
      | some m =>
          have hplus : c.plus = true := plus_of_not hplain (by simp [Category.term, Phrase.Term.IsPlain])
          refine hterm rfl fun first hfirst => reads_marked hfirst hplus ?_
          refine reads_take fun second hsecond => ?_
          simp only [hsecond]
          exact reads_qnameLeaf hrefers.1 hrefers.2
  | curie marker name =>
      have hplus : c.plus = true := plus_of_not hplain (by simp [Category.term, Phrase.Term.IsPlain])
      cases marker with
      | none =>
          refine hterm rfl fun first hfirst => ?_
          unfold termLeaf
          simp only [hfirst]
          exact reads_curieLeaf hplus hrefers
      | some m =>
          refine hterm rfl fun first hfirst => reads_marked hfirst hplus ?_
          refine reads_take fun second hsecond => ?_
          simp only [hsecond]
          exact reads_curieLeaf hplus hrefers
  | iri m value =>
      have hplus : c.plus = true := plus_of_not hplain (by simp [Category.term, Phrase.Term.IsPlain])
      refine hterm rfl fun first hfirst => reads_marked hfirst hplus ?_
      refine reads_take fun second hsecond => ?_
      simp only [hsecond]
      cases m <;> exact reads_pure

/-! ## Roles and arguments -/

theorem untyped_symbol (mark : Symbol) (h : mark ≠ .hatHat) : Untyped (.symbol mark :: ts) := by
  simpa [Untyped] using h

theorem role_accepts :
    (within .pair do
      within .player term
      expectMark .colon
      within .roleType term).Accepts .role Untyped := by
  intro c r rest hrefers hplain hstop
  have hplayer := accepts_within term_accepts .player hrefers.1 (fun hlegacy => (hplain hlegacy).1)
    (untyped_symbol .colon (by simp) : Untyped (_ :: (r.type.tokens ++ rest)))
  have htype := accepts_within term_accepts .roleType hrefers.2
    (fun hlegacy => (hplain hlegacy).2) hstop
  have hinner := reads_within .pair (reads_bind (f := fun _ => do
    expectMark .colon
    within .roleType term) hplayer (reads_then reads_expect htype))
  simpa [Category.role, Category.events, Category.inside, Category.term, Phrase.Role.tokens, Phrase.Role.outline,
    Outline.events, Outline.eventsAll] using hinner

theorem reads_arguments {arguments : List Phrase.Term} (hrefers : ∀ a ∈ arguments, a.Refers c.scope)
    (hplain : c.plus = false → ∀ a ∈ arguments, a.IsPlain) :
    Grammar.arguments.Reads c
      (.symbol .lparen :: (listed Phrase.Term.tokens arguments ++ .symbol .rparen :: ts))
      (Outline.eventsAll (arguments.map fun a => .leaf (a.leaf c.scope))) () c ts := by
  refine reads_then reads_expect ?_
  by_cases hne : arguments = []
  · subst hne
    exact reads_then reads_accept reads_pure
  · have hfirst : (listed Phrase.Term.tokens arguments ++ .symbol .rparen :: ts).head? ≠
        some (.symbol .rparen) := by
      obtain ⟨x, xs, rfl⟩ := List.exists_cons_of_ne_nil hne
      rw [head?_listed x.tokens_ne_nil]
      exact fun hrparen => absurd (inert_of_head? hrparen) (by simp [Inert])
    refine reads_then (reads_accept_other hfirst) ?_
    have hstop : Parted Untyped (.symbol .rparen :: ts) :=
      ⟨untyped_symbol _ (by simp), by simp⟩
    have hitems := accepts_items term_accepts (fun _ => untyped_symbol _ (by simp))
      ⟨hne, hrefers⟩ hplain hstop
    have hall := reads_bind (f := fun _ => expectMark .rparen) hitems reads_expect
    simpa [Category.list, Category.term, Category.events, List.map_eq_flatMap] using hall

/-! ## Calls -/

theorem reads_calleeMarker {m : Option Marker} {t : Token} (ht : markedKind? t = none)
    (hplus : m ≠ none → c.plus = true) :
    calleeMarker.Reads c (Marker.tokens m ++ t :: ts) [] (m.map Marker.kind) c (t :: ts) := by
  refine reads_then reads_peek ?_
  cases m with
  | none =>
      simp only [Marker.tokens, List.nil_append, List.head?_cons, Option.bind_some, ht]
      exact reads_pure
  | some m =>
      simp only [Marker.tokens, List.cons_append, List.nil_append, List.head?_cons,
        Option.bind_some, markedKind?_symbol]
      exact reads_take fun first _ => reads_then (reads_requirePlus (hplus (by simp))) reads_pure

/-- The name of a predicate is one token behind a mark or none. -/
theorem reads_calleeOf {name : Phrase.Term} (hnames : name.Names c.scope)
    (hplain : c.plus = false → name.IsPlain) :
    ∃ (m : Option Marker) (t : Token), name.tokens = Marker.tokens m ++ [t] ∧
      (m ≠ none → c.plus = true) ∧ markedKind? t = none ∧
      ∀ (first : PlacedToken) (ts : List Token), first.token = t →
        (calleeOf first (m.map Marker.kind)).Reads c ts []
          (name.leaf c.scope, name.form c.scope) c ts := by
  cases name with
  | atom kind value =>
      refine ⟨none, .atom kind value, rfl, by simp, rfl, fun first ts hfirst => ?_⟩
      unfold calleeOf
      obtain rfl | rfl | rfl | rfl | rfl := hnames <;> simp only [hfirst]
      · exact reads_then reads_pure reads_pure
      · exact reads_pure
      all_goals exact reads_then reads_pure reads_pure
  | literal value d => exact absurd hnames id
  | qname marker name =>
      have hplus : marker ≠ none → c.plus = true := fun hmarker =>
        plus_of_not hplain (by simpa [Phrase.Term.IsPlain] using hmarker)
      refine ⟨marker, .qname name, rfl, hplus, rfl, fun first ts hfirst => ?_⟩
      unfold calleeOf
      simp only [hfirst]
      refine reads_then (reads_kindOf hnames.1) ?_
      cases marker with
      | none =>
          generalize hkind : c.scope.kind name.qualifier = kind
          cases kind <;> simpa [Phrase.Term.leaf, Phrase.Term.form, Marker.kindOr, hkind] using reads_pure
      | some m =>
          generalize hkind : c.scope.kind name.qualifier = kind
          cases kind with
          | module => simpa using hnames.2 hkind
          | _ => exact reads_pure
  | curie marker name =>
      have hplus : c.plus = true := plus_of_not hplain (by simp [Phrase.Term.IsPlain])
      refine ⟨marker, .curie name, rfl, fun _ => hplus, rfl, fun first ts hfirst => ?_⟩
      unfold calleeOf
      simp only [hfirst]
      exact reads_then (reads_curieLeaf hplus hnames) reads_pure
  | iri m value =>
      have hplus : c.plus = true := plus_of_not hplain (by simp [Phrase.Term.IsPlain])
      refine ⟨some m, .atom .iri value, rfl, fun _ => hplus, rfl, fun first ts hfirst => ?_⟩
      unfold calleeOf
      simp only [hfirst]
      cases m <;> exact reads_pure

/-- A call begins with its name, and the argument list behind it was looked at. -/
theorem reads_predicate {name : Phrase.Term} {arguments : List Token} {shape : CallShape}
    {events : List Event} {ts' : List Token} (hnames : name.Names c.scope)
    (hplain : c.plus = false → name.IsPlain)
    (hshape : ∀ tokens, tokens.map (·.token) = arguments → (callShape 0 tokens).value = some shape)
    (hrest : (if shape.pairs then associationCall (name.leaf c.scope) else
      match callContainer c.rules (name.form c.scope) shape.arity with
      | .builtin builtin hints => within (.builtin builtin hints) Grammar.arguments
      | container => plainCall container (name.leaf c.scope)).Reads c arguments events () c ts') :
    predicate.Reads c (name.tokens ++ arguments) events () c ts' := by
  obtain ⟨m, t, htokens, hplus, ht, hcallee⟩ := reads_calleeOf hnames hplain
  rw [htokens, List.append_assoc]
  refine reads_then (reads_calleeMarker ht hplus) (reads_take fun first hfirst => ?_)
  refine reads_then (reads_look hshape) (reads_then (hcallee first _ hfirst) ?_)
  dsimp only
  cases hpairs : shape.pairs with
  | true => simpa [hpairs] using hrest
  | false =>
      simp only [hpairs, Bool.false_eq_true, if_false] at hrest ⊢
      refine reads_state fun s hs => ?_
      have hrules : s.rules = c.rules := congrArg Setting.rules hs.setting
      rw [hrules]
      exact hrest

theorem reads_callee (name : Leaf) :
    (callee name).Reads c ts (Outline.within .callee [.leaf name]).events () c ts :=
  reads_within .callee reads_emit

theorem reads_plainCall {name : Phrase.Term} {arguments : List Phrase.Term}
    (hrefers : ∀ a ∈ arguments, a.Refers c.scope)
    (hplain : c.plus = false → ∀ a ∈ arguments, a.IsPlain) :
    (match callContainer c.rules (name.form c.scope) arguments.length with
      | .builtin builtin hints => within (.builtin builtin hints) Grammar.arguments
      | container => plainCall container (name.leaf c.scope) : Parser Unit).Reads c
        (.symbol .lparen :: (listed Phrase.Term.tokens arguments ++ .symbol .rparen :: ts))
        ((Call.plain name arguments).outline c.scope).events () c ts := by
  have harguments : Grammar.arguments.Reads c (_ :: (_ ++ _ :: ts)) _ () c ts :=
    reads_arguments hrefers hplain
  split
  · next builtin hints hbuiltin =>
    rw [Call.outline_builtin hbuiltin, Outline.events]
    exact reads_within (.builtin builtin hints) harguments
  · next hcalled =>
    rw [Call.outline_called hcalled]
    have hinner := reads_within (callContainer c.rules (name.form c.scope) arguments.length)
      (reads_bind (f := fun _ => Grammar.arguments) (reads_callee (name.leaf c.scope)) harguments)
    simpa [plainCall, Outline.events, Outline.eventsAll, Call.calleeOutline] using hinner

theorem reads_associationCall {name : Phrase.Term} {roles : List Phrase.Role}
    (hrefers : Category.role.list.Refers c.scope roles)
    (hplain : c.plus = false → Category.role.list.IsPlain roles) :
    (associationCall (name.leaf c.scope)).Reads c
      (.symbol .lparen :: (listed Phrase.Role.tokens roles ++ .symbol .rparen :: ts))
      ((Call.association name roles).outline c.scope).events () c ts := by
  have hitems := accepts_items role_accepts (fun _ => untyped_symbol _ (by simp)) hrefers hplain
    (⟨untyped_symbol _ (by simp), by simp⟩ : Parted Untyped (Token.symbol .rparen :: ts))
  have hlist := reads_bind (f := fun _ => expectMark .rparen) hitems reads_expect
  have hall := reads_within .association (reads_bind (f := fun _ => do
    expectMark .lparen
    items <| within .pair do
      within .player term
      expectMark .colon
      within .roleType term
    expectMark .rparen) (reads_callee (name.leaf c.scope)) (reads_then reads_expect hlist))
  simpa [associationCall, Call.outline, Call.calleeOutline, Category.list, Category.role,
    Category.events, Outline.events, Outline.eventsAll, List.map_eq_flatMap] using hall

theorem predicate_accepts : predicate.Accepts .call fun _ => True := by
  intro c x rest hrefers hplain _
  cases x with
  | plain name arguments =>
      have hshape : ∀ tokens : List PlacedToken,
          tokens.map (·.token) =
            .symbol .lparen :: (listed Phrase.Term.tokens arguments ++ .symbol .rparen :: rest) →
          (callShape 0 tokens).value = some ⟨arguments.length, false, rest.head?⟩ := by
        intro tokens htokens
        have hdrop : (tokens.drop 0).map (·.token) =
            .symbol .lparen :: (listed Phrase.Term.tokens arguments ++ .symbol .rparen :: rest) := htokens
        rw [callShape_arguments hdrop]
      have harguments : ∀ a ∈ arguments, a.Refers c.scope := hrefers.2.1
      have hargumentsPlain : c.plus = false → ∀ a ∈ arguments, a.IsPlain := fun hlegacy =>
        (hplain hlegacy).2
      have hcall := reads_predicate hrefers.1 (fun hlegacy => (hplain hlegacy).1) hshape
        (by simpa [Call.name] using reads_plainCall harguments hargumentsPlain)
      simpa [Category.call, Category.events, Call.tokens, Call.name] using hcall
  | association name roles =>
      have hne : roles ≠ [] := by
        rintro rfl
        exact hrefers.2.2 name rfl
      have hpair : ∀ r ∈ roles, r.player ∈ (Call.association name roles).terms ∧
          r.type ∈ (Call.association name roles).terms := fun r hr =>
        ⟨List.mem_flatMap.mpr ⟨r, hr, by simp⟩, List.mem_flatMap.mpr ⟨r, hr, by simp⟩⟩
      have hshape : ∀ tokens : List PlacedToken,
          tokens.map (·.token) =
            .symbol .lparen :: (listed Phrase.Role.tokens roles ++ .symbol .rparen :: rest) →
          (callShape 0 tokens).value = some ⟨roles.length, true, rest.head?⟩ := by
        intro tokens htokens
        have hdrop : (tokens.drop 0).map (·.token) =
            .symbol .lparen :: (listed Phrase.Role.tokens roles ++ .symbol .rparen :: rest) := htokens
        rw [callShape_roles hne hdrop]
      have hrolesRefer : Category.role.list.Refers c.scope roles :=
        ⟨hne, fun r hr => ⟨hrefers.2.1 _ (hpair r hr).1, hrefers.2.1 _ (hpair r hr).2⟩⟩
      have hrolesPlain : c.plus = false → Category.role.list.IsPlain roles := fun hlegacy r hr =>
        ⟨(hplain hlegacy).2 _ (hpair r hr).1, (hplain hlegacy).2 _ (hpair r hr).2⟩
      have hcall := reads_predicate hrefers.1 (fun hlegacy => (hplain hlegacy).1) hshape
        (by simpa [Call.name] using reads_associationCall hrolesRefer hrolesPlain)
      simpa [Category.call, Category.events, Call.tokens, Call.name] using hcall

/-! ## Clauses -/

theorem reads_comparisonAhead {x : Phrase.Term} {mark : Symbol} (hends : mark ≠ .hatHat) :
    comparisonAhead.Reads c (x.tokens ++ .symbol mark :: ts) [] mark.comparison? c
      (x.tokens ++ .symbol mark :: ts) := by
  have hsize : ∀ tokens : List PlacedToken,
      tokens.map (·.token) = x.tokens ++ .symbol mark :: ts →
      (termSize tokens).value = some x.tokens.length := fun tokens htokens =>
    termSize_term htokens (ends_of_untyped (untyped_symbol _ hends))
  refine reads_then (reads_look hsize) (reads_then reads_peekAt ?_)
  simp only [List.getElem?_append_right (Nat.le_refl _), Nat.sub_self, List.getElem?_cons_zero]
  exact reads_pure

/-- A clause that begins with a term is a comparison or a call. -/
theorem reads_clause_of_term {inner : Parser Unit} {x : Phrase.Term} {mark : Symbol} {events : List Event}
    {ts' : List Token} (hends : mark ≠ .hatHat)
    (h : (match mark.comparison? with
      | some operator => comparison operator
      | none => predicate : Parser Unit).Reads c (x.tokens ++ .symbol mark :: ts) events () c ts') :
    (clause inner).Reads c (x.tokens ++ .symbol mark :: ts) events () c ts' := by
  obtain ⟨t, more, htokens⟩ := List.exists_cons_of_ne_nil x.tokens_ne_nil
  have hhead : (x.tokens ++ Token.symbol mark :: ts).head? = some t := by simp [htokens]
  have hinert : Inert t := inert_of_head? (by rw [htokens]; rfl)
  have hrest : (do
      match ← comparisonAhead with
      | some operator => comparison operator
      | none => predicate : Parser Unit).Reads c (x.tokens ++ .symbol mark :: ts) events () c ts' :=
    reads_then (reads_comparisonAhead hends) h
  refine reads_then reads_peek ?_
  rw [hhead]
  split
  · next hnone => simp at hnone
  · next hnot =>
    rw [Option.some.inj hnot] at hinert
    exact hinert.elim
  · next hlbrace =>
    rw [Option.some.inj hlbrace] at hinert
    simp [Inert] at hinert
  · exact hrest

theorem reads_comparison {operator : Comparison} {left right : Phrase.Term} (hplus : c.plus = true)
    (hrefers : left.Refers c.scope ∧ right.Refers c.scope) (hstop : Untyped ts) :
    (comparison operator).Reads c
      (left.tokens ++ .symbol (operatorSymbol operator) :: (right.tokens ++ ts))
      ((Phrase.Clause.comparison operator left right).outline c.scope).events () c ts := by
  have hlegacy : ∀ {p : Prop}, c.plus = false → p := fun h => by simp [hplus] at h
  have hmark : operatorSymbol operator ≠ .hatHat := by cases operator <;> simp [operatorSymbol]
  have hleft := accepts_within term_accepts .left hrefers.1 hlegacy
    (untyped_symbol _ hmark : Untyped (_ :: (right.tokens ++ ts)))
  have hright := accepts_within term_accepts .right hrefers.2 hlegacy hstop
  have hall := reads_within (.comparison operator) (reads_bind (f := fun _ => do
    let t ← take "an operator"
    requirePlus t "infix predicates"
    within .right term) hleft
    (reads_take fun first _ => reads_then (reads_requirePlus hplus) hright))
  simpa [comparison, Category.events, Category.inside, Category.term, Phrase.Clause.outline,
    Outline.events, Outline.eventsAll] using hall

theorem comparison?_operatorSymbol (operator : Comparison) :
    (operatorSymbol operator).comparison? = some operator := by
  cases operator <;> rfl

/-- Clauses nested no deeper than allowed are read if they are read as items. -/
theorem reads_clausesWithin {xs : Clauses} {depth : Nat} {rest : List Token}
    {events : List Event}
    (h : ∀ n, xs.length ≤ n + 1 →
      (itemsUpTo (clause (clausesWithin depth)) n).Reads c (xs.tokens ++ rest) events () c rest) :
    (clausesWithin (depth + 1)).Reads c (xs.tokens ++ rest) events () c rest := by
  refine reads_state fun s hs => h _ ?_
  have hlength : s.tokens.length = (xs.tokens ++ rest).length := by
    rw [← hs.ahead, State.ahead, List.length_map]
  have := xs.length_le
  rw [hlength, List.length_append]
  omega

/-- Behind branches there is no comma and no bar. -/
structure Closed (rest : List Token) : Prop where
  parted : Parted Untyped rest
  bar : ∀ shortCircuit, rest.head? ≠ some (.symbol (barSymbol shortCircuit))

theorem parted_symbol (mark : Symbol) (hhat : mark ≠ .hatHat) (hcomma : mark ≠ .comma) :
    Parted Untyped (.symbol mark :: ts) :=
  ⟨untyped_symbol _ hhat, by simpa using hcomma⟩

theorem reads_branch {inner : Clauses} {depth : Nat} {shortCircuit : Bool} {rest : List Token}
    (h : ∀ n, inner.length ≤ n + 1 →
      (itemsUpTo (clause (clausesWithin depth)) n).Reads c (inner.tokens ++ rest)
        (Outline.eventsAll (inner.outlines c.scope)) () c rest) :
    (within (.branch shortCircuit) (clausesWithin (depth + 1))).Reads c (inner.tokens ++ rest)
      (Outline.within (.branch shortCircuit) (inner.outlines c.scope)).events () c rest := by
  rw [Outline.events]
  exact reads_within _ (reads_clausesWithin h)

mutual

theorem reads_clause {c : Setting} (x : Phrase.Clause) {depth : Nat} {rest : List Token}
    (hdepth : x.depth ≤ depth) (hrefers : x.Refers c.scope) (hplain : c.plus = false → x.IsPlain)
    (hstop : Untyped rest) :
    (clause (clausesWithin depth)).Reads c (x.tokens ++ rest) (x.outline c.scope).events () c
      rest := by
  match x with
  | .negation inner =>
      obtain ⟨depth, rfl⟩ : ∃ d, depth = d + 1 :=
        ⟨depth - 1, by simp only [Phrase.Clause.depth] at hdepth; omega⟩
      simp only [Phrase.Clause.tokens, Phrase.Clause.outline, Outline.events, List.cons_append,
        List.append_assoc, List.nil_append]
      refine reads_then reads_peek (reads_take? fun first _ => reads_within .negation ?_)
      refine reads_then reads_expect (reads_last (reads_clausesWithin fun n hn => ?_) reads_expect)
      exact reads_clauses inner (by simp only [Phrase.Clause.depth] at hdepth; omega) hn hrefers hplain
        (parted_symbol _ (by simp) (by simp))
  | .alternatives branches =>
      simp only [Phrase.Clause.tokens, Phrase.Clause.outline, Outline.events, List.cons_append,
        List.append_assoc, List.nil_append]
      refine reads_then reads_peek (reads_take? fun first _ => reads_within .alternatives ?_)
      refine reads_state fun s hs => reads_last (a := ()) ?_ reads_expect
      have hlength : s.tokens.length = (branches.tokens ++ .symbol .rbrace :: rest).length := by
        rw [← hs.ahead, State.ahead, List.length_map]
      have hbranches := branches.length_le
      refine reads_branches branches (by simp only [Phrase.Clause.depth] at hdepth; omega) ?_ hrefers
        hplain ⟨parted_symbol _ (by simp) (by simp), fun shortCircuit => ?_⟩
      · rw [hlength, List.length_append]
        omega
      · cases shortCircuit <;> simp [barSymbol]
  | .comparison operator left right =>
      have hplus : c.plus = true := plus_of_not hplain (by simp [Phrase.Clause.IsPlain])
      have hmark : operatorSymbol operator ≠ .hatHat := by
        cases operator <;> simp [operatorSymbol]
      simp only [Phrase.Clause.tokens, List.cons_append, List.append_assoc]
      refine reads_clause_of_term hmark ?_
      rw [comparison?_operatorSymbol]
      exact reads_comparison hplus hrefers hstop
  | .call call =>
      obtain ⟨behind, hbehind⟩ := tokens_call call
      have hcall : predicate.Reads c (call.tokens ++ rest) (call.outline c.scope).events () c
          rest := by
        simpa [Category.call, Category.events] using predicate_accepts hrefers hplain trivial
      simp only [Phrase.Clause.tokens, Phrase.Clause.outline]
      rw [hbehind, List.append_assoc, List.cons_append] at hcall ⊢
      exact reads_clause_of_term (by simp) hcall

theorem reads_clauses {c : Setting} (xs : Clauses) {depth n : Nat} {rest : List Token}
    (hdepth : xs.depth ≤ depth) (hn : xs.length ≤ n + 1) (hrefers : xs.Refers c.scope)
    (hplain : c.plus = false → xs.IsPlain) (hstop : Parted Untyped rest) :
    (itemsUpTo (clause (clausesWithin depth)) n).Reads c (xs.tokens ++ rest)
      (Outline.eventsAll (xs.outlines c.scope)) () c rest := by
  match xs, n with
  | .last x, 0 =>
      simpa [Clauses.tokens, Clauses.outlines, itemsUpTo] using
        reads_clause x hdepth hrefers hplain hstop.1
  | .last x, n + 1 =>
      simp only [Clauses.tokens, Clauses.outlines, Outline.eventsAll_singleton]
      exact reads_last (reads_clause x hdepth hrefers hplain hstop.1)
        (reads_then (reads_accept_other hstop.2) reads_pure)
  | .cons x xs, 0 =>
      have := xs.length_pos
      simp only [Clauses.length] at hn
      omega
  | .cons x xs, n + 1 =>
      simp only [Clauses.depth] at hdepth
      simp only [Clauses.tokens, Clauses.outlines, Outline.eventsAll, List.append_assoc,
        List.cons_append]
      refine reads_bind (reads_clause x (by omega) hrefers.1 (fun hlegacy => (hplain hlegacy).1)
        (untyped_symbol _ (by simp))) (reads_then reads_accept ?_)
      exact reads_clauses xs (by omega) (by simpa [Clauses.length] using hn) hrefers.2
        (fun hlegacy => (hplain hlegacy).2) hstop

theorem reads_branches {c : Setting} (bs : Branches) {depth n : Nat} {shortCircuit : Bool}
    {rest : List Token} (hdepth : bs.depth < depth) (hn : bs.length ≤ n + 1)
    (hrefers : bs.Refers c.scope) (hplain : c.plus = false → bs.IsPlain) (hstop : Closed rest) :
    (branchesUpTo (clausesWithin depth) shortCircuit n).Reads c (bs.tokens ++ rest)
      (Outline.eventsAll (bs.outlines c.scope shortCircuit)) () c rest := by
  obtain ⟨depth, rfl⟩ : ∃ d, depth = d + 1 := ⟨depth - 1, by omega⟩
  match bs, n with
  | .last inner, 0 =>
      simp only [Branches.depth] at hdepth
      simp only [Branches.tokens, Branches.outlines, Outline.eventsAll_singleton]
      exact reads_branch fun m hm => reads_clauses inner (by omega) hm hrefers hplain hstop.parted
  | .last inner, n + 1 =>
      simp only [Branches.depth] at hdepth
      simp only [Branches.tokens, Branches.outlines, Outline.eventsAll_singleton]
      refine reads_last (reads_branch fun m hm => reads_clauses inner (by omega) hm hrefers hplain
        hstop.parted) (reads_then reads_peek ?_)
      split
      · next hbar => exact absurd hbar (hstop.bar false)
      · next hbar => exact absurd hbar (hstop.bar true)
      · exact reads_pure
  | .cons inner next bs, 0 =>
      have := bs.length_pos
      simp only [Branches.length] at hn
      omega
  | .cons inner next bs, n + 1 =>
      simp only [Branches.depth] at hdepth
      simp only [Branches.tokens, Branches.outlines, Outline.eventsAll, List.append_assoc,
        List.cons_append]
      have hbar : Parted Untyped (.symbol (barSymbol next) :: (bs.tokens ++ rest)) := by
        cases next <;> exact parted_symbol _ (by simp [barSymbol]) (by simp [barSymbol])
      refine reads_bind (reads_branch fun m hm => reads_clauses inner (by omega) hm hrefers.1
        (fun hlegacy => (hplain hlegacy).1) hbar) (reads_then reads_peek ?_)
      have hrest : (branchesUpTo (clausesWithin (depth + 1)) next n).Reads c (bs.tokens ++ rest)
          (Outline.eventsAll (bs.outlines c.scope next)) () c rest :=
        reads_branches bs (by omega) (by simpa [Branches.length] using hn) hrefers.2
          (fun hlegacy => (hplain hlegacy).2) hstop
      cases next <;> exact reads_take? fun first _ => hrest

end

theorem clauses_accepts : Grammar.clauses.Accepts .clauses (Parted Untyped) := by
  intro c xs rest hrefers hplain hstop
  refine reads_state fun s hs => ?_
  have hlength : s.tokens.length = (xs.tokens ++ rest).length := by
    have hahead : s.ahead = xs.tokens ++ rest := hs.ahead
    rw [← hahead, State.ahead, List.length_map]
  have hdepth := xs.depth_le
  refine reads_clausesWithin fun n hn => reads_clauses xs ?_ hn hrefers hplain hstop
  rw [hlength, List.length_append]
  omega

end Terms

end TopicQuery.Grammar
