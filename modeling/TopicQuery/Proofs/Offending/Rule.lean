import TopicQuery.Proofs.Accepted.Document
import TopicQuery.Proofs.Offending.Statement
import TopicQuery.Proofs.Recognized.Document

/-!
Rules and queries in two runs that begin alike. A name with a parenthesis behind it
begins a rule in one run and a query in the other if the runs part within the
parentheses: then the parameters of the rule are compared with the arguments of the
call.
-/

namespace TopicQuery.Grammar

open Parser Phrase

/-- A rule is seen: a name with an argument list and `:-` behind it. -/
def RuleSeen (tokens : List PlacedToken) : Prop :=
  ∃ t rest name shape, tokens = t :: rest ∧ t.token = .atom .identifier name ∧
    (callShape 0 rest).value = some shape ∧ shape.next = some (.symbol .implies)

/-- What follows the name of a rule. -/
def ruleBehind (name : String) : Parser Unit := do
  expectMark .lparen
  within (.rule name) do
    parameters
    expectMark .implies
    within .body Grammar.clauses
    expectMark .dot

theorem rule_eq :
    rule = take "a rule name" >>= fun t => atomOf .identifier "a rule name" t >>= ruleBehind := by
  rw [rule, takeAtom_eq, bind_assoc]
  rfl

section Seen

variable {s s' : State} {events : List Event} {found : Bool}

theorem atRule_sees (h : atRule.Runs s events found s') :
    (found = true ↔ RuleSeen s.tokens) ∧ s' = s := by
  obtain ⟨_, token, s₁, _, hpeek, h₁, -⟩ := runs_bind.mp h
  obtain ⟨-, htoken, rfl, -⟩ := runs_peek.mp hpeek
  split at h₁
  · next name =>
    obtain ⟨t, rest, htokens, ht⟩ := exists_cons_of_head? htoken
    obtain ⟨_, shape, s₂, _, hlook, h₂, -⟩ := runs_bind.mp h₁
    obtain ⟨-, hshape, rfl, -⟩ := runs_look.mp hlook
    have hseen : (callShape 0 rest).value = shape := by
      rw [← hshape, htokens]
      rfl
    cases shape with
    | none =>
        obtain ⟨-, rfl, rfl⟩ := runs_pure.mp h₂
        refine ⟨⟨nofun, ?_⟩, rfl⟩
        rintro ⟨t', rest', name', shape, hcons, -, hsome, -⟩
        obtain ⟨rfl, rfl⟩ := List.cons.inj (htokens.symm.trans hcons)
        rw [hseen] at hsome
        cases hsome
    | some shape =>
        obtain ⟨-, rfl, rfl⟩ := runs_pure.mp h₂
        refine ⟨?_, rfl⟩
        rw [decide_eq_true_iff]
        constructor
        · exact fun hnext => ⟨t, rest, name, shape, htokens, ht, hseen, hnext⟩
        · rintro ⟨t', rest', name', shape', hcons, -, hsome, hnext⟩
          obtain ⟨rfl, rfl⟩ := List.cons.inj (htokens.symm.trans hcons)
          obtain rfl := Option.some.inj (hseen.symm.trans hsome)
          exact hnext
  · next hother =>
    obtain ⟨-, rfl, rfl⟩ := runs_pure.mp h₁
    refine ⟨⟨nofun, ?_⟩, rfl⟩
    rintro ⟨t, rest, name, shape, htokens, ht, -⟩
    refine (hother name ?_).elim
    rw [← htoken, State.ahead, htokens, List.map_cons, ht]
    rfl

theorem gives_atRule_true (h : RuleSeen s.tokens) : atRule.Gives s true s := fun _ _ _ hruns =>
  ⟨(atRule_sees hruns).1.mpr h, (atRule_sees hruns).2⟩

theorem gives_atRule_false (h : ¬RuleSeen s.tokens) : atRule.Gives s false s := fun _ _ _ hruns =>
  ⟨Bool.eq_false_iff.mpr (mt (atRule_sees hruns).1.mp h), (atRule_sees hruns).2⟩

/-! ## Parameters that are seen in full -/

/-- Of parameters that are closed both looks see the same. -/
theorem callShape_parameters {lparen : PlacedToken} {pre left : List PlacedToken}
    {names : List String} (t : PlacedToken) (rest rest' : List PlacedToken)
    (hopens : lparen.token = .symbol .lparen)
    (h : pre.map (·.token) =
      Category.parameter.list.tokens names ++ .symbol .rparen :: left.map (·.token)) :
    (callShape 0 (lparen :: (pre ++ t :: rest))).value =
      (callShape 0 (lparen :: (pre ++ t :: rest'))).value := by
  have hseen : ∀ more : List PlacedToken, (callShape 0 (lparen :: (pre ++ t :: more))).value =
      some ⟨(names.map (Phrase.Term.atom .var)).length, false,
        (left.map (·.token) ++ [t.token]).head?⟩ := by
    intro more
    have hahead : ((lparen :: (pre ++ t :: more)).drop 0).map (·.token) = .symbol .lparen ::
        (listed Phrase.Term.tokens (names.map (.atom .var)) ++ .symbol .rparen ::
          (left.map (·.token) ++ t.token :: more.map (·.token))) := by
      rw [parameter_tokens] at h
      simp [h, hopens]
    rw [callShape_arguments hahead]
    cases left <;> rfl
  rw [hseen, hseen]

/-! ## Queries that are calls -/

theorem calleeOf_identifier {t : PlacedToken} {name : String}
    (h : t.token = .atom .identifier name) :
    calleeOf t none = pure (.atom .identifier name, .plain name) := by
  unfold calleeOf
  rw [h]
  rfl

/-- A call is accepted from its name if its arguments are, be they pairs or not. -/
theorem argumentList_of_predicate {t lparen : PlacedToken} {rest : List PlacedToken} {name : String}
    (ht : t.token = .atom .identifier name) (htokens : s.tokens = t :: lparen :: rest)
    (h : predicate.Succeeds s) :
    ∃ pairs, (argumentList pairs).Succeeds ((s.behind t (lparen :: rest)).behind lparen rest) := by
  rw [predicate_eq, calleeMarker, bind_assoc] at h
  have hcallee := succeeds_rest gives_peek h
  have hhead : s.ahead.head? = some (.atom .identifier name) := by simp [State.ahead, htokens, ht]
  rw [hhead, Option.bind_some, show markedKind? (.atom .identifier name) = none from rfl] at hcallee
  simp only [pure_bind] at hcallee
  have hlook := succeeds_rest (gives_take htokens _) hcallee
  have hnamed := succeeds_rest (gives_look _) hlook
  cases hseen : (callShape 0 (s.behind t (lparen :: rest)).tokens).value with
  | none =>
      rw [hseen] at hnamed
      exact (Spot.not_succeeds_named_none hnamed).elim
  | some shape =>
      rw [hseen, named, calleeOf_identifier ht, pure_bind] at hnamed
      obtain ⟨events, a, s', hruns⟩ := hnamed
      obtain ⟨p, e, hp, happly⟩ := called_apply shape (.atom .identifier name, .plain name)
        (s.behind t (lparen :: rest))
      have hexpect := succeeds_rest (hp.gives _) ⟨events, a, s', happly.symm.trans hruns⟩
      have harguments := succeeds_rest (gives_expect rfl _) hexpect
      exact ⟨shape.pairs, succeeds_first harguments⟩

theorem operatorSeen_identifier {t lparen : PlacedToken} {rest : List PlacedToken} {name : String}
    (ht : t.token = .atom .identifier name) (hopens : lparen.token = .symbol .lparen) :
    operatorSeen (t :: lparen :: rest) = none := by
  rw [operatorSeen_alone (.inl ⟨_, _, ht⟩) (by simp [ht]), hopens]
  rfl

/-- A text that is a name and a parenthesis is accepted as a query if the arguments are. -/
theorem argumentList_of_ending {t lparen : PlacedToken} {rest : List PlacedToken} {name : String}
    (ht : t.token = .atom .identifier name) (hopens : lparen.token = .symbol .lparen)
    (htokens : s.tokens = t :: lparen :: rest) (h : ending.Succeeds s) :
    ∃ pairs, (argumentList pairs).Succeeds ((s.behind t (lparen :: rest)).behind lparen rest) := by
  have hhead : s.ahead.head? = some (.atom .identifier name) := by simp [State.ahead, htokens, ht]
  have hstatement := succeeds_rest gives_peek (succeeds_first h)
  rw [hhead] at hstatement
  have hquery := succeeds_rest gives_peek hstatement
  rw [hhead] at hquery
  have hclauses := succeeds_within (succeeds_first (succeeds_within hquery))
  have hitems := succeeds_rest gives_state hclauses
  have hclause := succeeds_rest gives_peek (succeeds_items hitems)
  rw [hhead] at hclause
  have hcall := succeeds_rest gives_comparisonAhead hclause
  rw [htokens, operatorSeen_identifier ht hopens] at hcall
  exact argumentList_of_predicate ht htokens hcall

end Seen

namespace Spot

variable {o : Spot} {β : Type} {pre : List PlacedToken} {s s' : State} {u : PlacedToken}

/-! ## Rules and endings go along -/

theorem steady_parameter : o.Steady parameter parameter := by
  refine steady_take fun u => ?_
  split
  · exact judged_of_steady (steady_emit _ _)
  · exact judged_failExpected

theorem judged_unexpected :
    o.Judged u (failAt u (.unexpected u.token) : Parser Unit) (failAt u (.unexpected u.token)) := by
  refine ⟨.inl fun s' => ?_, fun hu => steady_fail (not_blames_apart hu fun _ hfound =>
    (Option.some.inj hfound).symm)⟩
  rintro ⟨_, _, _, h⟩
  exact runs_failAt.mp h

section Rules

variable (hspared : ∀ g, Foreseen o.before o.token o.behind g → o.spared g)

include hspared

theorem steady_ruleBehind (name : String) : o.Steady (ruleBehind name) (ruleBehind name) :=
  steady_bind (steady_expect _) fun _ => steady_within (steady_bind
    ⟨quits_listing steady_parameter.quits, fun _ _ _ h =>
      lockedAt_listing steady_parameter.quits steady_parameter.locked h⟩
    fun _ => steady_bind (steady_expect _) fun _ =>
      steady_bind (steady_within (steady_clauses hspared)) fun _ => steady_expect _)

theorem judged_rule (u : PlacedToken) :
    o.Judged u (atomOf .identifier "a rule name" u >>= ruleBehind)
      (atomOf .identifier "a rule name" u >>= ruleBehind) :=
  judged_bind (judged_atomOf _ _ u) (steady_ruleBehind hspared)

theorem steady_rule : o.Steady rule rule := by
  rw [rule_eq]
  exact steady_take (judged_rule hspared)

theorem steady_optionalStatement : o.Steady optionalStatement optionalStatement := by
  refine steady_bind steady_peek fun token => ?_
  split
  · exact steady_pure ()
  · exact steady_pure ()
  · exact steady_statement hspared

omit hspared in
/-- Nothing stands behind the statement but a question mark. -/
theorem ending_steady :
    ∃ rest : Parser Unit, ending = optionalStatement >>= (fun _ => rest) ∧ o.Steady rest rest :=
  ⟨_, rfl, steady_bind (steady_accept _) fun _ => steady_take? (quits_pure ()) fun _ =>
    judged_unexpected⟩

theorem steady_ending : o.Steady ending ending := by
  obtain ⟨rest, heq, hrest⟩ := ending_steady (o := o)
  rw [heq]
  exact steady_bind (steady_optionalStatement hspared) fun _ => hrest

omit hspared in
theorem silent_atRule : o.Silent atRule := by
  intro s fault h
  obtain h | ⟨_, token, s₁, -, h⟩ := stops_bind.mp h
  · exact silent_peek _ _ h
  · split at h
    · obtain h | ⟨_, shape, s₂, -, h⟩ := stops_bind.mp h
      · exact silent_look _ _ _ h
      · cases shape <;> exact (stops_pure.mp h).elim
    · exact (stops_pure.mp h).elim

omit hspared in
theorem quits_atRule : o.Quits atRule := by
  refine quits_of_gives silent_atRule fun s => ?_
  by_cases hseen : RuleSeen s.tokens
  · exact ⟨true, gives_atRule_true hseen⟩
  · exact ⟨false, gives_atRule_false hseen⟩

theorem quits_rules (n : Nat) : o.Quits (rules n) := by
  induction n with
  | zero => exact quits_pure ()
  | succ n ih =>
      refine quits_bind quits_atRule fun found => ?_
      split
      · exact quits_bind (steady_rule hspared).quits fun _ => ih
      · exact quits_pure ()

end Rules

/-! ## Parameters and arguments -/

theorem termLeaf_var {name : String} (h : u.token = .atom .var name) :
    termLeaf u = pure (.atom .var name) := by
  unfold termLeaf
  rw [h]

/-- Where a rule takes a parameter and a query a term, the first run is the one of the rule. -/
theorem lockedAt_parameter_term
    (hspared : ∀ g, Foreseen o.before o.token o.behind g → o.spared g)
    (hrule : InRuleHead (o.token :: o.behind)) (h : o.Fork pre s s') :
    o.LockedAt pre s s' parameter term := by
  refine lockedAt_take h (fun _ => ?_) fun u pre₁ s₁ s₁' _ hu h₁ => ?_
  · by_cases hbegins : BeginsTerm o.token.token
    · refine .inr ?_
      split
      · exact quits_emit _
      · exact quits_fail (not_blames_spared (hspared _ (.parameter hbegins hrule)))
    · exact .inl fun s' => mt succeeds_first (not_succeeds_termLeaf hbegins)
  · split
    · next name hvar =>
      rw [termLeaf_var hvar, pure_bind]
      exact (steady_emit _ _).locked _ _ _ h₁
    · exact (over_failExpected hu).lockedAt

/-- Where a query takes a term and a rule a parameter, the second run is the one of the rule. -/
theorem lockedAt_term_parameter (h : o.Fork pre s s') : o.LockedAt pre s s' term parameter := by
  refine lockedAt_take h (fun _ => ?_) fun u pre₁ s₁ s₁' _ hu h₁ => ?_
  · split
    · next name hvar =>
      rw [termLeaf_var hvar, pure_bind]
      exact .inr (quits_emit _)
    · exact .inl fun s' => not_succeeds_failExpected
  · split
    · next name hvar =>
      rw [termLeaf_var hvar, pure_bind]
      exact (steady_emit _ _).locked _ _ _ h₁
    · exact fun hsucceeds => (not_succeeds_failExpected hsucceeds).elim

/-! ## Steps past the token -/

theorem over_expect {token : Token} {f : Unit → Parser β} {rest : List PlacedToken}
    (htokens : s.tokens = u :: rest) (hu : u.token = token) (hf : o.Over (s.behind u rest) (f ())) :
    o.Over s (expect token >>= f) := by
  rw [expect, bind_assoc]
  refine over_take htokens ?_
  rwa [if_pos hu, pure_bind]

section Queries

variable (hspared : ∀ g, Foreseen o.before o.token o.behind g → o.spared g)

include hspared

/-- A query that begins with a name is past the token if its first clause is. -/
theorem over_ending {name : String} (hhead : s.ahead.head? = some (.atom .identifier name))
    (hclause : ∀ inner : Parser Unit, o.Over s (clause inner)) : o.Over s ending := by
  have hclauses : o.Over s Grammar.clauses := by
    refine over_state ?_
    rw [clausesWithin]
    refine over_state ?_
    rw [itemsUpTo_eq]
    exact over_bind (hclause _) fun _ =>
      quits_moreUpTo (steady_clause hspared (steady_clausesWithin hspared _ 0)).quits _
  have hquery : o.Over s bareQuery := over_within (over_bind (over_within hclauses) fun _ =>
    quits_bind steady_sorting.quits fun _ => steady_extent.quits)
  obtain ⟨rest, heq, hrest⟩ := ending_steady (o := o)
  rw [heq]
  refine over_bind (over_peek ?_) fun _ => hrest.quits
  rw [hhead]
  refine over_peek ?_
  rw [hhead]
  exact hquery

omit hspared in
theorem over_clause {name : String} {inner : Parser Unit}
    (hhead : s.ahead.head? = some (.atom .identifier name))
    (hcomparison : ∀ operator, operatorSeen s.tokens = some operator →
      o.Over s (comparison operator))
    (hpredicate : operatorSeen s.tokens = none → o.Over s predicate) :
    o.Over s (clause inner) := by
  refine over_peek ?_
  rw [hhead]
  refine over_rest silent_comparisonAhead gives_comparisonAhead ?_
  cases hseen : operatorSeen s.tokens with
  | none => exact hpredicate hseen
  | some operator => exact hcomparison operator hseen

omit hspared in
/-- Behind its name a call is past the token if its arguments are. -/
theorem over_called {lparen : PlacedToken} {rest : List PlacedToken} {shape : CallShape}
    {name : Leaf × NameForm} (hopens : lparen.token = .symbol .lparen)
    (htokens : s.tokens = lparen :: rest)
    (harguments : o.Over (s.behind lparen rest) (argumentList shape.pairs)) :
    o.Over s (called shape name) := by
  obtain ⟨p, e, hp, happly⟩ := called_apply shape name s
  exact over_congr happly (over_rest (silent_reports hp) (hp.gives s)
    (over_expect htokens hopens (over_bind harguments fun _ => quits_emit e)))

end Queries

/-! ## A rule in one run and a query in the other -/

theorem map_of_passes {names : List String} {left rest : List PlacedToken} {s₁ : State}
    (h : s.Passes (Category.parameter.list.tokens names ++ [Token.symbol .rparen]) s₁)
    (htokens : s.tokens = pre ++ rest) (hleft : s₁.tokens = left ++ rest) :
    pre.map (·.token) =
      Category.parameter.list.tokens names ++ .symbol .rparen :: left.map (·.token) := by
  have hahead := h.ahead
  rw [State.ahead, State.ahead, htokens, hleft, List.map_append, List.map_append,
    ← List.append_assoc] at hahead
  rw [List.append_cancel_right hahead, List.append_assoc]
  rfl

/-- The parameters of a rule that the second run does not see are past the token. -/
theorem over_parameters (hspared : ∀ g, Foreseen o.before o.token o.behind g → o.spared g)
    {lparen : PlacedToken} (hopens : lparen.token = .symbol .lparen) (h : o.Fork pre s s')
    {shape : CallShape} (hshape : (callShape 0 (lparen :: s.tokens)).value = some shape)
    (hnext : shape.next = some (.symbol .implies))
    (hunseen : ∀ shape', (callShape 0 (lparen :: s'.tokens)).value = some shape' →
      shape'.next ≠ some (.symbol .implies))
    {pairs : Bool} (hsucceeds : (argumentList pairs).Succeeds s') : o.Over s parameters := by
  have hrule : InRuleHead (o.token :: o.behind) := by
    obtain ⟨_, _, seen, hcons, -, hseen, -, hseenNext⟩ := shapeFrom_of_callShape hshape
    obtain ⟨rfl, rfl⟩ := List.cons.inj hcons
    rw [h.tokens] at hseen
    obtain heq | ⟨depth, commas, seenPairs, hdepth, hopen⟩ :=
      shapeFrom_forks pre o.token o.behind o.behind' Nat.one_pos
    · rw [hseen, ← h.tokens'] at heq
      obtain ⟨shape', hshape', hnext'⟩ := callShape_of_shapeFrom hopens heq.symm
      exact absurd (hnext'.trans (hseenNext.trans hnext)) (hunseen shape' hshape')
    · rw [hopen] at hseen
      have hmap := next_shapeFrom depth commas 0 seenPairs false (o.token :: o.behind)
      rw [hseen, Option.map_some] at hmap
      obtain ⟨head, hhead, hheadNext⟩ := Option.map_eq_some_iff.mp hmap.symm
      exact ⟨depth, head, hdepth, hhead, hheadNext.trans (hseenNext.trans hnext)⟩
  have hlocked : o.LockedAt pre s s' parameters (argumentList pairs) := by
    cases pairs with
    | false =>
        exact lockedAt_listing steady_parameter.quits
          (fun _ _ _ hfork => lockedAt_parameter_term hspared hrule hfork) h
    | true =>
        exact lockedAt_listing_roles h steady_parameter.quits
          (fun _ _ _ hfork => lockedAt_parameter_term hspared hrule hfork)
          fun _ _ _ _ hcolon => hspared _ (.parameterPair hcolon hrule)
  have halong := hlocked hsucceeds
  refine ⟨halong.stops, fun events a s₁ hruns => (halong.runs _ _ _ hruns).resolve_right ?_⟩
  -- if the parentheses were closed, the second run would see the rule
  rintro ⟨left, _, s₁', -, h₁, -⟩
  obtain ⟨names, hpasses, -⟩ := parameters_runs hruns
  have hclosed := callShape_parameters o.token o.behind o.behind' hopens
    (map_of_passes hpasses h.tokens h₁.tokens)
  rw [← h.tokens, ← h.tokens', hshape] at hclosed
  exact hunseen shape hclosed.symm hnext

/-- The arguments of a call that the second run sees as a rule are past the token. -/
theorem over_argumentList (hspared : ∀ g, Foreseen o.before o.token o.behind g → o.spared g)
    {lparen : PlacedToken} (hopens : lparen.token = .symbol .lparen) (h : o.Fork pre s s')
    (hbefore : lparen :: pre <:+ o.before) {shape shape' : CallShape}
    (hshape : (callShape 0 (lparen :: s.tokens)).value = some shape)
    (hshape' : (callShape 0 (lparen :: s'.tokens)).value = some shape')
    (hnext' : shape'.next = some (.symbol .implies))
    (hunseen : shape.next ≠ some (.symbol .implies)) (hsucceeds : parameters.Succeeds s') :
    o.Over s (argumentList shape.pairs) := by
  have hlocked : o.LockedAt pre s s' (argumentList shape.pairs) parameters := by
    cases hpairs : shape.pairs with
    | false =>
        exact lockedAt_listing steady_term.quits
          (fun _ _ _ hfork => lockedAt_term_parameter hfork) h
    | true =>
        obtain ⟨_, _, seen, hcons, -, hseen, hseenPairs, -⟩ := shapeFrom_of_callShape hshape
        obtain ⟨rfl, rfl⟩ := List.cons.inj hcons
        exact lockedAt_roles_listing hspared h (fun _ _ _ hfork => lockedAt_term_parameter hfork)
          hopens hbefore hseen (hseenPairs.trans hpairs)
  have halong := hlocked hsucceeds
  refine ⟨halong.stops, fun events a s₁ hruns => (halong.runs _ _ _ hruns).resolve_right ?_⟩
  rintro ⟨left, _, s₁', hruns', h₁, -⟩
  obtain ⟨names, hpasses, -⟩ := parameters_runs hruns'
  have hclosed := callShape_parameters o.token o.behind o.behind' hopens
    (map_of_passes hpasses h.tokens' h₁.tokens')
  rw [← h.tokens, ← h.tokens', hshape, hshape'] at hclosed
  exact hunseen (Option.some.inj hclosed ▸ hnext')

/-- The first run takes a rule where the second one takes a query. -/
theorem over_rule (hspared : ∀ g, Foreseen o.before o.token o.behind g → o.spared g)
    (h : o.Fork pre s s') (hseen : RuleSeen s.tokens) (hunseen : ¬RuleSeen s'.tokens)
    (hsucceeds : ending.Succeeds s') : o.Over s rule := by
  obtain ⟨t, behind, name, shape, htokens, ht, hshape, hnext⟩ := hseen
  obtain ⟨lparen, inner, seen, rfl, hopens, hinner, -, hseenNext⟩ := shapeFrom_of_callShape hshape
  rw [rule_eq]
  refine over_take htokens ?_
  rw [atomOf_self ht, pure_bind]
  match pre with
  | [] =>
      obtain ⟨rfl, hbehind⟩ := List.cons.inj (h.nil.1.symm.trans htokens)
      rw [← hbehind]
      exact (steady_ruleBehind hspared name).quits _ h.clear
  | [u] =>
      obtain ⟨rfl, htail⟩ := List.cons.inj (h.tokens.symm.trans htokens)
      obtain ⟨rfl, rfl⟩ := List.cons.inj htail
      have h₁ := h.next htokens h.tokens'
      refine over_expect rfl hopens (quits_within (quits_bind (quits_listing steady_parameter.quits)
        fun _ => ?_) _ h₁.clear)
      exact quits_bind (steady_expect _).quits fun _ => quits_bind
        (quits_within (steady_clauses hspared).quits) fun _ => (steady_expect _).quits
  | u :: v :: pre =>
      obtain ⟨rfl, htail⟩ := List.cons.inj (h.tokens.symm.trans htokens)
      obtain ⟨rfl, rfl⟩ := List.cons.inj htail
      have h₂ := (h.next htokens h.tokens').next rfl rfl
      obtain ⟨pairs, harguments⟩ := argumentList_of_ending ht hopens h.tokens' hsucceeds
      refine over_expect rfl hopens (over_within (over_bind ?_ fun _ =>
        quits_bind (steady_expect _).quits fun _ => quits_bind
          (quits_within (steady_clauses hspared).quits) fun _ => (steady_expect _).quits))
      exact over_parameters hspared hopens h₂ hshape hnext (fun shape' hshape' hnext' =>
        hunseen ⟨u, _, name, shape', h.tokens', ht, hshape', hnext'⟩) harguments

/-- The first run takes a query where the second one takes a rule. -/
theorem over_ending_of_rule (hspared : ∀ g, Foreseen o.before o.token o.behind g → o.spared g)
    (h : o.Fork pre s s') (hunseen : ¬RuleSeen s.tokens) (hseen : RuleSeen s'.tokens)
    (hsucceeds : rule.Succeeds s') : o.Over s ending := by
  obtain ⟨t, behind, name, shape, htokens', ht, hshape, hnext⟩ := hseen
  obtain ⟨lparen, inner, seen, rfl, hopens, -⟩ := shapeFrom_of_callShape hshape
  cases pre with
  | nil =>
      obtain rfl : o.token = t := (List.cons.inj (h.nil.2.symm.trans htokens')).1
      have hbegins : BeginsTerm o.token.token := ht ▸ Alone.beginsTerm (.inl ⟨_, _, rfl⟩)
      have hhead : s.ahead.head? = some (.atom .identifier name) := by
        simp [State.ahead, h.nil.1, ht]
      exact over_ending hspared hhead fun _ => over_clause hhead
        (fun _ _ => over_comparison (over_term h hbegins)) fun _ => over_predicate hspared h hbegins
  | cons u pre =>
      obtain ⟨w, rest, rest', htokens, hcons⟩ := h.second
      obtain ⟨rfl, hbehind⟩ := List.cons.inj (hcons.symm.trans htokens')
      obtain ⟨rfl, rfl⟩ := List.cons.inj hbehind
      have hhead : s.ahead.head? = some (.atom .identifier name) := by
        simp [State.ahead, htokens, ht]
      refine over_ending hspared hhead fun _ => over_clause hhead (fun operator hoperator => ?_)
        fun _ => over_predicate_unmarked htokens (by rw [ht]; rfl) ?_
      · rw [htokens, operatorSeen_identifier ht hopens] at hoperator
        cases hoperator
      have h₁ := h.next htokens htokens'
      cases hseen : (callShape 0 (w :: rest)).value with
      | none =>
          refine over_take? rfl ?_
          cases pre with
          | nil =>
              obtain ⟨rfl, rfl⟩ := List.cons.inj h₁.nil.1
              exact over_fail (not_blames_spared (hspared _ (.unclosed hopens hseen)))
          | cons v pre =>
              obtain ⟨rfl, -⟩ := List.cons.inj h₁.tokens
              exact over_failExpected (h₁.apart w List.mem_cons_self)
      | some shape₁ =>
          rw [named, calleeOf_identifier ht, pure_bind]
          refine over_called hopens rfl ?_
          cases pre with
          | nil =>
              obtain ⟨rfl, rfl⟩ := List.cons.inj h₁.nil.1
              exact quits_argumentList _ _ h₁.clear
          | cons v pre =>
              obtain ⟨rfl, -⟩ := List.cons.inj h₁.tokens
              refine over_argumentList hspared hopens (h₁.next rfl rfl) h₁.before hseen hshape hnext
                (fun hnext₁ => hunseen ⟨u, _, name, shape₁, htokens, ht, hseen, hnext₁⟩) ?_
              rw [rule_eq] at hsucceeds
              have hbehind := succeeds_rest (gives_take htokens' _) hsucceeds
              rw [atomOf_self ht, pure_bind] at hbehind
              have hhead := succeeds_rest (gives_expect rfl _) hbehind
              exact succeeds_first (succeeds_within hhead)

/-! ## Rules and the query behind them -/

/-- Both runs come to the token before they come to the bound. -/
theorem lockedAt_rules (hspared : ∀ g, Foreseen o.before o.token o.behind g → o.spared g)
    {n n' : Nat} (h : o.Fork pre s s') (hn : pre.length < n) (hn' : pre.length < n') :
    o.LockedAt pre s s' (rules n >>= fun _ => ending) (rules n' >>= fun _ => ending) := by
  induction n generalizing pre s s' n' with
  | zero => omega
  | succ n ih =>
      obtain ⟨n', rfl⟩ : ∃ m, n' = m + 1 := ⟨n' - 1, by omega⟩
      have hquits : o.Quits (rules n >>= fun _ => ending) :=
        quits_bind (quits_rules hspared n) fun _ => (steady_ending hspared).quits
      rw [rules, rules, bind_assoc, bind_assoc]
      by_cases hseen : RuleSeen s.tokens <;> by_cases hseen' : RuleSeen s'.tokens
      · refine lockedAt_rest (Nat.le_refl _) silent_atRule (gives_atRule_true hseen)
          (gives_atRule_true hseen') ?_
        simp only [if_true, rule_eq]
        rw [bind_assoc, bind_assoc, bind_assoc, bind_assoc]
        refine lockedAt_take h (fun _ => ?_) fun u pre₁ s₁ s₁' hpre hu h₁ => ?_
        · obtain hfails | hrule := (judged_rule hspared o.token).settled
          · exact .inl fun s' => mt succeeds_first (hfails s')
          · exact .inr (quits_bind hrule fun _ => hquits)
        · rw [hpre, List.length_cons] at hn hn'
          exact lockedAt_bind (((judged_rule hspared u).steady hu).locked _ _ _ h₁)
            (fun _ => hquits) fun _ _ s₂ pre₂ s₂' _ h₂ hle => ih h₂ (by omega) (by omega)
      · refine lockedAt_rest (Nat.le_refl _) silent_atRule (gives_atRule_true hseen)
          (gives_atRule_false hseen') ?_
        intro hsucceeds
        exact (over_bind (over_bind (over_rule hspared h hseen hseen' hsucceeds) fun _ =>
          quits_rules hspared n) fun _ => (steady_ending hspared).quits).along
      · refine lockedAt_rest (Nat.le_refl _) silent_atRule (gives_atRule_false hseen)
          (gives_atRule_true hseen') ?_
        intro hsucceeds
        exact (over_ending_of_rule hspared h hseen hseen'
          (succeeds_first (succeeds_first hsucceeds))).along
      · exact lockedAt_rest (Nat.le_refl _) silent_atRule (gives_atRule_false hseen)
          (gives_atRule_false hseen')
          ((steady_ending hspared).locked _ _ _ h)

end Spot

end TopicQuery.Grammar
