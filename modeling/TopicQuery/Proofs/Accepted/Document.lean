import TopicQuery.Proofs.Accepted.Statement

/-!
Phrases of whole texts are accepted. A look ahead tells a rule from a clause by
what stands behind its parameters.
-/

namespace TopicQuery.Grammar

open Parser Phrase

section Rules

variable {c : Setting} {ts : List Token}

/-! ## Rules -/

theorem parameter_accepts : parameter.Accepts .parameter fun _ => True := by
  intro c v rest _ _ _
  refine reads_take fun first hfirst => ?_
  simp only [hfirst]
  exact reads_emit

/-- Parameters are arguments that are variables. -/
theorem parameter_tokens (vs : List String) :
    Category.parameter.list.tokens vs = listed Phrase.Term.tokens (vs.map (Phrase.Term.atom .var)) := by
  match vs with
  | [] => rfl
  | [v] => rfl
  | v :: w :: vs =>
      have := parameter_tokens (w :: vs)
      simp only [Category.list, List.map_cons, listed] at this ⊢
      rw [this]
      rfl

theorem reads_parameters {vs : List String} :
    parameters.Reads c (Category.parameter.list.tokens vs ++ .symbol .rparen :: ts)
      (Outline.eventsAll (Category.parameter.list.outlines c.scope vs)) () c ts := by
  by_cases hne : vs = []
  · subst hne
    exact reads_then reads_accept reads_pure
  · obtain ⟨v, vs, rfl⟩ := List.exists_cons_of_ne_nil hne
    have hhead : (Category.parameter.list.tokens (v :: vs) ++ .symbol .rparen :: ts).head? =
        some (.atom .var v) := head?_listed (by simp [Category.parameter]) vs _
    refine reads_then (reads_accept_other (by rw [hhead]; simp)) ?_
    exact reads_last (accepts_items parameter_accepts (fun _ => trivial)
      ⟨hne, fun _ _ => trivial⟩ (fun _ _ _ => trivial) ⟨trivial, by simp⟩) reads_expect

theorem rule_accepts : rule.Accepts .rule fun _ => True := by
  intro c r rest hrefers hplain _
  have hbody := accepts_within clauses_accepts .body (c := c) (x := r.body) hrefers hplain
    (parted_symbol .dot (by simp) (by simp) : Parted Untyped (_ :: rest))
  have hall : rule.Reads c
      (.atom .identifier r.name :: .symbol .lparen ::
        (Category.parameter.list.tokens r.parameters ++
          .symbol .rparen :: .symbol .implies :: (r.body.tokens ++ .symbol .dot :: rest)))
      _ () c rest :=
    reads_then reads_takeAtom (reads_then reads_expect (reads_within (.rule r.name)
      (reads_bind reads_parameters (reads_then reads_expect (reads_last hbody reads_expect)))))
  simpa [Category.rule, Category.events, Category.inside, Category.clauses, Outline.events]
    using hall

/-- Behind the tokens no rule begins. -/
def NoRule (c : Setting) (ts : List Token) : Prop := atRule.Reads c ts [] false c ts

theorem reads_atRule (r : Phrase.Rule) :
    atRule.Reads c (Category.rule.tokens r ++ ts) [] true c (Category.rule.tokens r ++ ts) := by
  have hshape : ∀ tokens : List PlacedToken,
      tokens.map (·.token) = Category.rule.tokens r ++ ts →
      (callShape 1 tokens).value =
        some ⟨r.parameters.length, false, some (.symbol .implies)⟩ := by
    intro tokens htokens
    have hdrop : (tokens.drop 1).map (·.token) =
        .symbol .lparen :: (listed Phrase.Term.tokens (r.parameters.map (Phrase.Term.atom .var)) ++
          .symbol .rparen :: (.symbol .implies :: (r.body.tokens ++ .symbol .dot :: ts))) := by
      rw [List.map_drop, htokens, ← parameter_tokens]
      simp [Category.rule]
    rw [callShape_arguments hdrop]
    simp
  refine reads_then reads_peek ?_
  exact reads_then (reads_look hshape) reads_pure

theorem noRule_of_next {p : Token → Prop} (h : Next p ts)
    (hp : ∀ name, ¬p (.atom .identifier name)) : NoRule c ts := by
  refine reads_then reads_peek ?_
  split
  · next name hhead => exact absurd (h _ hhead) (hp name)
  · exact reads_pure

theorem noRule_of_callShape {v : Option CallShape}
    (h : ∀ tokens : List PlacedToken, tokens.map (·.token) = ts → (callShape 1 tokens).value = v)
    (hv : ∀ shape ∈ v, shape.next ≠ some (.symbol .implies)) : NoRule c ts := by
  refine reads_then reads_peek ?_
  split
  · refine reads_then (reads_look h) ?_
    cases v with
    | none => exact reads_pure
    | some shape =>
        dsimp only
        rw [decide_eq_false (hv shape rfl)]
        exact reads_pure
  · exact reads_pure

/-- Behind the name of a rule there is an argument list. -/
theorem noRule_of_second {t u : Token} (hu : u ≠ .symbol .lparen) : NoRule c (t :: u :: ts) := by
  refine noRule_of_callShape (v := none) (fun tokens htokens => ?_) (by simp)
  obtain ⟨first, more, rfl, -, hmore⟩ := exists_cons_of_map htokens
  obtain ⟨second, last, rfl, hsecond, -⟩ := exists_cons_of_map hmore
  simp [callShape, hsecond, hu]

/-- Behind the arguments of a call there is no `:-`. -/
theorem noRule_call {call : Call} (hcall : call.Refers c.scope)
    (hnext : ts.head? ≠ some (.symbol .implies)) : NoRule c (call.tokens ++ ts) := by
  have hname : ∀ behind : List Token, call.tokens ++ ts = call.name.tokens ++ .symbol .lparen :: behind →
      (∀ t, call.name.tokens = [t] → NoRule c (call.tokens ++ ts)) → NoRule c (call.tokens ++ ts) := by
    intro behind hbehind hsingle
    match hx : call.name.tokens with
    | [] => exact absurd hx call.name.tokens_ne_nil
    | [t] => exact hsingle t hx
    | t :: u :: more =>
        have hmem : u ∈ call.name.tokens := by simp [hx]
        rw [hbehind, hx]
        refine noRule_of_second ?_
        rintro rfl
        exact absurd (inert_of_mem_term _ hmem) (by simp [Inert])
  cases call with
  | plain name arguments =>
      refine hname _ (by simp [Call.tokens, Call.name]; rfl) fun t ht => ?_
      refine noRule_of_callShape (v := some ⟨arguments.length, false, ts.head?⟩)
        (fun tokens htokens => ?_) (by simpa using hnext)
      have hdrop : (tokens.drop 1).map (·.token) =
          .symbol .lparen :: (listed Phrase.Term.tokens arguments ++ .symbol .rparen :: ts) := by
        have ht : name.tokens = [t] := ht
        rw [List.map_drop, htokens]
        simp [Call.tokens, ht]
      rw [callShape_arguments hdrop]
  | association name roles =>
      have hne : roles ≠ [] := by
        rintro rfl
        exact hcall.2.2 name rfl
      refine hname _ (by simp [Call.tokens, Call.name]; rfl) fun t ht => ?_
      refine noRule_of_callShape (v := some ⟨roles.length, true, ts.head?⟩)
        (fun tokens htokens => ?_) (by simpa using hnext)
      have hdrop : (tokens.drop 1).map (·.token) =
          .symbol .lparen :: (listed Phrase.Role.tokens roles ++ .symbol .rparen :: ts) := by
        have ht : name.tokens = [t] := ht
        rw [List.map_drop, htokens]
        simp [Call.tokens, ht]
      rw [callShape_roles hne hdrop]

theorem noRule_clause {x : Phrase.Clause} (hrefers : x.Refers c.scope)
    (hnext : ts.head? ≠ some (.symbol .implies)) : NoRule c (x.tokens ++ ts) := by
  cases x with
  | negation inner =>
      exact noRule_of_next (p := (· = .keyword .not)) (Next.cons rfl) (by simp)
  | alternatives branches =>
      exact noRule_of_next (p := (· = .symbol .lbrace)) (Next.cons rfl) (by simp)
  | comparison operator left right =>
      have hmark : operatorSymbol operator ≠ .lparen := by cases operator <;> simp [operatorSymbol]
      simp only [Phrase.Clause.tokens, List.append_assoc, List.cons_append]
      match hx : left.tokens with
      | [] => exact absurd hx left.tokens_ne_nil
      | [t] => exact noRule_of_second (by simpa using hmark)
      | t :: u :: more =>
          have hmem : u ∈ left.tokens := by simp [hx]
          refine noRule_of_second ?_
          rintro rfl
          exact absurd (inert_of_mem_term _ hmem) (by simp [Inert])
  | call call => exact noRule_call hrefers hnext

theorem noRule_clauses {xs : Clauses} (hrefers : xs.Refers c.scope)
    (hnext : ts.head? ≠ some (.symbol .implies)) : NoRule c (xs.tokens ++ ts) := by
  cases xs with
  | last x => exact noRule_clause hrefers hnext
  | cons x xs =>
      simp only [Clauses.tokens, List.append_assoc, List.cons_append]
      exact noRule_clause hrefers.1 (by simp)

theorem noRule_statement {x : Phrase.Statement} (hrefers : Category.statement.Refers c.scope x)
    (hend : AtEnd ts) : NoRule c (Category.statement.tokens x ++ ts) := by
  have hword : ∀ (word : Keyword) (behind : List Token), NoRule c (.keyword word :: behind) :=
    fun word behind => noRule_of_next (p := (· = .keyword word)) (Next.cons rfl) (by simp)
  cases x with
  | bare x =>
      have htail : Next IsTail (x.tail.tokens ++ ts) := next_tail hend
      simp only [Category.statement, Category.condition, List.append_assoc]
      exact noRule_clauses hrefers.1 (htail.ne (by simp [IsTail, IsExtent]))
  | change change x => cases change <;> exact hword _ _
  | _ => exact hword _ _

theorem reads_rules {rs : List Phrase.Rule} {n : Nat} (hn : rs.length ≤ n)
    (hrefers : ∀ r ∈ rs, Category.rule.Refers c.scope r)
    (hplain : c.plus = false → ∀ r ∈ rs, Category.rule.IsPlain r) (hstop : NoRule c ts) :
    (rules n).Reads c (rs.flatMap Category.rule.tokens ++ ts)
      (Outline.eventsAll (rs.flatMap (Category.rule.outlines c.scope))) () c ts := by
  induction n generalizing rs with
  | zero =>
      obtain rfl : rs = [] := List.length_eq_zero_iff.mp (Nat.le_zero.mp hn)
      exact reads_pure
  | succ n ih =>
      cases rs with
      | nil => exact reads_then hstop reads_pure
      | cons r rs =>
          simp only [List.flatMap_cons, List.append_assoc, Outline.eventsAll_append]
          refine reads_then (reads_atRule r) ?_
          exact reads_bind (rule_accepts (hrefers r (by simp))
            (fun hlegacy => hplain hlegacy r (by simp)) trivial)
            (ih (by simpa using hn) (fun s hs => hrefers s (by simp [hs]))
              fun hlegacy s hs => hplain hlegacy s (by simp [hs]))

/-! ## Directives -/

/-- The last directive settles something and reports what it binds. -/
theorem reads_countDirective :
    countDirective.Reads c ts [] () { c with directives := c.directives + 1 } ts := by
  intro s h
  refine ⟨_, runs_change.mpr ⟨rfl, rfl⟩, h.fault, ?_, h.ahead⟩
  rw [← h.setting]
  rfl

theorem reads_bindPrefix {binder : Binder} {first : PlacedToken} {b : Prefixed}
    (hfits : Directive.Fits c (.binding binder b)) :
    (bind first b).Reads c ts ((Directive.leaves c (.binding binder b)).map .leaf) ()
      (Directive.settle c (.binding binder b)) ts := by
  refine reads_then reads_countDirective (reads_state fun s hs => ?_)
  have hbindings : s.bindings = c.bindings := congrArg Setting.bindings hs.setting
  rw [hbindings]
  cases hbound : Directive.bound? c b.identifier with
  | some old =>
      have hfind : c.bindings.find? (·.identifier == b.identifier) = some old := hbound
      simp only [hfind, hfits.2 old hbound, if_true, Directive.leaves, Directive.settle, hbound,
        Option.isSome_some, List.map_nil]
      exact reads_pure
  | none =>
      have hfind : c.bindings.find? (·.identifier == b.identifier) = none := hbound
      simp only [hfind, Directive.leaves, Directive.settle, hbound, Option.isSome_none,
        Bool.false_eq_true, if_false, List.map_cons, List.map_nil]
      refine reads_then (a := ()) (fun s h => ?_) reads_emit
      refine ⟨_, runs_change.mpr ⟨rfl, rfl⟩, h.fault, ?_, h.ahead⟩
      have hsetting := h.setting
      simp only [State.setting, Setting.mk.injEq] at hsetting ⊢
      simp [hsetting]

theorem reads_baseDirective {first : PlacedToken} {iri : String}
    (hfits : Directive.Fits c (.base iri)) :
    (percentDirective first "base").Reads c (.atom .iri iri :: ts) [.leaf (.base iri)] ()
      (Directive.settle c (.base iri)) ts := by
  rw [percentDirective, if_pos rfl]
  refine reads_state fun s hs => ?_
  have hdirectives : s.directives = c.directives := congrArg Setting.directives hs.setting
  have hfirst : c.directives = 0 := hfits
  rw [if_neg (by omega)]
  exact reads_then reads_takeAtom (reads_then reads_countDirective reads_emit)

theorem reads_versionDirective {first : PlacedToken} {kind : AtomKind} {text : String}
    (hfits : Directive.Fits c (.version kind text)) :
    (percentDirective first "version").Reads c (.atom kind text :: ts) [] ()
      (Directive.settle c (.version kind text)) ts := by
  rw [percentDirective, if_neg (by decide), if_pos rfl]
  refine reads_take fun second hsecond => ?_
  have htext : (versionText second "a version number").Reads c ts [] text c ts := by
    unfold versionText
    rw [hsecond]
    obtain rfl | rfl := hfits.1 <;> exact reads_pure
  refine reads_then htext ?_
  rw [if_pos (by simpa using hfits.2)]
  intro s h
  refine ⟨_, runs_bind.mpr ⟨[], (), _, [], runs_change.mpr ⟨rfl, rfl⟩,
    runs_change.mpr ⟨rfl, rfl⟩, rfl⟩, h.fault, ?_, h.ahead⟩
  rw [← h.setting]
  rfl

/-- One directive, and those behind it. -/
theorem reads_directive {d : Directive} {n : Nat} {events : List Event} {c' : Setting}
    {ts' : List Token} (hfits : d.Fits c)
    (hrest : (directives n).Reads (d.settle c) ts events () c' ts') :
    (directives (n + 1)).Reads c (d.tokens ++ ts) ((d.leaves c).map .leaf ++ events) () c' ts' := by
  refine reads_then reads_peek ?_
  match d with
  | .base iri =>
      exact reads_take fun first _ => reads_bind (reads_baseDirective hfits) hrest
  | .version kind text =>
      exact reads_take fun first _ => reads_bind (reads_versionDirective hfits) hrest
  | .binding .percentPrefix b =>
      refine reads_take fun first _ => reads_bind (a := ()) ?_ hrest
      have hkind : b.kind = .subjectIdentifier := hfits.1
      rw [percentDirective, if_neg (by decide), if_neg (by decide), if_pos rfl, ← hkind]
      exact reads_then reads_takeAtom (reads_then reads_takeAtom (reads_bindPrefix hfits))
  | .binding .percentImport b =>
      refine reads_take fun first _ => reads_bind (a := ()) ?_ hrest
      have hkind : b.kind = .module := hfits.1
      rw [percentDirective, if_neg (by decide), if_neg (by decide), if_neg (by decide), if_pos rfl,
        ← hkind]
      exact reads_then reads_takeAtom (reads_then reads_takeAtom (reads_bindPrefix hfits))
  | .binding (.quoted atomKind) b =>
      refine reads_bind (a := ()) ?_ hrest
      refine reads_take fun first _ => reads_then reads_takeAtom (reads_then reads_expect
        (reads_take fun reference hreference => ?_))
      have hkind : declaredKind? atomKind = some b.kind := hfits.1
      simp only [hreference, hkind]
      exact reads_bindPrefix hfits
  | .binding (.imported isIri) b =>
      refine reads_bind (a := ()) ?_ hrest
      refine reads_take fun first _ => reads_take fun location hlocation => ?_
      have htext : ∀ ts : List Token,
          (locationText location "a module location").Reads c ts [] b.iri c ts := by
        intro ts
        unfold locationText
        rw [hlocation]
        cases isIri <;> exact reads_pure
      have hkind : b.kind = .module := hfits.1
      have hbinding : (bind first b).Reads c ts _ () _ ts := reads_bindPrefix hfits
      refine reads_then (htext _) (reads_then reads_expect (reads_then reads_takeAtom ?_))
      rw [← hkind]
      exact hbinding

/-- What follows the directives of a text begins neither a directive nor an argument list. -/
def BehindDirectives (t : Token) : Prop :=
  (∀ name, t ≠ .directive name) ∧ t ≠ .keyword .usingWord ∧ t ≠ .keyword .importWord ∧
    t ≠ .symbol .lparen

theorem reads_directives {ds : List Directive} {n : Nat} (hn : ds.length ≤ n)
    (hfits : Directive.FitsAll c ds)
    (hstop : Next BehindDirectives ts) :
    (directives n).Reads c (ds.flatMap Directive.tokens ++ ts)
      ((Directive.leavesAll c ds).map .leaf) () (Directive.settleAll c ds) ts := by
  induction n generalizing c ds with
  | zero =>
      obtain rfl : ds = [] := List.length_eq_zero_iff.mp (Nat.le_zero.mp hn)
      exact reads_pure
  | succ n ih =>
      cases ds with
      | nil =>
          refine reads_then reads_peek ?_
          simp only [List.flatMap_nil, List.nil_append]
          split
          · next name hhead => exact absurd rfl ((hstop _ hhead).1 name)
          · next hhead => exact absurd rfl (hstop _ hhead).2.1
          · next hhead => exact absurd rfl (hstop _ hhead).2.2.1
          · exact reads_pure
      | cons d ds =>
          simp only [List.flatMap_cons, List.append_assoc, Directive.leavesAll, List.map_append]
          exact reads_directive hfits.1 (ih (by simpa using hn) hfits.2)

/-! ## Texts -/

theorem statement_start {x : Phrase.Statement} :
    ∃ t more, Category.statement.tokens x = t :: more ∧ t ≠ .symbol .question ∧
      BehindDirectives t := by
  have hword : ∀ word : Keyword, word ≠ .usingWord → word ≠ .importWord →
      Token.keyword word ≠ .symbol .question ∧ BehindDirectives (.keyword word) := by
    intro word husing himport
    simp [BehindDirectives, husing, himport]
  cases x with
  | select _ _ _ => exact ⟨_, _, rfl, hword _ (by simp) (by simp)⟩
  | bare x =>
      obtain ⟨t, more, htokens, ht⟩ := clauses_start x.clauses
      refine ⟨t, more ++ x.tail.tokens, by simp [Category.statement, Category.condition, htokens], ?_⟩
      obtain rfl | rfl | ht := ht
      · simp [BehindDirectives]
      · simp [BehindDirectives]
      · cases t with
        | symbol mark => obtain rfl | rfl | rfl := ht <;> simp [BehindDirectives]
        | keyword _ => exact ht.elim
        | directive _ => exact ht.elim
        | fragment _ => exact ht.elim
        | _ => simp [BehindDirectives]
  | change change _ => cases change <;> exact ⟨_, _, rfl, hword _ (by simp) (by simp)⟩
  | load _ _ => exact ⟨_, _, rfl, hword _ (by simp) (by simp)⟩
  | drop _ => exact ⟨_, _, rfl, hword _ (by simp) (by simp)⟩
  | create _ => exact ⟨_, _, rfl, hword _ (by simp) (by simp)⟩

theorem atEnd_question (question : Bool) : AtEnd (Document.questionTokens question) := by
  cases question <;> simp [Document.questionTokens, AtEnd, Next]

theorem reads_ending {x : Option Phrase.Statement} {question : Bool}
    (hrefers : ∀ y ∈ x, Category.statement.Refers c.scope y)
    (hplain : c.plus = false → ∀ y ∈ x, Category.statement.IsPlain y) :
    ending.Reads c (x.toList.flatMap Category.statement.tokens ++ Document.questionTokens question)
      (Outline.eventsAll (x.toList.flatMap (Category.statement.outlines c.scope))) () c [] := by
  have hstatement : optionalStatement.Reads c
      (x.toList.flatMap Category.statement.tokens ++ Document.questionTokens question)
      (Outline.eventsAll (x.toList.flatMap (Category.statement.outlines c.scope))) () c
      (Document.questionTokens question) := by
    refine reads_then reads_peek ?_
    cases x with
    | none => cases question <;> exact reads_pure
    | some x =>
        obtain ⟨t, more, htokens, hquestion, -⟩ := statement_start (x := x)
        have hread := statement_accepts (hrefers x rfl) (fun hlegacy => hplain hlegacy x rfl)
          (atEnd_question question)
        simp only [Option.toList_some, List.flatMap_singleton, htokens, List.cons_append,
          List.head?_cons] at hread ⊢
        exact hread
  refine reads_last hstatement ?_
  cases question with
  | false =>
      have hnone : (Document.questionTokens false).head? ≠ some (.symbol .question) := by
        simp [Document.questionTokens]
      exact reads_then (reads_accept_other hnone) (reads_then reads_take?_nil reads_pure)
  | true => exact reads_then reads_accept (reads_then reads_take?_nil reads_pure)

theorem length_directives_le (ds : List Directive) :
    ds.length ≤ (ds.flatMap Directive.tokens).length := by
  induction ds with
  | nil => simp
  | cons d ds ih =>
      have hpos : 0 < d.tokens.length := by
        match d with
        | .base _ | .version _ _ => simp [Directive.tokens]
        | .binding .percentPrefix _ | .binding .percentImport _ => simp [Directive.tokens]
        | .binding (.quoted _) _ | .binding (.imported _) _ => simp [Directive.tokens]
      simp only [List.flatMap_cons, List.length_append, List.length_cons]
      omega

theorem length_rules_le (rs : List Phrase.Rule) :
    rs.length ≤ (rs.flatMap Category.rule.tokens).length := by
  induction rs with
  | nil => simp
  | cons r rs ih =>
      have hpos : 0 < (Category.rule.tokens r).length := by simp [Category.rule]
      simp only [List.flatMap_cons, List.length_append, List.length_cons]
      omega

/-- Behind the rules a statement begins, or the text ends. -/
theorem noRule_ending {x : Option Phrase.Statement} {question : Bool}
    (hrefers : ∀ y ∈ x, Category.statement.Refers c.scope y) :
    NoRule c (x.toList.flatMap Category.statement.tokens ++ Document.questionTokens question) := by
  cases x with
  | none => exact noRule_of_next (atEnd_question question) (by simp)
  | some x => simpa using noRule_statement (hrefers x rfl) (atEnd_question question)

theorem next_rules (rs : List Phrase.Rule) {x : Option Phrase.Statement} {question : Bool} :
    Next BehindDirectives (rs.flatMap Category.rule.tokens ++
      (x.toList.flatMap Category.statement.tokens ++ Document.questionTokens question)) := by
  match rs, x with
  | r :: rs, _ =>
      intro t ht
      obtain rfl : Token.atom .identifier r.name = t := by simpa [Category.rule] using ht
      simp [BehindDirectives]
  | [], some x =>
      obtain ⟨t, more, htokens, -, hnone⟩ := statement_start (x := x)
      intro u hu
      obtain rfl : t = u := by simpa [htokens] using hu
      exact hnone
  | [], none =>
      exact (atEnd_question question).mono fun t ht => by simp [ht, BehindDirectives]

/-- A text that is a phrase is read as a whole. -/
theorem reads_document {d : Document} (hfits : d.Fits c) :
    document.Reads c d.tokens (d.outline c).events () (d.settled c) [] := by
  refine reads_state fun s hs => ?_
  have hlength : s.tokens.length = d.tokens.length := by
    rw [← hs.ahead, State.ahead, List.length_map]
  have hdirectives := length_directives_le d.directives
  have hrules := length_rules_le d.rules
  have hall : d.tokens.length = (d.directives.flatMap Directive.tokens).length +
      ((d.rules.flatMap Category.rule.tokens).length +
        (d.statement.toList.flatMap Category.statement.tokens ++
          Document.questionTokens d.question).length) := by
    simp [Document.tokens]
  have hending : ending.Reads (d.settled c) (_ ++ Document.questionTokens d.question) _ () _ [] :=
    reads_ending hfits.statement hfits.statementPlain
  have hinner := reads_bind (f := fun _ => do rules s.tokens.length; ending)
    (reads_directives (n := s.tokens.length) (by omega) hfits.directives (next_rules d.rules))
    (reads_bind (f := fun _ => ending)
      (reads_rules (n := s.tokens.length) (by omega) hfits.rules hfits.rulesPlain
        (noRule_ending hfits.statement)) hending)
  simpa [Document.tokens, Document.outline, Document.settled, Outline.events, Container.tag] using
    reads_within .document hinner

/-- A text whose tokens are those of a phrase is parsed as its outline. -/
theorem parse_of_document {text : String} {plus : Bool} {d : Document}
    (htokens : (scan text).tokens.map (·.token) = d.tokens) (hfault : (scan text).fault = none)
    (hfits : d.Fits (initial (scan text) plus).setting) :
    parse text plus = ⟨(d.outline (initial (scan text) plus).setting).events, none⟩ := by
  obtain ⟨s', hrun, -⟩ := reads_document hfits (initial (scan text) plus) ⟨hfault, rfl, htokens⟩
  unfold parse
  rw [hrun]

end Rules

end TopicQuery.Grammar
