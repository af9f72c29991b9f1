import TopicQuery.Proofs.Accepted.Document

/-!
The rules a text defines. They are looked for before the text is recognized, by
a search for names with an argument list and `:-` behind it. In a text that is
recognized the search finds the rules and nothing else.
-/

namespace TopicQuery.Phrase

open Grammar

/-- The tokens define no rule, whatever follows them. -/
def Calm (ts : List Token) : Prop :=
  ∀ rest : List Token, rest.head? ≠ some (.symbol .implies) → rest.head? ≠ some (.symbol .lparen) →
    definedRules (ts ++ rest) = definedRules rest

section Calm

variable {ts us rest : List Token} {t : Token}

theorem definedRules_skip (ht : ∀ name, t ≠ .atom .identifier name) :
    definedRules (t :: ts) = definedRules ts := by
  rw [definedRules]
  exact fun name h => ht name h

theorem definedRules_next (ht : ts.head? ≠ some (.symbol .lparen)) :
    definedRules (t :: ts) = definedRules ts := by
  by_cases hname : ∃ name, t = .atom .identifier name
  · obtain ⟨name, rfl⟩ := hname
    rw [definedRules]
    rintro inside rfl
    simp at ht
  · exact definedRules_skip fun name h => hname ⟨name, h⟩

/-- Without parentheses no rule is defined. -/
theorem definedRules_flat (hts : ∀ t ∈ ts, t ≠ .symbol .lparen)
    (hrest : rest.head? ≠ some (.symbol .lparen)) :
    definedRules (ts ++ rest) = definedRules rest := by
  induction ts with
  | nil => rfl
  | cons t ts ih =>
      rw [List.cons_append, definedRules_next, ih fun u hu => hts u (by simp [hu])]
      cases ts with
      | nil => exact hrest
      | cons u us => simpa using hts u (by simp)

theorem calm_flat (hts : ∀ t ∈ ts, t ≠ .symbol .lparen) : Calm ts := fun _ _ hrest =>
  definedRules_flat hts hrest

theorem calm_listed {α : Type} {tokens : α → List Token} {xs : List α}
    (h : ∀ x ∈ xs, Calm (tokens x)) : Calm (listed tokens xs) := by
  intro rest himplies hlparen
  match xs with
  | [] => rfl
  | [x] => exact h x (by simp) rest himplies hlparen
  | x :: y :: ys =>
      rw [listed, List.append_assoc, h x (by simp) _ (by simp) (by simp), List.cons_append,
        definedRules_skip (by simp)]
      exact calm_listed (fun z hz => h z (by simp [hz])) rest himplies hlparen

/-! ## Terms and calls -/

theorem calm_term (x : Term) : Calm x.tokens :=
  calm_flat fun t ht => by
    rintro rfl
    exact absurd (inert_of_mem_term _ ht) (by simp [Inert])

theorem mem_listed {α : Type} {tokens : α → List Token} {xs : List α}
    (h : t ∈ listed tokens xs) : t = .symbol .comma ∨ ∃ x ∈ xs, t ∈ tokens x := by
  match xs with
  | [] => simp [listed] at h
  | [x] => exact .inr ⟨x, by simp, h⟩
  | x :: y :: ys =>
      simp only [listed, List.mem_append, List.mem_cons] at h
      obtain h | h | h := h
      · exact .inr ⟨x, by simp, h⟩
      · exact .inl h
      · obtain h | ⟨z, hz, h⟩ := mem_listed h
        · exact .inl h
        · exact .inr ⟨z, by simp [hz], h⟩

/-- No parenthesis stands among arguments. -/
def IsOpen (ts : List Token) : Prop := ∀ t ∈ ts, t ≠ .symbol .lparen ∧ t ≠ .symbol .rparen

theorem isOpen_term (x : Term) : IsOpen x.tokens := fun t ht =>
  ⟨by rintro rfl; exact absurd (inert_of_mem_term _ ht) (by simp [Inert]),
    by rintro rfl; exact absurd (inert_of_mem_term _ ht) (by simp [Inert])⟩

theorem isOpen_role (r : Role) : IsOpen r.tokens := by
  intro t ht
  simp only [Role.tokens, List.mem_append, List.mem_cons] at ht
  obtain ht | rfl | ht := ht
  · exact isOpen_term _ t ht
  · simp
  · exact isOpen_term _ t ht

theorem isOpen_listed {α : Type} {tokens : α → List Token} {xs : List α}
    (h : ∀ x, IsOpen (tokens x)) : IsOpen (listed tokens xs) := by
  intro t ht
  obtain rfl | ⟨x, -, hx⟩ := mem_listed ht
  · simp
  · exact h x t hx

theorem dropWhile_open (h : IsOpen ts) :
    (ts ++ .symbol .rparen :: rest).dropWhile (· != .symbol .rparen) = .symbol .rparen :: rest := by
  rw [List.dropWhile_append_of_pos (by
    intro t ht
    simpa using (h t ht).2)]
  simp

theorem definedRules_nameless (hts : ∀ t ∈ ts, ∀ name, t ≠ .atom .identifier name) :
    definedRules (ts ++ rest) = definedRules rest := by
  induction ts with
  | nil => rfl
  | cons t ts ih =>
      rw [List.cons_append, definedRules_skip (hts t (by simp)),
        ih fun u hu => hts u (by simp [hu])]

/-- An argument list defines no rule. -/
theorem definedRules_arguments (h : IsOpen ts) :
    definedRules (.symbol .lparen :: (ts ++ .symbol .rparen :: rest)) = definedRules rest := by
  rw [definedRules_skip (by simp), definedRules_flat (fun t ht => (h t ht).1) (by simp),
    definedRules_skip (by simp)]

/-- A name with an argument list is no rule if `:-` does not follow. -/
theorem calm_applied {name : Term} (h : IsOpen ts) :
    Calm (name.tokens ++ Token.symbol .lparen :: (ts ++ [Token.symbol .rparen])) := by
  intro rest himplies hlparen
  simp only [List.append_assoc, List.cons_append, List.nil_append]
  by_cases hname : ∃ value, name = .atom .identifier value
  · obtain ⟨value, rfl⟩ := hname
    simp only [Term.tokens, List.cons_append, List.nil_append]
    rw [definedRules, dropWhile_open h]
    split
    · next heq =>
      obtain ⟨-, rfl⟩ := List.cons.inj heq
      simp at himplies
    · exact definedRules_arguments h
  · rw [definedRules_nameless, definedRules_arguments h]
    rintro t ht value rfl
    cases name with
    | atom kind value =>
        have hkind : .identifier = kind := by
          simp only [Term.tokens, List.mem_singleton, Token.atom.injEq] at ht
          exact ht.1
        exact hname ⟨_, by rw [← hkind]⟩
    | literal value datatype => cases datatype <;> simp [Term.tokens, datatypeToken] at ht
    | qname marker name => cases marker <;> simp [Term.tokens, Marker.tokens] at ht
    | curie marker name => cases marker <;> simp [Term.tokens, Marker.tokens] at ht
    | iri marker value => simp [Term.tokens] at ht

theorem calm_call (call : Call) : Calm call.tokens := by
  cases call with
  | plain name arguments => exact calm_applied (isOpen_listed isOpen_term)
  | association name roles => exact calm_applied (isOpen_listed isOpen_role)

/-! ## Clauses -/

mutual

theorem calm_clause (x : Clause) : Calm x.tokens := by
  intro rest himplies hlparen
  match x with
  | .negation inner =>
      simp only [Clause.tokens, List.cons_append, List.append_assoc, List.nil_append]
      rw [definedRules_skip (by simp), definedRules_skip (by simp),
        calm_clauses inner _ (by simp) (by simp), definedRules_skip (by simp)]
  | .alternatives branches =>
      simp only [Clause.tokens, List.cons_append, List.append_assoc, List.nil_append]
      rw [definedRules_skip (by simp), calm_branches branches _ (by simp) (by simp),
        definedRules_skip (by simp)]
  | .comparison operator left right =>
      have hmark : operatorSymbol operator ≠ .implies ∧ operatorSymbol operator ≠ .lparen := by
        cases operator <;> simp [operatorSymbol]
      simp only [Clause.tokens, List.cons_append, List.append_assoc]
      rw [calm_term left _ (by simpa using hmark.1) (by simpa using hmark.2),
        definedRules_skip (by simp), calm_term right _ himplies hlparen]
  | .call call => exact calm_call call rest himplies hlparen

theorem calm_clauses (xs : Clauses) : Calm xs.tokens := by
  intro rest himplies hlparen
  match xs with
  | .last x => exact calm_clause x rest himplies hlparen
  | .cons x xs =>
      simp only [Clauses.tokens, List.cons_append, List.append_assoc]
      rw [calm_clause x _ (by simp) (by simp), definedRules_skip (by simp),
        calm_clauses xs _ himplies hlparen]

theorem calm_branches (bs : Branches) : Calm bs.tokens := by
  intro rest himplies hlparen
  match bs with
  | .last inner => exact calm_clauses inner rest himplies hlparen
  | .cons inner shortCircuit bs =>
      have hbar : barSymbol shortCircuit ≠ .implies ∧ barSymbol shortCircuit ≠ .lparen := by
        cases shortCircuit <;> simp [barSymbol]
      simp only [Branches.tokens, List.cons_append, List.append_assoc]
      rw [calm_clauses inner _ (by simpa using hbar.1) (by simpa using hbar.2),
        definedRules_skip (by simp), calm_branches bs _ himplies hlparen]

end

/-! ## Statements -/

theorem Calm.append (h : Calm ts) (h' : Calm us) (himplies : us.head? ≠ some (.symbol .implies))
    (hlparen : us.head? ≠ some (.symbol .lparen)) : Calm (ts ++ us) := by
  intro rest hi hl
  rw [List.append_assoc]
  cases us with
  | nil => exact h rest hi hl
  | cons u us =>
      rw [h (u :: us ++ rest) (by simpa using himplies) (by simpa using hlparen), h' rest hi hl]

theorem Calm.cons (h : Calm ts) (ht : ∀ name, t ≠ .atom .identifier name) : Calm (t :: ts) := by
  intro rest hi hl
  rw [List.cons_append, definedRules_skip ht, h rest hi hl]

theorem calm_tail (t : Tail) : Calm t.tokens := by
  refine calm_flat fun u hu => ?_
  rintro rfl
  simp only [Tail.tokens, List.mem_append] at hu
  obtain hu | hu | hu := hu
  · cases horder : t.order with
    | nil => simp [horder, Tail.orderTokens] at hu
    | cons k ks =>
        simp only [horder, Tail.orderTokens, List.mem_cons, reduceCtorEq, false_or] at hu
        obtain hu | ⟨k, -, hu⟩ := mem_listed hu
        · simp at hu
        · cases hk : k.direction <;> simp [Category.sortKey, hk, Direction.tokens] at hu
  · cases hlimit : t.limit <;> simp [hlimit, Bound.tokens] at hu
  · cases hoffset : t.offset <;> simp [hoffset, Bound.tokens] at hu

theorem calm_condition (x : Condition) : Calm (Category.condition.tokens x) := by
  have hnext : Next IsTail (x.tail.tokens ++ []) := next_tail (by simp [AtEnd, Next])
  rw [List.append_nil] at hnext
  exact (calm_clauses x.clauses).append (calm_tail x.tail)
    (hnext.ne (by simp [IsTail, IsExtent])) (hnext.ne (by simp [IsTail, IsExtent]))

theorem calm_optionalCondition (x : Option (Bool × Condition)) :
    Calm (Category.optionalCondition.tokens x) := by
  match x with
  | none => exact fun _ _ _ => rfl
  | some (_, x) => exact (calm_condition x).cons (by simp)

theorem calm_projection (x : Projection) : Calm (Category.projection.tokens x) := by
  match x with
  | .variable name => exact calm_flat (by simp [Category.projection])
  | .count name =>
      exact (((calm_flat (by simp)).cons (t := .symbol .lparen) (by simp)).cons (by simp))

theorem calm_target (x : Target) : Calm (Category.target.tokens x) := by
  match x with
  | .call call => exact calm_call call
  | .term t => exact calm_term t

theorem calm_change (x : Change) : Calm x.tokens := by
  match x with
  | .insert content => exact calm_flat (by simp [Change.tokens])
  | .update calls => exact (calm_listed fun call _ => calm_call call).cons (by simp)
  | .delete targets => exact (calm_listed fun x _ => calm_target x).cons (by simp)
  | .merge first second =>
      exact ((calm_term first).append ((calm_term second).cons (by simp)) (by simp)
        (by simp)).cons (by simp)

theorem calm_statement (x : Statement) : Calm (Category.statement.tokens x) := by
  cases x with
  | select projections isWhere x =>
      exact ((calm_listed fun p _ => calm_projection p).append ((calm_condition x).cons (by simp))
        (by simp) (by simp)).cons (by simp)
  | bare x => exact calm_condition x
  | change change x =>
      have hnext : Next IsCondition (Category.optionalCondition.tokens x ++ []) :=
        next_optionalCondition (by simp [AtEnd, Next])
      rw [List.append_nil] at hnext
      exact (calm_change change).append (calm_optionalCondition x)
        (hnext.ne (by simp [IsCondition])) (hnext.ne (by simp [IsCondition]))
  | load source targets =>
      have hinto : Calm (Category.intoTokens targets) := by
        cases targets with
        | nil => exact fun _ _ _ => rfl
        | cons t targets => exact (calm_listed fun t _ => calm_term t).cons (by simp)
      exact ((calm_term source).append hinto (by cases targets <;> simp [Category.intoTokens])
        (by cases targets <;> simp [Category.intoTokens])).cons (by simp)
  | drop source => exact (calm_term source).cons (by simp)
  | create source => exact (calm_term source).cons (by simp)

/-! ## Texts -/

theorem definedRules_rule (r : Rule) :
    definedRules (Category.rule.tokens r ++ rest) = r.name :: definedRules rest := by
  have hopen : IsOpen (Category.parameter.list.tokens r.parameters) := by
    rw [parameter_tokens]
    exact isOpen_listed isOpen_term
  have hbody := calm_clauses r.body (.symbol .dot :: rest) (by simp) (by simp)
  simp only [Category.rule, List.cons_append, List.append_assoc, List.nil_append]
  rw [definedRules, dropWhile_open hopen]
  simp only
  rw [definedRules_arguments hopen, definedRules_skip (by simp), hbody,
    definedRules_skip (by simp)]

theorem definedRules_rules (rs : List Rule) :
    definedRules (rs.flatMap Category.rule.tokens ++ rest) =
      rs.map Rule.name ++ definedRules rest := by
  induction rs with
  | nil => rfl
  | cons r rs ih =>
      rw [List.flatMap_cons, List.append_assoc, definedRules_rule, ih]
      rfl

/-- The search finds the rules of the text and nothing else. -/
theorem definedRules_document (d : Document) : definedRules d.tokens = d.rules.map Rule.name := by
  have hdirectives : ∀ t ∈ d.directives.flatMap Directive.tokens, t ≠ .symbol .lparen := by
    rintro t ht rfl
    obtain ⟨x, -, hx⟩ := List.mem_flatMap.mp ht
    cases x with
    | binding binder b => cases binder <;> simp [Directive.tokens] at hx
    | _ => simp [Directive.tokens] at hx
  have hending : definedRules (d.statement.toList.flatMap Category.statement.tokens ++
      Document.questionTokens d.question) = [] := by
    have hquestion : definedRules (Document.questionTokens d.question) = [] := by
      cases d.question <;> rfl
    cases d.statement with
    | none => exact hquestion
    | some x =>
        have hend := atEnd_question d.question
        rw [Option.toList_some, List.flatMap_singleton,
          calm_statement x _ (hend.ne (by simp)) (hend.ne (by simp)), hquestion]
  rw [Document.tokens,
    definedRules_flat hdirectives ((next_rules d.rules).ne fun h => h.2.2.2 rfl),
    definedRules_rules, hending, List.append_nil]

end Calm

end TopicQuery.Phrase
