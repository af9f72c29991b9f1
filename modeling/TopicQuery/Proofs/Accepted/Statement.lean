import TopicQuery.Proofs.Accepted.Clause

/-!
Phrases of statements are accepted at the end of a text.
-/

namespace TopicQuery.Grammar

open Parser Phrase

/-- If a token is next, it is one of these. -/
def Next (p : Token → Prop) (ts : List Token) : Prop := ∀ t, ts.head? = some t → p t

/-- The text is over but for a question mark. -/
def AtEnd (ts : List Token) : Prop := Next (· = .symbol .question) ts

/-- What follows a sort order: an extent, or the end of the text. -/
def IsExtent (t : Token) : Prop :=
  t = .keyword .limit ∨ t = .keyword .offset ∨ t = .symbol .question

/-- What follows the clauses of a statement. -/
def IsTail (t : Token) : Prop := t = .keyword .order ∨ IsExtent t

/-- What follows a change. -/
def IsCondition (t : Token) : Prop :=
  t = .keyword .fromWord ∨ t = .keyword .whereWord ∨ t = .symbol .question

section Statements

variable {c : Setting} {ts : List Token}

namespace Next

variable {p q : Token → Prop}

theorem mono (h : Next p ts) (hpq : ∀ t, p t → q t) : Next q ts := fun t ht => hpq t (h t ht)

theorem cons {t : Token} (h : p t) : Next p (t :: ts) := by
  intro u hu
  obtain rfl : t = u := by simpa using hu
  exact h

theorem ne {t : Token} (h : Next p ts) (ht : ¬p t) : ts.head? ≠ some t := fun hhead =>
  ht (h t hhead)

theorem parted (h : Next p ts) (hhat : ¬p (.symbol .hatHat)) (hcomma : ¬p (.symbol .comma)) :
    Parted Untyped ts :=
  ⟨h.ne hhat, h.ne hcomma⟩

end Next

/-! ## Order and extent -/

theorem reads_unsigned {what : String} {b : Bound} (h : b.Reads) :
    (unsigned what).Reads c (.atom .integer b.text :: ts) [] b.number c ts := by
  refine reads_take fun first hfirst => ?_
  rw [hfirst]
  simp only
  rw [h]
  exact reads_pure

theorem reads_bound {word : Keyword} {what : String} {b : Option Bound} (h : ∀ x ∈ b, x.Reads)
    (hword : ts.head? ≠ some (.keyword word)) :
    (bound word what).Reads c (Bound.tokens word b ++ ts) [] (b.map Bound.number) c ts := by
  cases b with
  | none => exact reads_then (reads_accept_other hword) reads_pure
  | some b => exact reads_then reads_accept (reads_then (reads_unsigned (h b rfl)) reads_pure)

theorem reads_emitBound (item : UInt64 → Leaf) (b : Option Bound) :
    (emitBound item (b.map Bound.number)).Reads c ts (Outline.eventsAll (Bound.outlines item b)) ()
      c ts := by
  cases b with
  | none => exact reads_pure
  | some b => exact reads_emit

theorem next_bound {word : Keyword} {b : Option Bound} {p : Token → Prop} (hp : p (.keyword word))
    (h : Next p ts) : Next p (Bound.tokens word b ++ ts) := by
  cases b with
  | none => exact h
  | some b => exact Next.cons hp

theorem reads_extent {limit offset : Option Bound} (hlimit : ∀ b ∈ limit, b.Reads)
    (hoffset : ∀ b ∈ offset, b.Reads) (hend : AtEnd ts) :
    extent.Reads c (Bound.tokens .limit limit ++ (Bound.tokens .offset offset ++ ts))
      (Outline.eventsAll (Tail.extentOutlines limit offset)) () c ts := by
  have hnext : Next IsExtent (Bound.tokens .offset offset ++ ts) :=
    next_bound (.inr (.inl rfl)) (hend.mono fun t ht => .inr (.inr ht))
  have hlimitWord : (Bound.tokens .offset offset ++ ts).head? ≠ some (.keyword .limit) := by
    cases offset with
    | none => exact hend.ne (by simp)
    | some b => simp [Bound.tokens]
  refine reads_then (reads_bound hlimit hlimitWord)
    (reads_then (reads_bound hoffset (hend.ne (by simp))) ?_)
  have hoffsetEvents : (emitBound .offset (offset.map Bound.number)).Reads c ts _ () c ts :=
    reads_emitBound .offset offset
  have hpagination := reads_within .pagination
    (reads_bind (f := fun _ => emitBound .offset (offset.map Bound.number))
      (reads_emitBound .limit limit) hoffsetEvents)
  cases limit with
  | none =>
      cases offset with
      | none => exact reads_pure
      | some offset => simpa [Tail.extentOutlines, Outline.events] using hpagination
  | some limit =>
      cases offset with
      | none => simpa [Tail.extentOutlines, Outline.events] using hpagination
      | some offset => simpa [Tail.extentOutlines, Outline.events] using hpagination

/-- Behind a variable to sort by there is no direction. -/
def Undirected (ts : List Token) : Prop :=
  ts.head? ≠ some (.keyword .desc) ∧ ts.head? ≠ some (.keyword .asc)

theorem sortKey_accepts : sortKey.Accepts .sortKey Undirected := by
  intro c k rest _ _ hstop
  obtain ⟨name, direction⟩ := k
  refine reads_then reads_takeAtom ?_
  cases direction with
  | bare =>
      exact reads_then (reads_accept_other hstop.1) (reads_then (reads_accept_other hstop.2)
        reads_emit)
  | ascending =>
      exact reads_then (reads_accept_other (by simp [Direction.tokens]))
        (reads_then reads_accept reads_emit)
  | descending => exact reads_then reads_accept reads_emit

theorem reads_sorting {keys : List SortKey} (hnext : Next IsExtent ts) :
    sorting.Reads c (Tail.orderTokens keys ++ ts)
      (Outline.eventsAll (Tail.orderOutlines c.scope keys)) () c ts := by
  cases keys with
  | nil => exact reads_then (reads_accept_other (hnext.ne (by simp [IsExtent]))) reads_pure
  | cons k ks =>
      refine reads_then reads_accept (reads_then reads_expect ?_)
      have hstop : Parted Undirected ts :=
        ⟨⟨hnext.ne (by simp [IsExtent]), hnext.ne (by simp [IsExtent])⟩,
          hnext.ne (by simp [IsExtent])⟩
      have hkeys := accepts_within (accepts_items sortKey_accepts (fun _ => by simp [Undirected]))
        .ordering (c := c) (x := k :: ks) ⟨by simp, fun _ _ => trivial⟩ (fun _ _ _ => trivial) hstop
      simpa [Category.events, Category.inside, Tail.orderOutlines] using hkeys

theorem next_tail {t : Tail} (hend : AtEnd ts) : Next IsTail (t.tokens ++ ts) := by
  have hextent : Next IsTail (Bound.tokens .limit t.limit ++ (Bound.tokens .offset t.offset ++ ts)) :=
    next_bound (.inr (.inl rfl)) (next_bound (.inr (.inr (.inl rfl)))
      (hend.mono fun t ht => .inr (.inr (.inr ht))))
  simp only [Tail.tokens, List.append_assoc]
  match t.order with
  | [] => exact hextent
  | _ :: _ => exact Next.cons (.inl rfl)

theorem conditionAndTail_accepts : conditionAndTail.Accepts .condition AtEnd := by
  intro c x rest hrefers hplain hend
  have htail : Next IsTail (x.tail.tokens ++ rest) := next_tail hend
  have hclauses := accepts_within clauses_accepts .condition hrefers.1 hplain
    (htail.parted (by simp [IsTail, IsExtent]) (by simp [IsTail, IsExtent]))
  have hextent : Next IsExtent (Bound.tokens .limit x.tail.limit ++
      (Bound.tokens .offset x.tail.offset ++ rest)) :=
    next_bound (.inl rfl) (next_bound (.inr (.inl rfl)) (hend.mono fun t ht => .inr (.inr ht)))
  have hsorting : sorting.Reads c (Tail.orderTokens x.tail.order ++ _) _ () c _ :=
    reads_sorting hextent
  have hrest := reads_bind (f := fun _ => extent) hsorting
    (reads_extent hrefers.2.1 hrefers.2.2 hend)
  have hall := reads_bind (f := fun _ => do sorting; extent) hclauses
    (by simpa [Tail.tokens] using hrest)
  simpa [conditionAndTail, condition, Category.condition, Category.events, Category.inside,
    Category.clauses, Outline.eventsAll, Tail.outlines] using hall

theorem next_optionalCondition {x : Option (Bool × Condition)} (hend : AtEnd ts) :
    Next IsCondition (Category.optionalCondition.tokens x ++ ts) := by
  match x with
  | none => exact hend.mono fun t ht => .inr (.inr ht)
  | some (false, _) => exact Next.cons (.inl rfl)
  | some (true, _) => exact Next.cons (.inr (.inl rfl))

theorem optionalCondition_accepts : optionalCondition.Accepts .optionalCondition AtEnd := by
  intro c x rest hrefers hplain hend
  match x with
  | none =>
      exact reads_then (reads_accept_other (hend.ne (by simp)))
        (reads_then (reads_accept_other (hend.ne (by simp))) reads_pure)
  | some (isWhere, x) =>
      have hcondition := conditionAndTail_accepts (hrefers _ rfl)
        (fun hlegacy => hplain hlegacy _ rfl) hend
      cases isWhere with
      | false => exact reads_then reads_accept hcondition
      | true =>
          exact reads_then (reads_accept_other (by simp [Category.optionalCondition, conditionWord]))
            (reads_then reads_accept hcondition)

/-! ## Statements -/

theorem iriTerm_accepts : iriTerm.Accepts .iri fun _ => True := by
  intro c x rest hrefers hplain _
  match x, hrefers with
  | .atom kind value, hrefers =>
      obtain rfl : kind = .iri := hrefers.2
      refine reads_take fun first hfirst => ?_
      simp only [hfirst]
      exact reads_emit
  | .qname marker name, hrefers =>
      obtain rfl : marker = none := hrefers.2
      refine reads_take fun first hfirst => ?_
      simp only [hfirst]
      exact reads_then (reads_qnameLeaf hrefers.1.1 hrefers.1.2) reads_emit

theorem projection_accepts : projection.Accepts .projection fun _ => True := by
  intro c x rest _ _ _
  match x with
  | .variable name =>
      refine reads_take fun first hfirst => ?_
      simp only [hfirst]
      exact reads_emit
  | .count name =>
      refine reads_take fun first hfirst => ?_
      simp only [hfirst]
      exact reads_then reads_expect (reads_then reads_takeAtom (reads_then reads_expect reads_emit))

/-- What follows a term that is deleted. -/
def Undeleted (ts : List Token) : Prop := Untyped ts ∧ ts.head? ≠ some (.symbol .lparen)

theorem deletion_accepts : deletion.Accepts .target Undeleted := by
  intro c x rest hrefers hplain hstop
  cases x with
  | call call =>
      obtain ⟨hcall, t, ht⟩ := hrefers
      obtain ⟨behind, hbehind⟩ := tokens_call call
      have hread : predicate.Reads c (_ ++ rest) _ () c rest :=
        predicate_accepts hcall hplain trivial
      refine reads_then reads_peekAt ?_
      simp only [Category.target, hbehind, ht, List.cons_append, List.nil_append,
        List.getElem?_cons_succ, List.getElem?_cons_zero, if_true]
      simpa [Category.call, hbehind, ht, Category.events] using hread
  | term x =>
      have hsecond : (Category.target.tokens (.term x) ++ rest)[1]? ≠ some (.symbol .lparen) := by
        simp only [Category.target]
        match hx : x.tokens with
        | [] => exact absurd hx x.tokens_ne_nil
        | [t] => simpa [List.head?_eq_getElem?] using hstop.2
        | t :: u :: more =>
            have hmem : u ∈ x.tokens := by simp [hx]
            intro hlparen
            obtain rfl : u = .symbol .lparen := by simpa using hlparen
            exact absurd (inert_of_mem_term _ hmem) (by simp [Inert])
      refine reads_then reads_peekAt ?_
      rw [if_neg hsecond]
      exact term_accepts hrefers hplain hstop.1

theorem reads_forM_emit (names : List String) :
    (names.forM fun name => emit (.leaf (.atom .var name)) : Parser Unit).Reads c ts
      (Outline.eventsAll (names.map fun name => .leaf (.atom .var name))) () c ts := by
  induction names with
  | nil => exact reads_pure
  | cons name names ih => exact reads_bind reads_emit ih

/-- A change is read in front of its condition. -/
theorem reads_change (change : Change) {x : Option (Bool × Condition)} {items : Parser Unit}
    {behind : List Token}
    (hitems : ∀ ts, Next IsCondition ts → items.Reads c (behind ++ ts)
      (Outline.eventsAll (change.outlines c.scope)) () c ts)
    (hrefers : Category.optionalCondition.Refers c.scope x)
    (hplain : c.plus = false → Category.optionalCondition.IsPlain x) (hend : AtEnd ts) :
    (within change.container do
      items
      optionalCondition).Reads c (behind ++ (Category.optionalCondition.tokens x ++ ts))
        (Category.statement.events c.scope (.change change x)) () c ts := by
  have hcondition := optionalCondition_accepts hrefers hplain hend
  have hall := reads_within change.container (reads_bind (f := fun _ => optionalCondition)
    (hitems _ (next_optionalCondition hend)) hcondition)
  simpa [Category.statement, Category.events, Outline.events] using hall

theorem reads_content {content : String} :
    (within .fragment do
      (Fragment.mentioned content).forM fun name => emit (.leaf (.atom .var name))
      emit (.leaf (.content content)) : Parser Unit).Reads c ts
        (Change.contentOutline content).events () c ts := by
  simp only [Change.contentOutline, Outline.events, Outline.eventsAll_append,
    Outline.eventsAll_singleton]
  exact reads_within .fragment (reads_bind (reads_forM_emit _) reads_emit)

theorem reads_insert {content : String} {x : Option (Bool × Condition)}
    (hrefers : Category.optionalCondition.Refers c.scope x)
    (hplain : c.plus = false → Category.optionalCondition.IsPlain x) (hend : AtEnd ts) :
    insert.Reads c
      (.keyword .insert :: .fragment content :: (Category.optionalCondition.tokens x ++ ts))
      (Category.statement.events c.scope (.change (.insert content) x)) () c ts := by
  have hcondition := optionalCondition_accepts hrefers hplain hend
  have hall : insert.Reads c
      (.keyword .insert :: .fragment content :: (Category.optionalCondition.tokens x ++ ts))
      (.enter .insert :: ((Change.contentOutline content).events ++
        Category.optionalCondition.events c.scope x ++ [Event.leave .insert])) () c ts := by
    refine reads_take? fun first _ => reads_within .insert (reads_take fun second hsecond => ?_)
    simp only [hsecond]
    exact reads_bind reads_content hcondition
  simpa [Category.statement, Category.events, Outline.events, Outline.eventsAll,
    Change.outlines, Change.container, Container.tag] using hall

theorem reads_update {calls : List Call} {x : Option (Bool × Condition)}
    (hrefers : Category.statement.Refers c.scope (.change (.update calls) x))
    (hplain : c.plus = false → Category.statement.IsPlain (.change (.update calls) x))
    (hend : AtEnd ts) :
    update.Reads c
      (.keyword .update ::
        (Category.call.list.tokens calls ++ (Category.optionalCondition.tokens x ++ ts)))
      (Category.statement.events c.scope (.change (.update calls) x)) () c ts :=
  reads_take? fun first _ => reads_change (.update calls)
    (fun ts hnext => accepts_items predicate_accepts (fun _ => trivial) hrefers.1
      (fun hlegacy => (hplain hlegacy).1) ⟨trivial, hnext.ne (by simp [IsCondition])⟩)
    hrefers.2 (fun hlegacy => (hplain hlegacy).2) hend

theorem reads_delete {targets : List Target} {x : Option (Bool × Condition)}
    (hrefers : Category.statement.Refers c.scope (.change (.delete targets) x))
    (hplain : c.plus = false → Category.statement.IsPlain (.change (.delete targets) x))
    (hend : AtEnd ts) :
    delete.Reads c
      (.keyword .delete ::
        (Category.target.list.tokens targets ++ (Category.optionalCondition.tokens x ++ ts)))
      (Category.statement.events c.scope (.change (.delete targets) x)) () c ts :=
  reads_take? fun first _ => reads_change (.delete targets)
    (fun ts hnext => accepts_items deletion_accepts
      (fun _ => ⟨untyped_symbol _ (by simp), by simp⟩) hrefers.1
      (fun hlegacy => (hplain hlegacy).1)
      ⟨⟨hnext.ne (by simp [IsCondition]), hnext.ne (by simp [IsCondition])⟩,
        hnext.ne (by simp [IsCondition])⟩)
    hrefers.2 (fun hlegacy => (hplain hlegacy).2) hend

theorem reads_merge {first second : Phrase.Term} {x : Option (Bool × Condition)}
    (hrefers : Category.statement.Refers c.scope (.change (.merge first second) x))
    (hplain : c.plus = false → Category.statement.IsPlain (.change (.merge first second) x))
    (hend : AtEnd ts) :
    merge.Reads c
      (.keyword .merge ::
        (first.tokens ++ .symbol .comma ::
          (second.tokens ++ (Category.optionalCondition.tokens x ++ ts))))
      (Category.statement.events c.scope (.change (.merge first second) x)) () c ts := by
  have hfirst := term_accepts hrefers.1.1 (fun hlegacy => (hplain hlegacy).1.1)
    (untyped_symbol .comma (by simp) :
      Untyped (_ :: (second.tokens ++ (Category.optionalCondition.tokens x ++ ts))))
  have hsecond := term_accepts hrefers.1.2 (fun hlegacy => (hplain hlegacy).1.2)
    ((next_optionalCondition hend).ne (by simp [IsCondition]) :
      Untyped (Category.optionalCondition.tokens x ++ ts))
  have hcondition := optionalCondition_accepts hrefers.2 (fun hlegacy => (hplain hlegacy).2) hend
  have hall : merge.Reads c
      (.keyword .merge ::
        (first.tokens ++ .symbol .comma ::
          (second.tokens ++ (Category.optionalCondition.tokens x ++ ts)))) _ () c ts :=
    reads_take? fun _ _ => reads_within .merge
      (reads_bind hfirst (reads_then reads_expect (reads_bind hsecond hcondition)))
  simpa [Category.statement, Category.events, Category.term, Outline.events, Outline.eventsAll,
    Change.outlines, Change.container] using hall

theorem reads_select {projections : List Phrase.Projection} {isWhere : Bool} {x : Condition}
    (hrefers : Category.statement.Refers c.scope (.select projections isWhere x))
    (hplain : c.plus = false → Category.statement.IsPlain (.select projections isWhere x))
    (hend : AtEnd ts) :
    select.Reads c
      (.keyword .select :: (Category.projection.list.tokens projections ++
        .keyword (conditionWord isWhere) :: (Category.condition.tokens x ++ ts)))
      (Category.statement.events c.scope (.select projections isWhere x)) () c ts := by
  have hitems := accepts_items projection_accepts (fun _ => trivial)
    (c := c) (x := projections) ⟨hrefers.1, fun _ _ => trivial⟩ (fun _ _ _ => trivial)
    (⟨trivial, by simp⟩ : Parted (fun _ => True)
      (.keyword (conditionWord isWhere) :: (Category.condition.tokens x ++ ts)))
  have hcondition := conditionAndTail_accepts hrefers.2 hplain hend
  have hall : select.Reads c
      (.keyword .select :: (Category.projection.list.tokens projections ++
        .keyword (conditionWord isWhere) :: (Category.condition.tokens x ++ ts)))
      (.enter .select :: (Category.projection.list.events c.scope projections ++
        Category.condition.events c.scope x ++ [Event.leave .select])) () c ts := by
    refine reads_take? fun _ _ => reads_within .select (reads_bind hitems
      (reads_take fun first hfirst => ?_))
    rw [if_pos (by cases isWhere <;> simp [hfirst, conditionWord])]
    exact hcondition
  simpa [Category.statement, Category.events, Outline.events, Container.tag] using hall

theorem reads_load {source : Phrase.Term} {targets : List Phrase.Term}
    (hrefers : Category.statement.Refers c.scope (.load source targets)) (hplus : c.plus = true)
    (hend : AtEnd ts) :
    load.Reads c (.keyword .load :: (source.tokens ++ (Category.intoTokens targets ++ ts)))
      (Category.statement.events c.scope (.load source targets)) () c ts := by
  have hlegacy : ∀ {p : Prop}, c.plus = false → p := fun h => by simp [hplus] at h
  have hsource : iriTerm.Reads c (source.tokens ++ _) _ () c (Category.intoTokens targets ++ ts) :=
    iriTerm_accepts hrefers.1 hlegacy trivial
  have hinto : (do
      if ← acceptWord .into then within .into (items iriTerm) : Parser Unit).Reads c
        (Category.intoTokens targets ++ ts)
        (Outline.eventsAll (Category.intoOutlines c.scope targets)) () c ts := by
    cases targets with
    | nil => exact reads_then (reads_accept_other (hend.ne (by simp))) reads_pure
    | cons t targets =>
        have htargets := accepts_within (accepts_items iriTerm_accepts fun _ => trivial) .into
          (x := t :: targets) ⟨by simp, hrefers.2⟩ hlegacy
          (⟨trivial, hend.ne (by simp)⟩ : Parted (fun _ => True) ts)
        exact reads_then reads_accept (by
          simpa [Category.events, Category.inside, Category.intoOutlines] using htargets)
  have hall : load.Reads c
      (.keyword .load :: (source.tokens ++ (Category.intoTokens targets ++ ts))) _ () c ts :=
    reads_take fun _ _ => reads_then (reads_requirePlus hplus)
      (reads_within .load (reads_bind hsource hinto))
  simpa [Category.statement, Category.events, Outline.events] using hall

theorem reads_singleIri {what : String} {container : Container} {source : Phrase.Term} {t : Token}
    (hrefers : Category.iri.Refers c.scope source) (hplus : c.plus = true) :
    (singleIri what container).Reads c (t :: (source.tokens ++ ts))
      (Outline.within container (Category.iri.outlines c.scope source)).events () c ts := by
  rw [Outline.events]
  exact reads_take fun _ _ => reads_then (reads_requirePlus hplus) (reads_within container
    (iriTerm_accepts hrefers (fun h => by simp [hplus] at h) trivial))

/-- A clause begins with a negation, a brace or a term. -/
def IsClauseStart (t : Token) : Prop := t = .keyword .not ∨ t = .symbol .lbrace ∨ Inert t

theorem clause_start (x : Phrase.Clause) : ∃ t more, x.tokens = t :: more ∧ IsClauseStart t := by
  have hterm : ∀ (y : Phrase.Term) (behind : List Token),
      ∃ t more, y.tokens ++ behind = t :: more ∧ IsClauseStart t := by
    intro y behind
    obtain ⟨t, more, htokens⟩ := List.exists_cons_of_ne_nil y.tokens_ne_nil
    exact ⟨t, more ++ behind, by simp [htokens], .inr (.inr (inert_of_head? (by rw [htokens]; rfl)))⟩
  cases x with
  | negation inner => exact ⟨_, _, rfl, .inl rfl⟩
  | alternatives branches => exact ⟨_, _, rfl, .inr (.inl rfl)⟩
  | comparison operator left right => exact hterm left _
  | call call => cases call <;> exact hterm _ _

theorem clauses_start (xs : Clauses) : ∃ t more, xs.tokens = t :: more ∧ IsClauseStart t := by
  cases xs with
  | last x => exact clause_start x
  | cons x xs =>
      obtain ⟨t, more, htokens, ht⟩ := clause_start x
      exact ⟨t, more ++ .symbol .comma :: xs.tokens, by simp [Clauses.tokens, htokens], ht⟩

theorem reads_bareQuery {x : Condition} (hrefers : Category.condition.Refers c.scope x)
    (hplain : c.plus = false → Category.condition.IsPlain x) (hend : AtEnd ts) :
    bareQuery.Reads c (Category.condition.tokens x ++ ts)
      (Category.statement.events c.scope (.bare x)) () c ts := by
  simpa [bareQuery, Category.statement, Category.events, Outline.events] using
    reads_within .select (conditionAndTail_accepts hrefers hplain hend)

theorem statement_accepts : statement.Accepts .statement AtEnd := by
  intro c x rest hrefers hplain hend
  have hlegacy : ¬Category.statement.IsPlain x → c.plus = true := fun h => plus_of_not hplain h
  refine reads_then reads_peek ?_
  cases x with
  | select projections isWhere x =>
      simpa [Category.statement] using reads_select hrefers hplain hend
  | bare x =>
      obtain ⟨t, more, htokens, ht⟩ := clauses_start x.clauses
      have hhead : (Category.statement.tokens (.bare x) ++ rest).head? = some t := by
        simp [Category.statement, Category.condition, htokens]
      have hnot : ∀ word, t = .keyword word → word = .not := by
        rintro word rfl
        simpa [IsClauseStart, Inert] using ht
      rw [hhead]
      have hbare := reads_bareQuery hrefers hplain hend
      split
      all_goals first
        | exact hbare
        | next hword => exact absurd (hnot _ (Option.some.inj hword)) (by simp)
  | change change x =>
      cases change with
      | insert content =>
          simpa [Category.statement, Change.tokens] using
            reads_insert hrefers.2 (fun h => (hplain h).2) hend
      | update calls =>
          simpa [Category.statement, Change.tokens] using reads_update hrefers hplain hend
      | delete targets =>
          simpa [Category.statement, Change.tokens] using reads_delete hrefers hplain hend
      | merge first second =>
          simpa [Category.statement, Change.tokens] using reads_merge hrefers hplain hend
  | load source targets =>
      have hplus := hlegacy (by simp [Category.statement])
      simpa [Category.statement] using reads_load hrefers hplus hend
  | drop source =>
      have hplus := hlegacy (by simp [Category.statement])
      simpa [Category.statement, Category.events] using reads_singleIri hrefers hplus
  | create source =>
      have hplus := hlegacy (by simp [Category.statement])
      simpa [Category.statement, Category.events] using reads_singleIri hrefers hplus

end Statements

end TopicQuery.Grammar
