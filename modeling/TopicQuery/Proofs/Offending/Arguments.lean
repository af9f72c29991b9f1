import TopicQuery.Proofs.Offending.Foreseen
import TopicQuery.Proofs.Recognized.Term

/-!
Terms and argument lists in two runs that begin alike. A term complains about a token only
when it takes it, and no term begins or goes on with that token then. An argument list goes
along with itself, and what is read of it depends on the rest of the list only in ways that
the look ahead has settled.
-/

namespace TopicQuery.Grammar.Spot

open Parser Phrase

variable {o : Spot} {pre : List PlacedToken} {s s' : State} {u : PlacedToken}

/-! ## Terms go along -/

theorem steady_curieLeaf (u : PlacedToken) (name : QualifiedName) (marker : Option ReferenceKind) :
    o.Steady (curieLeaf u name marker) (curieLeaf u name marker) :=
  steady_bind (steady_requirePlus u _) fun _ => steady_bind (steady_kindOf u _) fun _ =>
    steady_pure _

theorem steady_qnameLeaf (u : PlacedToken) (name : QualifiedName) (marker : Option ReferenceKind) :
    o.Steady (qnameLeaf u name marker) (qnameLeaf u name marker) := by
  refine steady_bind (steady_kindOf u _) fun kind => ?_
  split
  · exact steady_failAt rfl
  · exact steady_pure _

theorem steady_datatype : o.Steady datatype datatype := by
  refine steady_take fun u => ?_
  split
  · exact judged_of_steady (steady_pure _)
  · exact judged_of_steady (steady_bind (steady_kindOf u _) fun _ => steady_pure _)
  · exact judged_failExpected

theorem judged_marked (u : PlacedToken) (marker : ReferenceKind) :
    o.Judged u
      (match u.token with
      | .atom .iri value => return markedIri (some marker) value
      | .qname name => qnameLeaf u name (some marker)
      | .curie name => curieLeaf u name (some marker)
      | _ => failExpected u markable : Parser Leaf)
      (match u.token with
      | .atom .iri value => return markedIri (some marker) value
      | .qname name => qnameLeaf u name (some marker)
      | .curie name => curieLeaf u name (some marker)
      | _ => failExpected u markable) := by
  split
  · exact judged_of_steady (steady_pure _)
  · exact judged_of_steady (steady_qnameLeaf ..)
  · exact judged_of_steady (steady_curieLeaf ..)
  · exact judged_failExpected

theorem steady_marked (marker : ReferenceKind) : o.Steady (marked marker) (marked marker) :=
  steady_take fun u => judged_marked u marker

theorem judged_termLeaf (u : PlacedToken) : o.Judged u (termLeaf u) (termLeaf u) := by
  unfold termLeaf
  split
  · refine judged_of_steady (steady_bind (steady_accept _) fun typed => ?_)
    split
    · exact steady_bind steady_datatype fun _ => steady_pure _
    · exact steady_pure _
  · exact judged_of_steady (steady_pure _)
  · exact judged_of_steady (steady_qnameLeaf ..)
  · exact judged_of_steady (steady_curieLeaf ..)
  · split
    · exact judged_of_steady (steady_bind (steady_requirePlus u _) fun _ => steady_marked _)
    · exact judged_failExpected

theorem steady_term : o.Steady term term :=
  steady_take fun u => judged_bind (judged_termLeaf u) fun _ => steady_emit _ _

theorem steady_iriTerm : o.Steady iriTerm iriTerm := by
  refine steady_take fun u => ?_
  split
  · exact judged_of_steady (steady_emit _ _)
  · exact judged_of_steady (steady_bind (steady_qnameLeaf ..) fun _ => steady_emit _ _)
  · exact judged_failExpected

/-! ## The first token of a term -/

theorem beginsTerm_of_head? {x : Phrase.Term} {t : Token} (h : x.tokens.head? = some t) :
    BeginsTerm t := by
  refine ⟨inert_of_head? h, ?_⟩
  rintro rfl
  cases x with
  | atom kind value => simp [Phrase.Term.tokens] at h
  | literal value d => simp [Phrase.Term.tokens] at h
  | qname marker name =>
      obtain _ | _ | _ := marker <;> simp [Phrase.Term.tokens, Marker.tokens, Marker.symbol] at h
  | curie marker name =>
      obtain _ | _ | _ := marker <;> simp [Phrase.Term.tokens, Marker.tokens, Marker.symbol] at h
  | iri marker value => cases marker <;> simp [Phrase.Term.tokens, Marker.symbol] at h

theorem beginsTerm_of_ahead {x : Phrase.Term} {ts : List Token} (h : s.ahead = x.tokens ++ ts) :
    ∃ u rest, s.tokens = u :: rest ∧ BeginsTerm u.token := by
  obtain ⟨t, more, htokens⟩ := List.exists_cons_of_ne_nil x.tokens_ne_nil
  have hahead : s.tokens.map (·.token) = t :: (more ++ ts) := by
    rw [← List.cons_append, ← htokens]
    exact h
  obtain ⟨u, rest, hcons, rfl, -⟩ := exists_cons_of_map hahead
  exact ⟨u, rest, hcons, beginsTerm_of_head? (x := x) (by rw [htokens]; rfl)⟩

/-- A term is taken from a token that begins one. -/
theorem beginsTerm_of_succeeds (h : term.Succeeds s) :
    ∃ u rest, s.tokens = u :: rest ∧ BeginsTerm u.token := by
  obtain ⟨_, _, s₁, hruns⟩ := h
  obtain ⟨x, hx, -⟩ := term_runs hruns
  exact beginsTerm_of_ahead hx.passes.ahead

/-- Nothing is said against a token that begins a term. -/
theorem quits_termLeaf (h : BeginsTerm u.token) : o.Quits (termLeaf u) := by
  unfold termLeaf
  split
  · refine quits_bind (steady_accept _).quits fun typed => ?_
    split
    · exact quits_bind steady_datatype.quits fun _ => quits_pure _
    · exact quits_pure _
  · exact quits_pure _
  · exact (steady_qnameLeaf ..).quits
  · exact (steady_curieLeaf ..).quits
  · next token hstring hatom hqname hcurie =>
    split
    · exact quits_bind (steady_requirePlus u _).quits fun _ => (steady_marked _).quits
    · next hmark =>
      obtain (⟨kind, text, htoken⟩ | ⟨name, htoken⟩ | ⟨name, htoken⟩) | ⟨m, htoken⟩ := h.cases
      · exact absurd htoken (hatom kind text)
      · exact absurd htoken (hqname name)
      · exact absurd htoken (hcurie name)
      · rw [htoken] at hmark
        cases m <;> cases hmark

theorem not_succeeds_termLeaf (h : ¬BeginsTerm u.token) : ¬(termLeaf u).Succeeds s := by
  rintro ⟨_, _, _, hruns⟩
  unfold termLeaf at hruns
  split at hruns
  · next htoken => exact h (Alone.beginsTerm (.inl ⟨_, _, htoken⟩))
  · next htoken => exact h (Alone.beginsTerm (.inl ⟨_, _, htoken⟩))
  · next htoken => exact h (Alone.beginsTerm (.inr (.inl ⟨_, htoken⟩)))
  · next htoken => exact h (Alone.beginsTerm (.inr (.inr ⟨_, htoken⟩)))
  · split at hruns
    · next hmark =>
      obtain ⟨m, htoken, -⟩ := marker_of_markedKind? hmark
      exact h (htoken ▸ beginsTerm_symbol m)
    · exact runs_failExpected.mp hruns

/-- A term that begins with the token is past it. -/
theorem over_term (h : o.Fork [] s s') (hbegins : BeginsTerm o.token.token) : o.Over s term :=
  over_take h.nil.1 ((quits_bind (quits_termLeaf hbegins) fun _ => quits_emit _) _ h.clear)

end TopicQuery.Grammar.Spot

namespace TopicQuery.Grammar

open Parser Phrase

/-! ## Argument lists -/

/-- The recognizer reports events and does nothing else. -/
def Parser.Reports (p : Parser Unit) : Prop := ∀ s, ∃ events, p.Runs s events () s

/-- A list of items up to its closing parenthesis; it may be empty. -/
def listing (item : Parser Unit) : Parser Unit := do
  if ← acceptMark .rparen then return ()
  items item
  expectMark .rparen

/-- A player and its type. -/
def role : Parser Unit :=
  within .pair do
    within .player term
    expectMark .colon
    within .roleType term

/-- A list of players with their types up to its closing parenthesis. -/
def roles : Parser Unit := do
  items role
  expectMark .rparen

/-- What may follow an item. -/
def moreUpTo (item : Parser Unit) : Nat → Parser Unit
  | 0 => return ()
  | n + 1 => do if ← acceptMark .comma then itemsUpTo item n

theorem itemsUpTo_eq (item : Parser Unit) (n : Nat) :
    itemsUpTo item n = item >>= fun _ => moreUpTo item n := by
  cases n with
  | zero => exact (bind_pure item).symm
  | succ n => rfl

theorem role_bind {α : Type} (f : Unit → Parser α) :
    (role >>= f) =
      emit (.enter .pair) >>= fun _ => emit (.enter .player) >>= fun _ => term >>= fun _ =>
        emit (.leave Container.player.tag) >>= fun _ => expectMark .colon >>= fun _ =>
          within .roleType term >>= fun _ => emit (.leave Container.pair.tag) >>= f := by
  simp only [role, within, bind_assoc]

theorem arguments_eq : arguments = expectMark .lparen >>= fun _ => listing term := rfl

theorem associationCall_eq (name : Leaf) :
    associationCall name = within .association
      (callee name >>= fun _ => expectMark .lparen >>= fun _ => roles) := rfl

section Reports

theorem reports_pure : (pure () : Parser Unit).Reports := fun _ =>
  ⟨[], runs_pure.mpr ⟨rfl, rfl, rfl⟩⟩

theorem reports_emit (event : Event) : (emit event).Reports := fun _ =>
  ⟨[event], runs_emit.mpr ⟨rfl, rfl⟩⟩

theorem reports_bind {p q : Parser Unit} (hp : p.Reports) (hq : q.Reports) :
    (p >>= fun _ => q).Reports := by
  intro s
  obtain ⟨first, hfirst⟩ := hp s
  obtain ⟨second, hsecond⟩ := hq s
  exact ⟨_, runs_bind.mpr ⟨first, (), s, second, hfirst, hsecond, rfl⟩⟩

theorem reports_callee (name : Leaf) : (callee name).Reports := fun _ =>
  ⟨_, runs_within.mpr ⟨_, runs_emit.mpr ⟨rfl, rfl⟩, rfl⟩⟩

theorem Parser.Reports.gives {p : Parser Unit} (hp : p.Reports) (s : State) : p.Gives s () s := by
  intro _ _ _ h
  obtain ⟨events, hreports⟩ := hp s
  cases hreports.symm.trans h
  exact ⟨rfl, rfl⟩

end Reports

/-! ## Successes -/

section Succeeds

variable {s : State}

theorem succeeds_items {item : Parser Unit} (h : (items item).Succeeds s) : item.Succeeds s := by
  have hupTo := succeeds_rest gives_state h
  rw [itemsUpTo_eq] at hupTo
  exact succeeds_first hupTo

theorem succeeds_roles (h : roles.Succeeds s) : term.Succeeds s :=
  succeeds_within (succeeds_first (succeeds_within (succeeds_items (succeeds_first h))))

theorem succeeds_expect {token : Token} (h : (expect token).Succeeds s) :
    s.ahead.head? = some token := by
  obtain ⟨_, _, _, hruns⟩ := h
  obtain ⟨-, t, rest, htokens, rfl, -⟩ := runs_expect.mp hruns
  simp [State.ahead, htokens]

theorem exists_cons_of_head? {t : Token} (h : s.ahead.head? = some t) :
    ∃ v rest, s.tokens = v :: rest ∧ v.token = t := by
  obtain ⟨more, hmore⟩ := List.head?_eq_some_iff.mp h
  obtain ⟨v, rest, htokens, hv, -⟩ := exists_cons_of_map hmore
  exact ⟨v, rest, htokens, hv⟩

/-- Behind an item a list goes on with a comma or ends. -/
theorem head?_of_more {item : Parser Unit} {n : Nat}
    (h : (moreUpTo item n >>= fun _ => expectMark .rparen).Succeeds s) :
    s.ahead.head? = some (.symbol .comma) ∨ s.ahead.head? = some (.symbol .rparen) := by
  obtain ⟨_, _, s', hruns⟩ := h
  obtain ⟨_, _, between, _, hmore, hclose, -⟩ := runs_bind.mp hruns
  have hend := succeeds_expect ⟨_, _, _, hclose⟩
  cases n with
  | zero =>
      obtain ⟨-, -, rfl⟩ := runs_pure.mp hmore
      exact .inr hend
  | succ n =>
      obtain ⟨_, more, s₁, _, haccept, hitems, -⟩ := runs_bind.mp hmore
      obtain ⟨-, ⟨-, t, rest, htokens, ht, -⟩ | ⟨rfl, -, -, rfl⟩⟩ := runs_accept.mp haccept
      · exact .inl (by simp [State.ahead, htokens, ht])
      · obtain ⟨-, -, rfl⟩ := runs_pure.mp hitems
        exact .inr hend

end Succeeds

namespace Spot

variable {o : Spot} {α β : Type} {pre : List PlacedToken} {s s' : State} {u : PlacedToken}

/-! ## Steps of one run -/

theorem silent_reports {p : Parser Unit} (hp : p.Reports) : o.Silent p := by
  rintro s fault ⟨told, hstops⟩
  obtain ⟨events, hreports⟩ := hp s
  cases hreports.symm.trans hstops

theorem quits_reports {p : Parser Unit} (hp : p.Reports) : o.Quits p :=
  quits_of_gives (silent_reports hp) fun s => ⟨(), hp.gives s⟩

theorem lockedAt_reports {p p' : Parser Unit} {f f' : Unit → Parser β} (hp : p.Reports)
    (hp' : p'.Reports) (hf : o.LockedAt pre s s' (f ()) (f' ())) :
    o.LockedAt pre s s' (p >>= f) (p' >>= f') :=
  lockedAt_rest (Nat.le_refl _) (silent_reports hp) (hp.gives s) (hp'.gives s') hf

theorem lockedAt_reports_left {p : Parser Unit} {f : Unit → Parser β} {q : Parser β}
    (hp : p.Reports) (hf : o.LockedAt pre s s' (f ()) q) : o.LockedAt pre s s' (p >>= f) q := by
  rw [← pure_bind () fun _ => q]
  exact lockedAt_reports hp reports_pure hf

theorem lockedAt_reports_right {p' : Parser Unit} {f' : Unit → Parser β} {q : Parser β}
    (hp' : p'.Reports) (hf : o.LockedAt pre s s' q (f' ())) :
    o.LockedAt pre s s' q (p' >>= f') := by
  rw [← pure_bind () fun _ => q]
  exact lockedAt_reports reports_pure hp' hf

/-- A mark that is not next is not taken. -/
theorem gives_accept_other {token : Token} (hhead : s.ahead.head? ≠ some token) :
    (accept token).Gives s false s := by
  intro _ _ _ h
  obtain ⟨-, ⟨-, t, rest, htokens, rfl, -⟩ | ⟨rfl, -, -, rfl⟩⟩ := runs_accept.mp h
  · exact absurd (by simp [State.ahead, htokens]) hhead
  · exact ⟨rfl, rfl⟩

theorem silent_accept (token : Token) : o.Silent (accept token) := by
  intro s fault h
  obtain h | ⟨_, a, between, -, h⟩ := stops_bind.mp h
  · exact silent_peek _ _ h
  · split at h
    · obtain h | ⟨_, _, _, -, h⟩ := stops_bind.mp h
      · exact silent_take? _ _ h
      · exact (stops_pure.mp h).elim
    · exact (stops_pure.mp h).elim

theorem over_accept_other {token : Token} {f : Bool → Parser β} (hhead : s.ahead.head? ≠ some token)
    (hf : o.Over s (f false)) : o.Over s (accept token >>= f) :=
  over_rest (silent_accept token) (gives_accept_other hhead) hf

theorem lockedAt_accept_left {token : Token} {f : Bool → Parser β} {q : Parser β}
    (hhead : s.ahead.head? ≠ some token) (hf : o.LockedAt pre s s' (f false) q) :
    o.LockedAt pre s s' (accept token >>= f) q := by
  rw [← pure_bind () fun _ => q]
  exact lockedAt_rest (Nat.le_refl _) (silent_accept token) (gives_accept_other hhead)
    (reports_pure.gives s') hf

theorem lockedAt_accept_right {token : Token} {f' : Bool → Parser β} {q : Parser β}
    (hhead : s'.ahead.head? ≠ some token) (hf : o.LockedAt pre s s' q (f' false)) :
    o.LockedAt pre s s' q (accept token >>= f') := by
  rw [← pure_bind () fun _ => q]
  exact lockedAt_rest (Nat.le_refl _) (silent_reports reports_pure) (reports_pure.gives s)
    (gives_accept_other hhead) hf

/-- A mark is expected where another token stands. -/
theorem over_expect_other {token : Token} {f : Unit → Parser β} {rest : List PlacedToken}
    (htokens : s.tokens = u :: rest) (hu : u.token ≠ token)
    (hspared : ¬o.token.Alike u ∨ o.spared (.expected ("'" ++ token.text ++ "'") u.token)) :
    o.Over s (expect token >>= f) := by
  have hfail : o.Over (s.behind u rest)
      (if u.token = token then return ()
        else failExpected u ("'" ++ token.text ++ "'") : Parser Unit) := by
    rw [if_neg hu]
    obtain hapart | hspared := hspared
    · exact over_failExpected hapart
    · exact over_fail (not_blames_spared hspared)
  refine over_bind_of_runs ?_ fun _ a s₁ h => ?_
  · exact (over_take htokens hfail).stops
  · obtain ⟨-, t, more, hcons, ht, -⟩ := runs_expect.mp h
    obtain ⟨rfl, -⟩ := List.cons.inj (htokens.symm.trans hcons)
    exact absurd ht hu

/-! ## Lists -/

theorem inert_of_term {events : List Event} {a : Unit} {s₁ : State} {rest : List PlacedToken}
    (h : term.Runs s events a s₁) (htokens : s.tokens = pre ++ rest) (hbehind : s₁.tokens = rest) :
    ∀ u ∈ pre, Inert u.token := by
  obtain ⟨x, hx, -⟩ := term_runs h
  have hahead : pre.map (·.token) ++ rest.map (·.token) = x.tokens ++ rest.map (·.token) := by
    rw [← List.map_append, ← htokens, ← hbehind]
    exact hx.passes.ahead
  intro u hu
  refine inert_of_mem_term (x := x) _ ?_
  rw [← List.append_cancel_right hahead]
  exact List.mem_map_of_mem hu

/-- Behind an item a list does not go on with a colon. -/
theorem over_more_colon {item : Parser Unit} {n : Nat}
    (hhead : s.ahead.head? = some (.symbol .colon))
    (hspared : ∀ v, s.tokens.head? = some v → v.token = .symbol .colon →
      ¬o.token.Alike v ∨ o.spared (.expected "')'" v.token)) :
    o.Over s (moreUpTo item n >>= fun _ => expectMark .rparen) := by
  obtain ⟨v, rest, htokens, hv⟩ := exists_cons_of_head? hhead
  have hclose : o.Over s (expectMark .rparen) := by
    have hother : v.token ≠ .symbol .rparen := by simp [hv]
    have h := over_expect_other (f := pure) htokens hother (hspared v (by rw [htokens]; rfl) hv)
    rwa [bind_pure] at h
  cases n with
  | zero => exact hclose
  | succ n =>
      unfold moreUpTo
      rw [bind_assoc]
      exact over_accept_other (by simp [hhead]) hclose

theorem quits_moreUpTo {item : Parser Unit} (h : o.Quits item) (n : Nat) :
    o.Quits (moreUpTo item n) := by
  cases n with
  | zero => exact quits_pure ()
  | succ n =>
      refine quits_bind (steady_accept _).quits fun more => ?_
      split
      · exact quits_itemsUpTo h n
      · exact quits_pure ()

theorem quits_listing {item : Parser Unit} (h : o.Quits item) : o.Quits (listing item) := by
  refine quits_bind (steady_accept _).quits fun closed => ?_
  cases closed with
  | true => exact quits_pure ()
  | false => exact quits_bind (quits_items h) fun _ => (steady_expect _).quits

theorem lockedAt_listing {item item' : Parser Unit} (hquits : o.Quits item)
    (hitem : ∀ pre s s', o.Fork pre s s' → o.LockedAt pre s s' item item') (h : o.Fork pre s s') :
    o.LockedAt pre s s' (listing item) (listing item') := by
  refine lockedAt_bind ((steady_accept _).locked _ _ _ h) (fun closed => ?_)
    fun _ closed s₁ pre₁ s₁' _ h₁ _ => ?_
  · cases closed with
    | true => exact quits_pure ()
    | false => exact quits_bind (quits_items hquits) fun _ => (steady_expect _).quits
  cases closed with
  | true => exact lockedAt_pure h₁ ()
  | false =>
      exact lockedAt_bind (lockedAt_items hquits hitem h₁) (fun _ => (steady_expect _).quits)
        fun _ _ _ _ _ _ h₂ _ => (steady_expect _).locked _ _ _ h₂

theorem steady_role : o.Steady role role :=
  steady_within (steady_bind (steady_within steady_term) fun _ =>
    steady_bind (steady_expect _) fun _ => steady_within steady_term)

theorem steady_roles : o.Steady roles roles :=
  steady_bind (steady_items steady_role) fun _ => steady_expect _

/-- The first run takes items, the second one pairs: a colon behind the first item is refused. -/
theorem lockedAt_listing_roles {item : Parser Unit} (h : o.Fork pre s s') (hquits : o.Quits item)
    (hitem : ∀ pre s s', o.Fork pre s s' → o.LockedAt pre s s' item term)
    (hcolon : ∀ events s₁, item.Runs s events () s₁ → s₁.tokens = o.token :: o.behind →
      o.token.token = .symbol .colon → o.spared (.expected "')'" o.token.token)) :
    o.LockedAt pre s s' (listing item) roles := by
  intro hsucceeds
  obtain ⟨u, rest, htokens, hbegins⟩ := beginsTerm_of_succeeds (succeeds_roles hsucceeds)
  have hhead : s.ahead.head? ≠ some (.symbol .rparen) := by
    rw [← h.head?, State.ahead, htokens]
    intro heq
    have hu : u.token = .symbol .rparen := Option.some.inj heq
    rw [hu] at hbegins
    simp [BeginsTerm, Inert] at hbegins
  refine lockedAt_accept_left hhead ?_ hsucceeds
  simp only [Bool.false_eq_true, if_false, roles, items, bind_assoc, itemsUpTo_eq, role_bind]
  refine lockedAt_state ?_
  refine lockedAt_reports_right (reports_emit _) (lockedAt_reports_right (reports_emit _) ?_)
  refine lockedAt_bind (hitem _ _ _ h) (fun _ => ?_) fun events _ s₁ pre₁ s₁' hruns h₁ _ => ?_
  · exact quits_bind (quits_moreUpTo hquits _) fun _ => (steady_expect _).quits
  refine lockedAt_reports_right (reports_emit _) fun hbehind => ?_
  have hnext := succeeds_expect (succeeds_first hbehind)
  rw [h₁.head?] at hnext
  refine (over_more_colon hnext fun v hfirst hcolonToken => ?_).along
  cases pre₁ with
  | nil =>
      obtain rfl : o.token = v := by simpa [h₁.tokens] using hfirst
      exact .inr (hcolon events s₁ hruns h₁.nil.1 hcolonToken)
  | cons w pre₁ =>
      obtain rfl : w = v := by simpa [h₁.tokens] using hfirst
      exact .inl (h₁.apart w List.mem_cons_self)

/-- The first run takes pairs, the second one items: behind the first term a comma is refused. -/
theorem lockedAt_roles_listing (hspared : ∀ g, Foreseen o.before o.token o.behind g → o.spared g)
    {item' : Parser Unit} (h : o.Fork pre s s')
    (hitem : ∀ pre s s', o.Fork pre s s' → o.LockedAt pre s s' term item')
    {lparen : PlacedToken} (hopens : lparen.token = .symbol .lparen)
    (hbefore : lparen :: pre <:+ o.before) {shape : CallShape}
    (hseen : (shapeFrom 1 0 false s.tokens).value = some shape) (hpairs : shape.pairs = true) :
    o.LockedAt pre s s' roles (listing item') := by
  have hhead : s'.ahead.head? ≠ some (.symbol .rparen) := by
    rw [h.head?]
    intro hclose
    obtain ⟨v, rest, htokens, hv⟩ := exists_cons_of_head? hclose
    rw [htokens, shapeFrom_rparen hv (Nat.le_refl _)] at hseen
    obtain rfl := Option.some.inj hseen
    cases hpairs
  refine lockedAt_accept_right hhead ?_
  simp only [Bool.false_eq_true, if_false, roles, items, bind_assoc, itemsUpTo_eq, role_bind]
  refine lockedAt_state ?_
  refine lockedAt_reports_left (reports_emit _) (lockedAt_reports_left (reports_emit _) ?_)
  refine lockedAt_bind (hitem _ _ _ h) (fun _ => ?_) fun events _ s₁ pre₁ s₁' hruns h₁ _ => ?_
  · exact quits_bind (quits_emit _) fun _ => quits_bind (steady_expect _).quits fun _ =>
      quits_bind (quits_within steady_term.quits) fun _ => quits_bind (quits_emit _) fun _ =>
        quits_bind (quits_moreUpTo steady_role.quits _) fun _ => (steady_expect _).quits
  refine lockedAt_reports_left (reports_emit _) fun hbehind => ?_
  have hnext := head?_of_more hbehind
  rw [h₁.head?] at hnext
  obtain ⟨v, rest, htokens, hv⟩ : ∃ v rest, s₁.tokens = v :: rest ∧
      (v.token = .symbol .comma ∨ v.token = .symbol .rparen) := by
    obtain hnext | hnext := hnext
    · obtain ⟨v, rest, htokens, hv⟩ := exists_cons_of_head? hnext
      exact ⟨v, rest, htokens, .inl hv⟩
    · obtain ⟨v, rest, htokens, hv⟩ := exists_cons_of_head? hnext
      exact ⟨v, rest, htokens, .inr hv⟩
  refine (over_expect_other htokens (by obtain hv | hv := hv <;> simp [hv]) ?_).along
  cases pre₁ with
  | cons w pre₁ =>
      obtain rfl : v = w := (List.cons.inj (htokens.symm.trans h₁.tokens)).1
      exact .inl (h₁.apart v List.mem_cons_self)
  | nil =>
      obtain rfl : v = o.token := (List.cons.inj (htokens.symm.trans h₁.nil.1)).1
      -- the tokens in front are those of the first term
      have hinert : ∀ u ∈ pre, Inert u.token := inert_of_term hruns h.tokens h₁.nil.1
      rw [h.tokens] at hseen
      refine .inr (hspared _ ?_)
      obtain hcomma | hclose := hv
      · obtain ⟨front, hfront⟩ := hbefore
        exact .firstArgument hcomma hfront.symm hopens hinert hseen hpairs
      · rw [shapeFrom_behind hinert, shapeFrom_rparen hclose (Nat.le_refl _)] at hseen
        obtain rfl := Option.some.inj hseen
        cases hpairs

end Spot

end TopicQuery.Grammar
