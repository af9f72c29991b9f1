import TopicQuery.Proofs.Offending.Arguments
import TopicQuery.Proofs.Recognized.Clause

/-!
Calls in two runs that begin alike. The looks at the argument list may see different
things in the two runs: then the list is still open at the token where they part.
-/

namespace TopicQuery.Grammar

open Parser Phrase

/-- The arguments of a call behind the opening parenthesis. -/
def argumentList (pairs : Bool) : Parser Unit := if pairs then roles else listing term

/-- A call behind its name. -/
def called (shape : CallShape) (name : Leaf × NameForm) : Parser Unit :=
  if shape.pairs then associationCall name.1
  else do
    let s ← state
    match callContainer s.rules name.2 shape.arity with
    | .builtin name hints => within (.builtin name hints) arguments
    | container => plainCall container name.1

/-- A call behind the token of its name, by what is seen of its arguments. -/
def named (t : PlacedToken) (marker : Option ReferenceKind) : Option CallShape → Parser Unit
  | none => do
    match ← take? with
    | some found => failExpected found "'(' after the predicate name"
    | none => failAtEnd "'(' after the predicate name"
  | some shape => calleeOf t marker >>= called shape

theorem predicate_eq : predicate =
    calleeMarker >>= fun marker => take "a predicate name" >>= fun t =>
      look (callShape 0) >>= named t marker := rfl

/-- In any state a call is its arguments between two reports. -/
theorem called_apply (shape : CallShape) (name : Leaf × NameForm) (s : State) :
    ∃ (p : Parser Unit) (e : Event), p.Reports ∧
      called shape name s =
        (p >>= fun _ => expectMark .lparen >>= fun _ => argumentList shape.pairs >>= fun _ =>
          emit e) s := by
  unfold called argumentList
  split
  · refine ⟨emit (.enter .association) >>= fun _ => callee name.1, .leave Container.association.tag,
      reports_bind (reports_emit _) (reports_callee _), ?_⟩
    simp only [associationCall_eq, within, bind_assoc]
  · change ∃ p e, _ ∧ (match callContainer s.rules name.2 shape.arity with
      | .builtin name hints => within (.builtin name hints) arguments
      | container => plainCall container name.1) s = _
    generalize callContainer s.rules name.2 shape.arity = container
    generalize hcall : (match container with
      | .builtin name hints => within (.builtin name hints) arguments
      | container => plainCall container name.1) = call
    split at hcall
    · next builtin hints =>
      subst hcall
      refine ⟨emit (.enter (.builtin builtin hints)), .leave (Container.builtin builtin hints).tag,
        reports_emit _, ?_⟩
      simp only [arguments_eq, within, bind_assoc]
    · subst hcall
      refine ⟨emit (.enter container) >>= fun _ => callee name.1, .leave container.tag,
        reports_bind (reports_emit _) (reports_callee _), ?_⟩
      simp only [plainCall, arguments_eq, within, bind_assoc]

/-- What is seen of an argument list behind its parenthesis. -/
theorem shapeFrom_of_callShape {tokens : List PlacedToken} {shape : CallShape}
    (h : (callShape 0 tokens).value = some shape) :
    ∃ t rest seen, tokens = t :: rest ∧ t.token = .symbol .lparen ∧
      (shapeFrom 1 0 false rest).value = some seen ∧ seen.pairs = shape.pairs ∧
      seen.next = shape.next := by
  unfold callShape at h
  rw [List.drop_zero] at h
  split at h
  · cases h
  · next t rest =>
    split at h
    · next ht =>
      obtain ⟨seen, hseen, rfl⟩ := Option.map_eq_some_iff.mp h
      refine ⟨t, rest, seen, rfl, ht, hseen, ?_, ?_⟩ <;> split <;> rfl
    · cases h

theorem callShape_of_shapeFrom {t : PlacedToken} {rest : List PlacedToken} {seen : CallShape}
    (ht : t.token = .symbol .lparen) (h : (shapeFrom 1 0 false rest).value = some seen) :
    ∃ shape, (callShape 0 (t :: rest)).value = some shape ∧ shape.next = seen.next := by
  simp only [callShape, List.drop_zero, ht, if_true, h, Option.map_some]
  refine ⟨_, rfl, ?_⟩
  split <;> rfl

theorem calleeOf_keeps {t : PlacedToken} {marker : Option ReferenceKind} {s s' : State}
    {events : List Event} {name : Leaf × NameForm}
    (h : (calleeOf t marker).Runs s events name s') : s' = s := by
  unfold calleeOf at h
  split at h
  · obtain ⟨_, _, _, _, hunmarked, hpure, -⟩ := runs_bind.mp h
    obtain ⟨-, -, rfl⟩ := unmarked_runs.mp hunmarked
    exact (runs_pure.mp hpure).2.2.symm
  · obtain ⟨_, kind, _, _, hkind, hname, -⟩ := runs_bind.mp h
    obtain ⟨-, -, rfl⟩ := runs_kindOf.mp hkind
    split at hname
    · exact (runs_failAt.mp hname).elim
    all_goals exact (runs_pure.mp hname).2.2.symm
  · obtain ⟨_, leaf, _, _, hcurie, hpure, -⟩ := runs_bind.mp h
    obtain ⟨-, rfl, -⟩ := curieLeaf_runs hcurie
    exact (runs_pure.mp hpure).2.2.symm
  · exact (runs_pure.mp h).2.2.symm
  · split at h
    · obtain ⟨_, _, _, _, hunmarked, hpure, -⟩ := runs_bind.mp h
      obtain ⟨-, -, rfl⟩ := unmarked_runs.mp hunmarked
      exact (runs_pure.mp hpure).2.2.symm
    · exact (runs_failExpected.mp h).elim
  · exact (runs_failExpected.mp h).elim

namespace Spot

variable {o : Spot} {α β : Type} {pre : List PlacedToken} {s s' : State} {u : PlacedToken}

/-! ## Names -/

theorem judged_unmarked (u : PlacedToken) (marker : Option ReferenceKind) :
    o.Judged u (unmarked u marker) (unmarked u marker) := by
  cases marker with
  | none => exact judged_of_steady (steady_pure ())
  | some _ => exact judged_failExpected

theorem judged_calleeOf (u : PlacedToken) (marker : Option ReferenceKind) :
    o.Judged u (calleeOf u marker) (calleeOf u marker) := by
  unfold calleeOf
  split
  · exact judged_bind (judged_unmarked u marker) fun _ => steady_pure _
  · refine judged_of_steady (steady_bind (steady_kindOf u _) fun kind => ?_)
    split
    · exact steady_failAt rfl
    · exact steady_pure _
    · exact steady_pure _
    · exact steady_pure _
  · exact judged_of_steady (steady_bind (steady_curieLeaf ..) fun _ => steady_pure _)
  · exact judged_of_steady (steady_pure _)
  · split
    · exact judged_bind (judged_unmarked u marker) fun _ => steady_pure _
    · exact judged_failExpected
  · exact judged_failExpected

theorem steady_calleeMarker : o.Steady calleeMarker calleeMarker := by
  refine steady_bind steady_peek fun token => ?_
  split
  · exact steady_pure _
  · exact steady_take fun u => judged_of_steady (steady_bind (steady_requirePlus u _) fun _ =>
      steady_pure _)

/-! ## Arguments -/

theorem lockedAt_congr {p q p' q' : Parser α} (h : p s = q s) (h' : p' s' = q' s')
    (hlocked : o.LockedAt pre s s' q q') : o.LockedAt pre s s' p p' := by
  rintro ⟨events, a, s₁, hruns⟩
  obtain ⟨hstops, hlocked⟩ := hlocked ⟨events, a, s₁, h'.symm.trans hruns⟩
  refine ⟨fun fault ⟨events, hstop⟩ => hstops fault ⟨events, h.symm.trans hstop⟩,
    fun events a s₁ hruns => ?_⟩
  obtain hclear | ⟨pre₁, told, s₁', hruns', hfork⟩ := hlocked events a s₁ (h.symm.trans hruns)
  · exact .inl hclear
  · exact .inr ⟨pre₁, told, s₁', h'.trans hruns', hfork⟩

theorem over_congr {p q : Parser α} (h : p s = q s) (hover : o.Over s q) : o.Over s p :=
  ⟨fun fault ⟨events, hstop⟩ => hover.stops fault ⟨events, h.symm.trans hstop⟩,
    fun events a s₁ hruns => hover.runs events a s₁ (h.symm.trans hruns)⟩

theorem quits_argumentList (pairs : Bool) : o.Quits (argumentList pairs) := by
  cases pairs with
  | true => exact steady_roles.quits
  | false => exact quits_listing steady_term.quits

/-- Behind the parenthesis: lists that are seen to be of different kinds part at the token. -/
theorem lockedAt_argumentList (hspared : ∀ g, Foreseen o.before o.token o.behind g → o.spared g)
    (h : o.Fork pre s s') {lparen : PlacedToken} (hopens : lparen.token = .symbol .lparen)
    (hbefore : lparen :: pre <:+ o.before) {shape : CallShape}
    (hseen : (shapeFrom 1 0 false s.tokens).value = some shape) (pairs' : Bool) :
    o.LockedAt pre s s' (argumentList shape.pairs) (argumentList pairs') := by
  cases hpairs : shape.pairs <;> cases pairs'
  · exact lockedAt_listing steady_term.quits steady_term.locked h
  · refine lockedAt_listing_roles h steady_term.quits steady_term.locked
      fun events s₁ hruns hbehind hcolon => ?_
    -- a colon behind the first argument would have been seen
    have hinert := inert_of_term hruns h.tokens hbehind
    rw [h.tokens, shapeFrom_behind hinert, shapeFrom, hcolon] at hseen
    rw [pairs_shapeFrom hseen] at hpairs
    cases hpairs
  · exact lockedAt_roles_listing hspared h steady_term.locked hopens hbefore hseen hpairs
  · exact steady_roles.locked _ _ _ h

theorem quits_called (shape : CallShape) (name : Leaf × NameForm) :
    o.Quits (called shape name) := by
  intro s hs
  obtain ⟨p, e, hp, happly⟩ := called_apply shape name s
  refine over_congr happly ?_
  exact (quits_bind (quits_reports hp) fun _ => quits_bind (steady_expect _).quits fun _ =>
    quits_bind (quits_argumentList _) fun _ => quits_emit e) s hs

theorem Fork.of_expect {token : Token} {events : List Event} {a : Unit} {pre₁ : List PlacedToken}
    {s₁ s₁' : State} (h : o.Fork pre s s') (hruns : (expect token).Runs s events a s₁)
    (h₁ : o.Fork pre₁ s₁ s₁') :
    ∃ u, pre = u :: pre₁ ∧ u.token = token ∧ s.tokens = u :: s₁.tokens := by
  obtain ⟨-, u, rest, htokens, hu, rfl⟩ := runs_expect.mp hruns
  have hrest : rest = pre₁ ++ o.token :: o.behind := h₁.tokens
  refine ⟨u, ?_, hu, htokens⟩
  have heq : pre ++ o.token :: o.behind = (u :: pre₁) ++ o.token :: o.behind := by
    rw [← h.tokens, htokens, hrest]
    rfl
  exact List.append_cancel_right heq

theorem lockedAt_called (hspared : ∀ g, Foreseen o.before o.token o.behind g → o.spared g)
    (h : o.Fork pre s s') {shape shape' : CallShape}
    (hseen : (callShape 0 s.tokens).value = some shape) (name : Leaf × NameForm) :
    o.LockedAt pre s s' (called shape name) (called shape' name) := by
  obtain ⟨p, e, hp, happly⟩ := called_apply shape name s
  obtain ⟨p', e', hp', happly'⟩ := called_apply shape' name s'
  refine lockedAt_congr happly happly' (lockedAt_reports hp hp' ?_)
  refine lockedAt_bind ((steady_expect _).locked _ _ _ h)
    (fun _ => quits_bind (quits_argumentList _) fun _ => quits_emit e)
    fun _ _ s₁ pre₁ s₁' hruns h₁ _ => ?_
  obtain ⟨u, rfl, hu, htokens⟩ := h.of_expect hruns h₁
  obtain ⟨t, rest, seen, hcons, -, hseen, hpairs, -⟩ := shapeFrom_of_callShape hseen
  obtain ⟨rfl, rfl⟩ := List.cons.inj (htokens.symm.trans hcons)
  refine lockedAt_bind ?_ (fun _ => quits_emit e) fun _ _ _ _ _ _ h₂ _ =>
    (steady_emit e e').locked _ _ _ h₂
  rw [← hpairs]
  exact lockedAt_argumentList hspared h₁ hu h.before hseen _

/-! ## Calls -/

theorem not_succeeds_named_none {t : PlacedToken} {marker : Option ReferenceKind} :
    ¬(named t marker none).Succeeds s := by
  rintro ⟨_, _, _, hruns⟩
  obtain ⟨_, found, _, _, -, hfail, -⟩ := runs_bind.mp hruns
  cases found with
  | none => exact runs_failAtEnd.mp hfail
  | some t => exact runs_failExpected.mp hfail

theorem quits_named_none {marker : Option ReferenceKind} : o.Quits (named u marker none) :=
  quits_take? quits_failAtEnd fun _ hv => quits_failExpected hv

theorem quits_named {marker : Option ReferenceKind} (h : o.Quits (calleeOf u marker))
    (shape : Option CallShape) : o.Quits (named u marker shape) := by
  cases shape with
  | none => exact quits_named_none
  | some shape => exact quits_bind h fun _ => quits_called shape _

theorem judged_named (hspared : ∀ g, Foreseen o.before o.token o.behind g → o.spared g)
    (u : PlacedToken) (marker : Option ReferenceKind) :
    o.Judged u (look (callShape 0) >>= named u marker) (look (callShape 0) >>= named u marker) := by
  refine ⟨?_, fun hu => ⟨?_, fun pre s s' h => lockedAt_look ?_⟩⟩
  · obtain hfails | hquits := (judged_calleeOf (o := o) u marker).settled
    · refine .inl fun s' => ?_
      rintro ⟨_, _, _, hruns⟩
      obtain ⟨_, shape, s₁, _, -, hnamed, -⟩ := runs_bind.mp hruns
      cases shape with
      | none => exact not_succeeds_named_none ⟨_, _, _, hnamed⟩
      | some shape => exact hfails s₁ (succeeds_first ⟨_, _, _, hnamed⟩)
    · exact .inr (quits_bind (quits_look _) (quits_named hquits))
  · exact quits_bind (quits_look _)
      (quits_named ((judged_calleeOf (o := o) u marker).steady hu).quits)
  · have hsteady := (judged_calleeOf (o := o) u marker).steady hu
    cases hseen' : (callShape 0 s'.tokens).value with
    | none => exact fun hsucceeds => (not_succeeds_named_none hsucceeds).elim
    | some shape' =>
        cases hseen : (callShape 0 s.tokens).value with
        | some shape =>
            refine lockedAt_bind (hsteady.locked _ _ _ h) (fun name => quits_called shape name)
              fun _ name s₁ pre₁ s₁' hruns h₁ _ => ?_
            rw [← calleeOf_keeps hruns] at hseen
            exact lockedAt_called hspared h₁ hseen name
        | none =>
            -- the list that the second run sees is not closed in the first
            obtain ⟨t, rest, _, htokens', ht, -⟩ := shapeFrom_of_callShape hseen'
            refine Over.lockedAt ?_
            cases pre with
            | nil =>
                obtain ⟨htokens, hcons⟩ := h.nil
                obtain rfl : o.token = t := (List.cons.inj (hcons.symm.trans htokens')).1
                rw [htokens] at hseen
                exact over_take? htokens
                  (over_fail (not_blames_spared (hspared _ (.unclosed ht hseen))))
            | cons v pre =>
                obtain ⟨rest, -, htokens, -⟩ := h.cons
                exact over_take? htokens (over_failExpected (h.apart v List.mem_cons_self))

theorem steady_predicate (hspared : ∀ g, Foreseen o.before o.token o.behind g → o.spared g) :
    o.Steady predicate predicate :=
  steady_bind steady_calleeMarker fun marker => steady_take fun u => judged_named hspared u marker

end Spot

end TopicQuery.Grammar
