import TopicQuery.Proofs.Canonical.Document
import TopicQuery.Proofs.Nested
import TopicQuery.Proofs.References.Statement

/-!
What a whole text reports, with or without a mistake in it: its header, in which a directive
that is not accepted reports nothing, and behind it what the scope of the header allows.
-/

namespace TopicQuery.Grammar

open TopicQuery.Grammar.Parser Phrase

section Header

variable {s s' : State} {events : List Event} {fault : ParseFault}

/-! ## Directives that fail -/

theorem failsSilently_bindPrefix (t : PlacedToken) (b : Prefixed) :
    (bind t b).FailsSilently := by
  refine failsSilently_bind (fun _ => rfl) fun _ => failsSilently_bind (fun _ => rfl) fun s => ?_
  split
  · split
    · exact (quiet_silent.value _).failsSilently
    · exact (quiet_silent.failAt _ _).failsSilently
  · exact failsSilently_bind (fun _ => rfl) fun _ => failsSilently_emit _

theorem failsSilently_bindingDirective (t : PlacedToken) (what : String) (kind : ReferenceKind) :
    (bindingDirective t what kind).FailsSilently :=
  failsSilently_bind (quiet_silent.takeAtom _ _) fun _ =>
    failsSilently_bind (quiet_silent.takeAtom _ _) fun _ => failsSilently_bindPrefix _ _

theorem failsSilently_baseDirective (t : PlacedToken) : (baseDirective t).FailsSilently := by
  refine failsSilently_bind (fun _ => rfl) fun s => ?_
  split
  · exact (quiet_silent.failAt _ _).failsSilently
  · exact failsSilently_bind (quiet_silent.takeAtom _ _) fun _ =>
      failsSilently_bind (fun _ => rfl) fun _ => failsSilently_emit _

theorem failsSilently_percentDirective (t : PlacedToken) (name : String) :
    (percentDirective t name).FailsSilently := by
  unfold percentDirective
  split
  · exact failsSilently_baseDirective t
  split
  · exact quiet_silent.versionDirective.failsSilently
  split
  · exact failsSilently_bindingDirective _ _ _
  split
  · exact failsSilently_bindingDirective _ _ _
  · exact (quiet_silent.failAt _ _).failsSilently

theorem failsSilently_usingDirective : usingDirective.FailsSilently := by
  refine failsSilently_bind (quiet_silent.take _) fun t =>
    failsSilently_bind (quiet_silent.takeAtom _ _) fun identifier =>
      failsSilently_bind (quiet_silent.expect _) fun _ =>
        failsSilently_bind (quiet_silent.take _) fun reference => ?_
  dsimp only
  split
  · split
    · exact failsSilently_bindPrefix _ _
    · exact (quiet_silent.failExpected _ _).failsSilently
  · exact (quiet_silent.failExpected _ _).failsSilently

theorem failsSilently_importDirective : importDirective.FailsSilently :=
  failsSilently_bind (quiet_silent.take _) fun _ => failsSilently_bind (quiet_silent.take _) fun _ =>
    failsSilently_bind (quiet_silent.locationText _ _) fun _ =>
      failsSilently_bind (quiet_silent.expect _) fun _ =>
        failsSilently_bind (quiet_silent.takeAtom _ _) fun _ => failsSilently_bindPrefix _ _

/-! ## One directive after the other -/

/-- A directive begins with the token. -/
def BeginsDirective (t : Token) : Prop :=
  (∃ name, t = .directive name) ∨ t = .keyword .usingWord ∨ t = .keyword .importWord

/-- No directive begins at the front of the tokens. -/
def EndsDirectives (ts : List Token) : Prop := ∀ t, ts.head? = some t → ¬ BeginsDirective t

/-- Directives end with a mistake, or where none begins, or they go on behind the first of them. -/
inductive DirectiveStep (n : Nat) (s : State) : Reply Unit → Prop where
  | fail (fault : ParseFault) : DirectiveStep n s ⟨[], .error fault⟩
  | stop (h : EndsDirectives s.ahead) : DirectiveStep n s ⟨[], .ok ((), s)⟩
  | next {d : Directive} {told : List Event} {between : State} (hd : DirectiveRun s d told between) :
    DirectiveStep n s ⟨told ++ (directives n between).events, (directives n between).result⟩

theorem DirectiveStep.of_first {n : Nat} {start : State} {p : Parser Unit} (hp : p.FailsSilently)
    (h : ∀ {told between}, p.Runs start told () between → ∃ d, DirectiveRun s d told between) :
    DirectiveStep n s ((p >>= fun _ => directives n) start) := by
  obtain ⟨told, fault, hfault, hbind⟩ | ⟨told, _, between, hto, hbind⟩ :=
    bind_cases p (fun _ => directives n) start
  · obtain rfl := hp hfault
    rw [hbind]
    exact .fail fault
  · obtain ⟨d, hd⟩ := h hto
    rw [hbind]
    exact .next hd

theorem directives_step (n : Nat) (s : State) : DirectiveStep n s (directives (n + 1) s) := by
  refine bind_of_silent (C := DirectiveStep n s) quiet_silent.peek .fail fun token s₁ hpeek => ?_
  obtain ⟨-, hhead, rfl, -⟩ := runs_peek.mp hpeek
  split
  · next name =>
    refine bind_of_silent (C := DirectiveStep n s) (quiet_silent.take _) .fail fun t s₂ htake => ?_
    obtain ⟨-, hto⟩ := passes_of_take htake
    have htoken : t.token = .directive name := by simpa [hto.ahead] using hhead
    rw [htoken] at hto
    exact .of_first (failsSilently_percentDirective t name) fun hrun => percentDirective_runs hrun hto
  · exact .of_first failsSilently_usingDirective fun hrun => usingDirective_runs hrun hhead
  · exact .of_first failsSilently_importDirective fun hrun => importDirective_runs hrun hhead
  · next hpercent husing himport =>
    refine .stop ?_
    rintro t ht (⟨name, rfl⟩ | rfl | rfl)
    · exact hpercent name (hhead.symm.trans ht)
    · exact husing (hhead.symm.trans ht)
    · exact himport (hhead.symm.trans ht)

/-- Directives that end with a mistake have reported the accepted ones in front of it. -/
theorem directives_fails {n : Nat} (h : directives n s = ⟨events, .error fault⟩) :
    ∃ ds : List Directive, Directive.FitsAll s.setting ds ∧
      events = (Directive.leavesAll s.setting ds).map .leaf := by
  induction n generalizing s events with
  | zero => cases h
  | succ n ih =>
      have hstep := directives_step n s
      rw [h] at hstep
      generalize hreply : (⟨events, .error fault⟩ : Reply Unit) = reply at hstep
      cases hstep with
      | fail fault' =>
          obtain ⟨rfl, -⟩ := Reply.mk.inj hreply
          exact ⟨[], trivial, rfl⟩
      | stop => cases hreply
      | @next d told between hd =>
          obtain ⟨rfl, hresult⟩ := Reply.mk.inj hreply
          obtain ⟨ds, hfits, hevents⟩ := ih (s := between) (congrArg (Reply.mk _) hresult.symm)
          rw [hd.turns.setting] at hfits hevents
          exact ⟨d :: ds, ⟨hd.fits, hfits⟩, by simp [hd.events, hevents, Directive.leavesAll]⟩

/-- Directives are taken up to a token that begins none. -/
theorem directives_stop {n : Nat} {u : Unit} (h : (directives n).Runs s events u s')
    (hn : s.ahead.length ≤ n) : EndsDirectives s'.ahead := by
  induction n generalizing s events with
  | zero =>
      obtain ⟨-, -, rfl⟩ := runs_pure.mp h
      rw [List.length_eq_zero_iff.mp (Nat.le_zero.mp hn)]
      intro t ht
      cases ht
  | succ n ih =>
      have hstep := directives_step n s
      rw [h] at hstep
      generalize hreply : (⟨events, .ok (u, s')⟩ : Reply Unit) = reply at hstep
      cases hstep with
      | fail fault' => cases hreply
      | stop hstop =>
          cases hreply
          exact hstop
      | @next d told between hd =>
          obtain ⟨rfl, hresult⟩ := Reply.mk.inj hreply
          have htokens : 0 < d.tokens.length := by
            match d with
            | .base _ => simp [Directive.tokens]
            | .version _ _ => simp [Directive.tokens]
            | .binding binder _ => cases binder <;> simp [Directive.tokens]
          have hlength := congrArg List.length hd.turns.ahead
          rw [List.length_append] at hlength
          exact ih (congrArg (Reply.mk _) hresult.symm) (by omega)

end Header

end TopicQuery.Grammar

namespace TopicQuery

open Grammar Phrase

/-! ## Headers -/

/-- The events of a header: a base, if there is one, and bindings. -/
def headerEvents (base : Option String) (bs : List Prefixed) : List Event :=
  (base.toList.map Leaf.base ++ bs.map Directive.bindingLeaf).map Event.leaf

/-- A header reports a base and bindings. -/
theorem mem_headerEvents {base : Option String} {bs : List Prefixed} {e : Event}
    (he : e ∈ headerEvents base bs) :
    (∃ iri, e = .leaf (.base iri)) ∨ ∃ b ∈ bs, e = .leaf (Directive.bindingLeaf b) := by
  simp only [headerEvents, List.mem_map, List.mem_append] at he
  obtain ⟨item, ⟨iri, -, rfl⟩ | ⟨b, hb, rfl⟩, rfl⟩ := he
  · exact .inl ⟨iri, rfl⟩
  · exact .inr ⟨b, hb, rfl⟩

theorem append_cons_cases {α : Type} {xs ys before after : List α} {a : α}
    (h : xs ++ ys = before ++ a :: after) :
    (∃ more, xs = before ++ a :: more) ∨ ∃ behind, before = xs ++ behind ∧ ys = behind ++ a :: after := by
  obtain ⟨behind, hbefore, hys⟩ | ⟨rest, hxs, hrest⟩ := List.append_eq_append_iff.mp h
  · exact .inr ⟨behind, hbefore, hys⟩
  · cases rest with
    | nil =>
        rw [List.append_nil] at hxs
        exact .inr ⟨[], by rw [hxs, List.append_nil], hrest.symm⟩
    | cons b rest =>
        obtain ⟨rfl, -⟩ := List.cons.inj hrest
        exact .inl ⟨rest, hxs⟩

/-- An event is the start, or it stands in the header, or behind it. -/
theorem behind_start {base : Option String} {bs : List Prefixed} {events before after : List Event}
    {e : Event}
    (h : Event.start :: (headerEvents base bs ++ events) = before ++ e :: after) :
    (before = [] ∧ e = .start) ∨ ∃ front, before = .start :: front ∧
      ((∃ more, headerEvents base bs = front ++ e :: more) ∨
        ∃ behind, front = headerEvents base bs ++ behind ∧ events = behind ++ e :: after) := by
  cases before with
  | nil => exact .inl ⟨rfl, (List.cons.inj h).1.symm⟩
  | cons first front =>
      obtain ⟨rfl, hrest⟩ := List.cons.inj h
      exact .inr ⟨front, rfl, append_cons_cases hrest⟩

/--
The events behind a header in a text with these tokens. They are allowed, and they tell the
first of the references among the tokens behind the directives, unless no token is read there.
-/
structure Headed (tokens : List Token) (bs : List Prefixed) (events : List Event) : Prop where
  distinct : Directive.Distinct bs
  allowed : Allowed ⟨definedRules tokens, bs.reverse⟩ true events
  written : references events = [] ∨ ∃ (ds : List Directive) (body : List Token),
    tokens = ds.flatMap Directive.tokens ++ body ∧ EndsDirectives body ∧
      references events <+: Before.nothing.named ⟨definedRules tokens, bs.reverse⟩ body

namespace Grammar

open TopicQuery.Grammar.Parser

/-- What directives report when nothing was settled in front of them. -/
theorem headerEvents_start {ds : List Directive} {c : Setting} (hfits : Directive.FitsAll c ds)
    (hbindings : c.bindings = []) :
    ∃ base bs, (Directive.leavesAll c ds).map Event.leaf = headerEvents base bs ∧
      Directive.Distinct bs ∧ (Directive.settleAll c ds).scope = ⟨c.rules, bs.reverse⟩ := by
  obtain ⟨hleaves, hdistinct, -⟩ := Directive.settleAll_start hfits hbindings
  refine ⟨ds.head?.bind Directive.base?, (Directive.settleAll c ds).bindings.reverse, ?_, ?_, ?_⟩
  · rw [hleaves, headerEvents]
  · rw [Directive.Distinct, List.map_reverse]
    exact List.nodup_reverse.mpr hdistinct
  · rw [Setting.scope, Directive.settleAll_rules, List.reverse_reverse]

/-- A text reports its header, and what the header allows behind it. -/
theorem content_headed {s : State} (hbindings : s.bindings = [])
    (hrules : s.rules = definedRules s.ahead) :
    ∃ base bs events,
      ((do directives s.tokens.length; rules s.tokens.length; ending : Parser Unit) s).events =
        headerEvents base bs ++ events ∧ Headed s.ahead bs events := by
  obtain ⟨told, fault, hfault, hbind⟩ | ⟨told, u, between, hrun, hbind⟩ :=
    bind_cases (directives s.tokens.length)
      (fun _ => do rules s.tokens.length; ending : Unit → Parser Unit) s
  · obtain ⟨ds, hfits, rfl⟩ := directives_fails hfault
    obtain ⟨base, bs, hheader, hdistinct, -⟩ := headerEvents_start hfits hbindings
    rw [hbind]
    exact ⟨base, bs, [], by rw [List.append_nil]; exact hheader, hdistinct, .nil, .inl rfl⟩
  · obtain ⟨ds, hturns, rfl, hfits⟩ := directives_runs hrun
    obtain ⟨base, bs, hheader, hdistinct, hscope⟩ := headerEvents_start hfits hbindings
    have hrest := tells_behindDirectives (c := ⟨definedRules s.ahead, bs.reverse⟩) s.tokens.length
      between .nothing (by rw [hturns.setting, hscope, ← hrules]; rfl) rfl
    have hlength : s.ahead.length = s.tokens.length := List.length_map _
    have hstop := directives_stop hrun (Nat.le_of_eq hlength)
    rw [hbind, hheader]
    exact ⟨base, bs, _, rfl, hdistinct, hrest.1, .inr ⟨ds, between.ahead, hturns.ahead, hstop,
      hrest.first⟩⟩

end Grammar

/-- The events of a text are the start, a header, and what the header allows. -/
theorem parse_headed (text : String) (plus : Bool) :
    ∃ base bs events, (parse text plus).events = .start :: (headerEvents base bs ++ events) ∧
      Headed ((scan text).tokens.map (·.token)) bs events := by
  obtain ⟨base, bs, events, hcontent, hheaded⟩ :=
    content_headed (s := initial (scan text) plus) rfl rfl
  change ((do
    directives (scan text).tokens.length
    rules (scan text).tokens.length
    ending : Parser Unit) (initial (scan text) plus)).events = _ at hcontent
  have hdocument : document (initial (scan text) plus) =
      within .document (do
        directives (scan text).tokens.length
        rules (scan text).tokens.length
        ending) (initial (scan text) plus) := rfl
  unfold parse
  rw [hdocument, within_apply]
  generalize ((do
    directives (scan text).tokens.length
    rules (scan text).tokens.length
    ending : Parser Unit) (initial (scan text) plus)) = reply at hcontent
  obtain ⟨told, fault | ⟨u, s'⟩⟩ := reply
  · exact ⟨base, bs, events, congrArg (Event.start :: ·) hcontent, hheaded⟩
  · obtain rfl : told = headerEvents base bs ++ events := hcontent
    have hfinish : Allowed ⟨definedRules ((scan text).tokens.map (·.token)), bs.reverse⟩ true
        (events ++ [Event.finish]) := hheaded.allowed.append (.cons trivial .nil)
    refine ⟨base, bs, events ++ [Event.finish], ?_, hheaded.distinct, hfinish, ?_⟩
    · rw [← List.append_assoc]
      rfl
    · have hreferences : references (events ++ [Event.finish]) = references events := by
        rw [references_append]
        exact List.append_nil _
      rw [hreferences]
      exact hheaded.written

end TopicQuery
