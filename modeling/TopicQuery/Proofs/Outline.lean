import TopicQuery.Event.Nesting

/-!
Outlines: the containers and leaves of a query as a forest. The events of an
outline are those of a walk through it, and the nesting check accepts them
inside any open container.
-/

namespace TopicQuery

/-- A leaf, or a container with everything that lies in it. -/
inductive Outline where
  | leaf (item : Leaf)
  | within (container : Container) (inner : List Outline)

namespace Outline

mutual

/-- The events of a walk through an outline. -/
def events : Outline → List Event
  | .leaf item => [.leaf item]
  | .within c inner => .enter c :: (eventsAll inner ++ [.leave c.tag])

/-- The events of a walk through some outlines, one behind the other. -/
def eventsAll : List Outline → List Event
  | [] => []
  | o :: os => o.events ++ eventsAll os

end

@[simp] theorem eventsAll_append (os ps : List Outline) :
    eventsAll (os ++ ps) = eventsAll os ++ eventsAll ps := by
  induction os with
  | nil => simp [eventsAll]
  | cons o os ih => simp [eventsAll, ih]

theorem mem_eventsAll {e : Event} {os : List Outline} :
    e ∈ eventsAll os ↔ ∃ o ∈ os, e ∈ o.events := by
  induction os with
  | nil => simp [eventsAll]
  | cons o os ih => simp [eventsAll, ih]

@[simp] theorem eventsAll_singleton (o : Outline) : eventsAll [o] = o.events := by
  simp [eventsAll]

@[simp] theorem eventsAll_leaves (items : List Leaf) :
    eventsAll (items.map .leaf) = items.map .leaf := by
  induction items with
  | nil => rfl
  | cons item items ih => simp [eventsAll, events, ih]

/-! ## The nesting check -/

mutual

/-- Inside an open container the check runs through an outline and leaves what is open as it was. -/
theorem checkFrom_events (o : Outline) (index : Nat) (innermost : Tag) (outer : List Tag)
    (rest : List Event) :
    Nesting.checkFrom index (innermost :: outer) (o.events ++ rest) =
      Nesting.checkFrom (index + o.events.length) (innermost :: outer) rest := by
  match o with
  | .leaf item =>
      simp [events, Nesting.checkFrom, Nesting.step, bind, Except.bind]
  | .within c inner =>
      have hinner := checkFrom_eventsAll inner (index + 1) c.tag (innermost :: outer)
        (.leave c.tag :: rest)
      simp only [events, List.cons_append, List.append_assoc, List.nil_append, Nesting.checkFrom,
        Nesting.step, bind, Except.bind, List.isEmpty_cons, Bool.false_and, Bool.false_eq_true,
        if_false]
      rw [hinner]
      simp only [Nesting.checkFrom, Nesting.step, bind, Except.bind, List.isEmpty_cons,
        Bool.false_and, Bool.false_eq_true, if_false, if_true, List.length_cons,
        List.length_append, List.length_nil]
      congr 1
      omega

/-- The same for several outlines in a row. -/
theorem checkFrom_eventsAll (os : List Outline) (index : Nat) (innermost : Tag)
    (outer : List Tag) (rest : List Event) :
    Nesting.checkFrom index (innermost :: outer) (eventsAll os ++ rest) =
      Nesting.checkFrom (index + (eventsAll os).length) (innermost :: outer) rest := by
  match os with
  | [] => simp [eventsAll]
  | o :: os =>
      rw [eventsAll, List.append_assoc, checkFrom_events o index innermost outer,
        checkFrom_eventsAll os (index + o.events.length) innermost outer]
      simp [Nat.add_assoc]

end

/-- The events of a document pass the check. -/
theorem check_document (inner : List Outline) :
    Nesting.check (within .document inner).events = .ok () := by
  have hinner := checkFrom_eventsAll inner 1 .document [] [.leave .document]
  simp only [events, Nesting.check, Event.start, if_true, Nesting.checkFrom, Nesting.step, bind,
    Except.bind, Container.tag, List.isEmpty_cons, Bool.false_and, Bool.false_eq_true, if_false]
  rw [hinner]
  rfl

/-! ## Openings and closings -/

/-- How many containers of an element name the events open. -/
def openings (name : String) (events : List Event) : Nat :=
  events.countP fun
    | .enter c => c.tag.name == name
    | _ => false

/-- How many containers of an element name the events close. -/
def closings (name : String) (events : List Event) : Nat :=
  events.countP fun
    | .leave tag => tag.name == name
    | _ => false

mutual

theorem openings_eq_closings (name : String) (o : Outline) :
    openings name o.events = closings name o.events := by
  match o with
  | .leaf item => simp [events, openings, closings]
  | .within c inner =>
      have hinner := openings_eq_closings_all name inner
      simp only [openings, closings] at hinner
      simp only [events, openings, closings, List.countP_cons, List.countP_append, hinner]
      simp

theorem openings_eq_closings_all (name : String) (os : List Outline) :
    openings name (eventsAll os) = closings name (eventsAll os) := by
  match os with
  | [] => simp [eventsAll, openings, closings]
  | o :: os =>
      have hfirst := openings_eq_closings name o
      have hrest := openings_eq_closings_all name os
      simp only [openings, closings] at hfirst hrest
      simp only [eventsAll, openings, closings, List.countP_append, hfirst, hrest]

end

/-! ## Outlines from their events -/

mutual

/-- The events of an outline at the front of a list tell which outline it is. -/
theorem events_append_inj {o p : Outline} {rest rest' : List Event}
    (h : o.events ++ rest = p.events ++ rest') : o = p ∧ rest = rest' := by
  match o, p with
  | .leaf _, .leaf _ =>
      obtain ⟨hitem, hrest⟩ := List.cons.inj h
      exact ⟨congrArg leaf (Event.leaf.inj hitem), hrest⟩
  | .leaf _, .within _ _ => exact nomatch (List.cons.inj h).1
  | .within _ _, .leaf _ => exact nomatch (List.cons.inj h).1
  | .within c inner, .within c' inner' =>
      obtain ⟨hc, hinner⟩ := List.cons.inj h
      obtain rfl := Event.enter.inj hc
      simp only [List.append_eq, List.append_assoc, List.singleton_append] at hinner
      obtain ⟨rfl, hrest⟩ := eventsAll_append_inj hinner
      exact ⟨rfl, hrest⟩

/-- In front of a closing event the events of outlines tell which ones they are. -/
theorem eventsAll_append_inj {os ps : List Outline} {tag tag' : Tag} {rest rest' : List Event}
    (h : eventsAll os ++ .leave tag :: rest = eventsAll ps ++ .leave tag' :: rest') :
    os = ps ∧ rest = rest' := by
  match os, ps with
  | [], [] => exact ⟨rfl, (List.cons.inj h).2⟩
  | [], .leaf _ :: _ => exact nomatch (List.cons.inj h).1
  | [], .within _ _ :: _ => exact nomatch (List.cons.inj h).1
  | .leaf _ :: _, [] => exact nomatch (List.cons.inj h).1
  | .within _ _ :: _, [] => exact nomatch (List.cons.inj h).1
  | o :: os, p :: ps =>
      rw [eventsAll, eventsAll, List.append_assoc, List.append_assoc] at h
      obtain ⟨rfl, hrest⟩ := events_append_inj h
      obtain ⟨rfl, hrest'⟩ := eventsAll_append_inj hrest
      exact ⟨rfl, hrest'⟩

end

theorem events_injective {o p : Outline} (h : o.events = p.events) : o = p :=
  (@events_append_inj o p [] [] (congrArg (· ++ []) h)).1

/-! ## Outlines within outlines -/

mutual

/-- A container with all that lies in it stands somewhere in an outline. -/
def IsIn (o : Outline) : Outline → Prop
  | .leaf _ => False
  | .within c inner => o = .within c inner ∨ o.IsInAny inner

/-- A container with all that lies in it stands somewhere in one of some outlines. -/
def IsInAny (o : Outline) : List Outline → Prop
  | [] => False
  | p :: ps => o.IsIn p ∨ o.IsInAny ps

end

theorem isInAny_iff {o : Outline} {ps : List Outline} : o.IsInAny ps ↔ ∃ p ∈ ps, o.IsIn p := by
  induction ps with
  | nil => simp [IsInAny]
  | cons p ps ih => simp [IsInAny, ih]

mutual

theorem infix_of_isIn {o p : Outline} (h : o.IsIn p) : o.events <:+: p.events := by
  match p with
  | .leaf _ => exact absurd h id
  | .within c inner =>
      obtain rfl | h := h
      · exact List.infix_rfl
      · exact (infix_of_isInAny h).trans ⟨[.enter c], [.leave c.tag], by simp [events]⟩

theorem infix_of_isInAny {o : Outline} {ps : List Outline} (h : o.IsInAny ps) :
    o.events <:+: eventsAll ps := by
  match ps with
  | [] => exact absurd h id
  | p :: ps =>
      obtain h | h := h
      · exact (infix_of_isIn h).trans ⟨[], eventsAll ps, by simp [eventsAll]⟩
      · exact (infix_of_isInAny h).trans ⟨p.events, [], by simp [eventsAll]⟩

end

mutual

/-- What begins among the events of an outline stands in the outline. -/
theorem isIn_of_append {c : Container} {inner : List Outline} {p : Outline}
    {before behind rest : List Event}
    (h : p.events ++ rest = before ++ ((within c inner).events ++ behind))
    (hbefore : before.length < p.events.length) : (within c inner).IsIn p := by
  match p, before with
  | .leaf _, [] => exact nomatch (List.cons.inj h).1
  | .leaf _, _ :: _ => simp [events] at hbefore
  | .within c' inner', [] => exact .inl (events_append_inj h).1.symm
  | .within c' inner', event :: before =>
      have hrest := (List.cons.inj h).2
      simp only [List.append_eq, List.append_assoc, List.singleton_append] at hrest
      refine .inr (isInAny_of_append hrest ?_)
      simp only [events, List.length_cons, List.length_append, List.length_nil] at hbefore
      refine Nat.lt_of_le_of_ne (by omega) fun heq => ?_
      -- the container cannot begin where the outer one is left
      have hclose := congrArg List.head? (congrArg (List.drop before.length) hrest)
      rw [List.drop_left, heq, List.drop_left] at hclose
      cases hclose

/-- What begins among the events of some outlines stands in one of them. -/
theorem isInAny_of_append {c : Container} {inner ps : List Outline}
    {before behind rest : List Event}
    (h : eventsAll ps ++ rest = before ++ ((within c inner).events ++ behind))
    (hbefore : before.length < (eventsAll ps).length) : (within c inner).IsInAny ps := by
  match ps with
  | [] => simp [eventsAll] at hbefore
  | p :: ps =>
      rw [eventsAll, List.append_assoc] at h
      rw [eventsAll, List.length_append] at hbefore
      by_cases hlt : before.length < p.events.length
      · exact .inl (isIn_of_append h hlt)
      · obtain ⟨between, rfl⟩ : p.events <+: before :=
          List.prefix_of_prefix_length_le ⟨_, h⟩ ⟨_, rfl⟩ (by omega)
        rw [List.append_assoc, List.append_cancel_left_eq] at h
        rw [List.length_append] at hbefore
        exact .inr (isInAny_of_append h (by omega))

end

/-- An outline holds a container exactly if its events run through the container. -/
theorem isIn_iff_infix {c : Container} {inner : List Outline} {p : Outline} :
    (within c inner).IsIn p ↔ (within c inner).events <:+: p.events := by
  refine ⟨infix_of_isIn, ?_⟩
  rintro ⟨before, behind, h⟩
  have happend : p.events ++ [] = before ++ ((within c inner).events ++ behind) := by
    rw [List.append_nil, ← h, List.append_assoc]
  refine isIn_of_append happend ?_
  rw [← h]
  simp only [events, List.length_append, List.length_cons, List.length_nil]
  omega

end Outline

end TopicQuery
