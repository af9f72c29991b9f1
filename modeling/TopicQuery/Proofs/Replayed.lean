import TopicQuery.Element.Replay
import TopicQuery.Proofs.Canonical.Number
import TopicQuery.Proofs.Tree
import TopicQuery.Proofs.Words

/-!
Replaying a built tree. Every list of events that passes the nesting check is the
walk through a document, the element of a container or a leaf tells what it was
made from, and so the replay of the tree gives the events back. Only a list of
removed variables is written as words with blanks between them, and is read back
as it was if each variable is one word.
-/

namespace TopicQuery

/-! ## Documents behind the nesting check -/

namespace Nesting

theorem checkFrom_cons {index : Nat} {opened : List Tag} {event : Event} {events : List Event}
    (h : checkFrom index opened (event :: events) = .ok ()) :
    ∃ next, step index opened event = .ok next ∧ checkFrom (index + 1) next events = .ok () ∧
      (next = [] → events = []) := by
  simp only [checkFrom, bind, Except.bind] at h
  cases hstep : step index opened event with
  | error fault => simp [hstep] at h
  | ok next =>
      simp only [hstep] at h
      by_cases hend : (next.isEmpty && !events.isEmpty) = true
      · simp [hend] at h
      · refine ⟨next, rfl, by simpa [hend] using h, ?_⟩
        rintro rfl
        simpa using hend

end Nesting

namespace Outline

/-- What passes the check inside an open container is a walk through outlines, the closing of
the container, and what passes the check outside it. -/
theorem exists_outlines {index : Nat} {innermost : Tag} {outer : List Tag} {events : List Event}
    (h : Nesting.checkFrom index (innermost :: outer) events = .ok ()) :
    ∃ os rest after, events = eventsAll os ++ .leave innermost :: rest ∧
      Nesting.checkFrom after outer rest = .ok () ∧ (outer = [] → rest = []) := by
  match events with
  | [] => simp [Nesting.checkFrom] at h
  | .leaf item :: events =>
      obtain ⟨next, hstep, hcheck, -⟩ := Nesting.checkFrom_cons h
      obtain rfl : innermost :: outer = next := by simpa [Nesting.step] using hstep
      obtain ⟨os, rest, after, rfl, hafter, hrest⟩ := exists_outlines hcheck
      exact ⟨.leaf item :: os, rest, after, rfl, hafter, hrest⟩
  | .leave tag :: events =>
      obtain ⟨next, hstep, hcheck, hend⟩ := Nesting.checkFrom_cons h
      by_cases htag : innermost = tag
      · obtain rfl : outer = next := by simpa [Nesting.step, htag] using hstep
        exact ⟨[], events, index + 1, by rw [htag]; rfl, hcheck, hend⟩
      · simp [Nesting.step, htag] at hstep
  | .enter c :: events =>
      obtain ⟨next, hstep, hcheck, -⟩ := Nesting.checkFrom_cons h
      obtain rfl : c.tag :: innermost :: outer = next := by simpa [Nesting.step] using hstep
      -- first what lies in the container, then what comes behind it
      obtain ⟨inner, behind, index', rfl, hbehind, -⟩ := exists_outlines hcheck
      obtain ⟨os, rest, after, rfl, hafter, hrest⟩ := exists_outlines hbehind
      exact ⟨.within c inner :: os, rest, after, by simp [eventsAll, Outline.events], hafter, hrest⟩
termination_by events.length
decreasing_by
  all_goals subst_vars
  all_goals simp only [List.length_cons, List.length_append]
  all_goals omega

/-- The check accepts the walks through documents, and no events at all. -/
theorem check_iff {events : List Event} :
    Nesting.check events = .ok () ↔
      events = [] ∨ ∃ inner, events = (within .document inner).events := by
  constructor
  · intro h
    cases events with
    | nil => exact .inl rfl
    | cons first rest =>
        right
        by_cases hfirst : first = .start
        · subst hfirst
          have hstart : Nesting.checkFrom 0 [] (.start :: rest) = .ok () := by
            simpa [Nesting.check] using h
          obtain ⟨next, hstep, hcheck, -⟩ := Nesting.checkFrom_cons hstart
          obtain rfl : [Tag.document] = next := by
            simpa [Nesting.step, Event.start, Container.tag] using hstep
          obtain ⟨inner, rest, -, rfl, -, hrest⟩ := exists_outlines hcheck
          obtain rfl := hrest rfl
          exact ⟨inner, rfl⟩
        · simp [Nesting.check, hfirst] at h
  · rintro (rfl | ⟨inner, rfl⟩)
    · rfl
    · exact check_document inner

end Outline

/-! ## What elements tell -/

/-- Each removed variable that the container lists is one word. -/
def Container.ListsWords : Container → Prop
  | .internal _ _ removed => ∀ name ∈ removed, Text.IsUnbroken name.toList
  | _ => True

namespace Element

/-- A list of kinds that is left out if it is empty is read as it was. -/
theorem hints_of_attr? {e : Element} {hints : List Hint}
    (h : e.attr? "hints" = if hints = [] then none else some (Hint.listText hints)) :
    e.hints = .ok hints := by
  have hread := Hint.ofListText?_listText hints
  cases hints with
  | nil =>
      rw [if_pos rfl] at h
      simp only [Element.hints, h, Option.getD_none]
      rfl
  | cons hint hints =>
      rw [if_neg (List.cons_ne_nil hint hints)] at h
      simp only [Element.hints, h, Option.getD_some, hread]

/-- The element of a container tells which container it was made from. -/
theorem container_attributes {c : Container} (text : Option String) (children : List Element)
    (h : c.ListsWords) :
    Element.container ⟨c.tag.name, c.attributes, text, children⟩ c.tag = .ok c := by
  cases c with
  | branch shortCircuit => cases shortCircuit <;> rfl
  | builtin name hints =>
      have hhints : Element.hints ⟨Tag.builtin.name, (Container.builtin name hints).attributes,
          text, children⟩ = .ok hints := by
        refine hints_of_attr? ?_
        cases hints <;> rfl
      simp only [Container.tag, Element.container]
      rw [hhints]
      rfl
  | internal name hints removed =>
      have hhints : Element.hints ⟨Tag.internal.name,
          (Container.internal name hints removed).attributes, text, children⟩ = .ok hints := by
        refine hints_of_attr? ?_
        cases hints <;> rfl
      have hremoved : attr? ⟨Tag.internal.name, (Container.internal name hints removed).attributes,
          text, children⟩ "removed-variables" = some (String.intercalate " " removed) := by
        cases hints <;> rfl
      simp only [Container.tag, Element.container]
      rw [hhints, hremoved, Option.getD_some, Text.wordsOf_intercalate h]
      rfl
  | comparison operator => cases operator <;> rfl
  | _ => rfl

theorem unsigned?_numeral (n : UInt64) : Text.unsigned? (Text.numeral n.toNat).toList = some n := by
  have hread : (Text.number? (Text.digits n.toNat)).bind Text.word64? = some n := by
    rw [Text.number?_digits]
    exact Text.word64?_toNat n
  obtain ⟨c, cs, hcs⟩ := List.exists_cons_of_ne_nil (Text.digits_ne_nil n.toNat)
  have hc : c ≠ '+' := by
    rintro rfl
    have hplus := Text.isDigit_of_mem_digits (n := n.toNat) (c := '+') (by simp [hcs])
    exact absurd hplus (by decide)
  rw [Text.numeral, String.toList_ofList]
  rw [hcs] at hread ⊢
  unfold Text.unsigned?
  split
  · rename_i heq
    exact absurd (List.cons.inj heq).1 hc
  · exact hread

theorem number_of_required {e : Element} {n : UInt64}
    (h : e.required "value" = .ok (Text.numeral n.toNat)) : e.number = .ok n := by
  rw [Element.number, h]
  simp only [bind, Except.bind, unsigned?_numeral]
  rfl

/-- A leaf is no container. -/
theorem ofName?_leaf (item : Leaf) : Tag.ofName? item.name = none := by
  cases item with
  | atom kind value => cases kind <;> rfl
  | order name descending => cases descending <;> rfl
  | _ => rfl

/-- The element of a leaf tells which leaf it was made from. -/
theorem leaf_element (item : Leaf) : item.element.leaf = .ok item := by
  cases item with
  | limit number =>
      have hnumber : (Leaf.limit number).element.number = .ok number := number_of_required rfl
      simp only [leaf, otherLeaf, Leaf.element, Leaf.name] at hnumber ⊢
      rw [hnumber]
      rfl
  | offset number =>
      have hnumber : (Leaf.offset number).element.number = .ok number := number_of_required rfl
      simp only [leaf, otherLeaf, Leaf.element, Leaf.name] at hnumber ⊢
      rw [hnumber]
      rfl
  | atom kind value => cases kind <;> rfl
  | binding identifier iri kind => cases kind <;> rfl
  | order name descending => cases descending <;> rfl
  | curie kind name => cases kind <;> rfl
  | qname kind name => cases kind <;> rfl
  | literal value datatype => cases datatype <;> rfl
  | base iri => rfl
  | content text => rfl
  | count name => rfl

/-! ## Replay -/

mutual

/-- The tree of an outline is replayed as the walk through the outline. -/
theorem replay_element (o : Outline) (h : ∀ c, .enter c ∈ o.events → c.ListsWords) :
    o.element.replay = ⟨o.events, none⟩ := by
  match o with
  | .leaf item =>
      have hleaf := leaf_element item
      simp only [Leaf.element] at hleaf
      simp only [Outline.element, Leaf.element, replay, ofName?_leaf, hleaf]
      rfl
  | .within c inner =>
      have hc : c.ListsWords := h c (by simp [Outline.events])
      have hinner : replayAll (Outline.elements inner) = ⟨Outline.eventsAll inner, none⟩ :=
        replayAll_elements inner fun c' hc' => h c' (by simp [Outline.events, hc'])
      simp only [Outline.element, replay, Tag.ofName?_name, container_attributes none _ hc, hinner]
      rfl

/-- The trees of some outlines are replayed one behind the other. -/
theorem replayAll_elements (os : List Outline)
    (h : ∀ c, .enter c ∈ Outline.eventsAll os → c.ListsWords) :
    replayAll (Outline.elements os) = ⟨Outline.eventsAll os, none⟩ := by
  match os with
  | [] => rfl
  | o :: os =>
      have hfirst := replay_element o fun c hc => h c (by simp [Outline.eventsAll, hc])
      have hrest := replayAll_elements os fun c hc => h c (by simp [Outline.eventsAll, hc])
      simp only [Outline.elements, replayAll, hfirst, hrest]
      rfl

end

/-- Events that pass the nesting check are built into a tree, each of them accepted, and the tree
is replayed as the same events. -/
theorem replay_of_check {events : List Event} (hcheck : Nesting.check events = .ok ())
    (hne : events ≠ []) (hwords : ∀ c, .enter c ∈ events → c.ListsWords) :
    ∃ g tree, Growth.empty.run events = .ok g ∧ g.tree = .ok tree ∧
      tree.replay = ⟨events, none⟩ := by
  obtain rfl | ⟨inner, rfl⟩ := Outline.check_iff.mp hcheck
  · exact absurd rfl hne
  · exact ⟨_, _, Growth.run_document inner, rfl, replay_element _ hwords⟩

/-- An internal predicate that stands for two patterns and lists the variables it does without. -/
theorem replay_of_check_internal :
    let events : List Event := [.enter .document, .enter .condition,
      .enter (.internal "instance-of" [.association, .role] ["role", "player"]),
      .leaf (.atom .var "topic"), .leave .internal, .leave .condition, .leave .document]
    ∃ g tree, Growth.empty.run events = .ok g ∧ g.tree = .ok tree ∧
      tree.replay = ⟨events, none⟩ := by
  intro events
  apply replay_of_check
  · rfl
  · exact List.cons_ne_nil _ _
  · intro c hc
    obtain rfl | rfl | rfl : c = .document ∨ c = .condition ∨
        c = .internal "instance-of" [.association, .role] ["role", "player"] := by
      simpa [events] using hc
    · trivial
    · trivial
    · intro name hname
      obtain rfl | rfl : name = "role" ∨ name = "player" := by simpa using hname
      · decide
      · decide

end Element

end TopicQuery
