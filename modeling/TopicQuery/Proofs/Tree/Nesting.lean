import TopicQuery.Element.OfEvents
import TopicQuery.Event.Nesting

/-!
The nesting check and the tree. The check keeps the tags of the containers that are open, the
tree that is built keeps their elements: step by step both stacks hold the same names, refuse
the same events and become empty at the same event. So the events that pass the check are
those of which a tree is built whose root is a document.
-/

namespace TopicQuery

/-- Only a document has the tag of one. -/
theorem Container.eq_document_of_tag {c : Container} (h : c.tag = .document) : c = .document := by
  cases c with
  | document => rfl
  | _ => cases h

namespace Element.Growth

variable {g : Growth} {opened : List Tag}

/-- The elements that are open are those of the open containers. -/
structure Mirrors (g : Growth) (opened : List Tag) : Prop where
  root : g.root = none
  names : g.opened.map Element.name = opened.map Tag.name

/-- What an event does to a tree, beside what the nesting check makes of it. -/
inductive Follows (g : Growth) (opened : List Tag) (event : Event) :
    Except NestingFault (List Tag) → Prop
  | refused {fault : NestingFault} {g' : Growth} {treeFault : TreeFault}
      (step : g.step event = (g', some treeFault)) : Follows g opened event (.error fault)
  | inside {g' : Growth} {next : List Tag} (hnext : next ≠ []) (step : g.step event = (g', none))
      (mirrors : g'.Mirrors next) (outermost : opened ≠ [] → next.getLast? = opened.getLast?) :
      Follows g opened event (.ok next)
  | finished {root : Element} {outermost : Tag} (hopened : opened = [outermost])
      (step : g.step event = (⟨[], some root⟩, none)) (name : root.name = outermost.name) :
      Follows g opened event (.ok [])

/-- Both stacks take an event in alike. -/
theorem follows_step (h : g.Mirrors opened) (index : Nat) (event : Event) :
    Follows g opened event (Nesting.step index opened event) := by
  obtain ⟨elements, root⟩ := g
  obtain ⟨hroot, hnames⟩ := h
  obtain rfl : root = none := hroot
  cases event with
  | enter c =>
      refine .inside (by simp) rfl ⟨rfl, ?_⟩ fun hopened => ?_
      · simpa [Container.element] using hnames
      · obtain ⟨innermost, outer, rfl⟩ := List.exists_cons_of_ne_nil hopened
        exact List.getLast?_cons_cons
  | leaf item =>
      cases opened with
      | nil =>
          obtain rfl : elements = [] := by simpa using hnames
          exact .refused rfl
      | cons innermost outer =>
          obtain ⟨parent, elements, rfl, -⟩ := List.map_eq_cons_iff.mp hnames
          exact .inside (by simp) rfl ⟨rfl, hnames⟩ fun _ => rfl
  | leave tag =>
      cases opened with
      | nil =>
          obtain rfl : elements = [] := by simpa using hnames
          exact .refused rfl
      | cons innermost outer =>
          obtain ⟨e, elements, rfl, hname, hnames⟩ := List.map_eq_cons_iff.mp hnames
          by_cases htag : innermost = tag
          · subst htag
            have hcheck : Nesting.step index (innermost :: outer) (.leave innermost) = .ok outer :=
              if_pos rfl
            rw [hcheck]
            cases outer with
            | nil =>
                obtain rfl : elements = [] := by simpa using hnames
                exact .finished rfl (by simp [step, hname]) hname
            | cons next outer =>
                obtain ⟨parent, elements, rfl, -⟩ := List.map_eq_cons_iff.mp hnames
                have hgrown : step ⟨e :: parent :: elements, none⟩ (.leave innermost) =
                    (⟨parent.addChild e :: elements, none⟩, none) := by simp [step, hname]
                exact .inside (by simp) hgrown ⟨rfl, hnames⟩ fun _ => List.getLast?_cons_cons.symm
          · have hother : e.name ≠ tag.name := fun hsame =>
              htag (Tag.name_injective (hname.symm.trans hsame))
            have hcheck : Nesting.step index (innermost :: outer) (.leave tag) =
                .error (.crossed index tag innermost) := if_neg htag
            have hgrown : step ⟨e :: elements, none⟩ (.leave tag) =
                (⟨elements, none⟩, some (.crossed tag e.name)) := by simp [step, hother]
            rw [hcheck]
            exact .refused hgrown

/-- Behind the root there is no tree of any more events. -/
theorem run_of_root {root : Element} {event : Event} {events : List Event} :
    run ⟨[], some root⟩ (event :: events) = .error (.afterEnd event) := rfl

/-- A tree with a root of the name is built of the events exactly if they pass the check and the
outermost container has that name. -/
theorem run_iff {events : List Event} {name : String} (h : g.Mirrors opened)
    (hopened : opened ≠ []) (index : Nat) :
    (∃ root, (g.run events >>= tree) = .ok root ∧ root.name = name) ↔
      Nesting.checkFrom index opened events = .ok () ∧
        opened.getLast?.map Tag.name = some name := by
  induction events generalizing g opened index with
  | nil =>
      obtain ⟨innermost, outer, rfl⟩ := List.exists_cons_of_ne_nil hopened
      simp [run, tree, h.root, Nesting.checkFrom, bind, Except.bind]
  | cons event events ih =>
      have hfollows := follows_step h index event
      generalize hcheck : Nesting.step index opened event = next at hfollows
      rw [run]
      cases hfollows with
      | refused hgrown =>
          simp [hgrown, Nesting.checkFrom_of_step_error hcheck, bind, Except.bind]
      | inside hnext hgrown hmirrors houtermost =>
          rw [hgrown, Nesting.checkFrom_of_step hcheck hnext, ← houtermost hopened]
          exact ih hmirrors hnext (index + 1)
      | @finished root outermost hsingle hgrown hname =>
          rw [hgrown, Nesting.checkFrom_of_step_nil hcheck, hsingle]
          cases events with
          | nil => simp [run, tree, hname, bind, Except.bind]
          | cons event events => simp [run_of_root, bind, Except.bind]

end Element.Growth

namespace Nesting

theorem check_enter (c : Container) (rest : List Event) :
    check (.enter c :: rest) = .ok () ↔ c = .document ∧ checkFrom 1 [c.tag] rest = .ok () := by
  have hfirst : checkFrom 0 [] (.enter c :: rest) = checkFrom 1 [c.tag] rest :=
    checkFrom_of_step rfl (by simp)
  by_cases hc : c = .document
  · subst hc
    rw [← hfirst]
    simp [check, Event.start]
  · simp [check, Event.start, hc]

open Element (ofEvents Growth)

/-- Events pass the nesting check exactly if a tree is built of them whose root is a document. -/
theorem check_iff_tree {events : List Event} (h : events ≠ []) :
    check events = .ok () ↔ ∃ root, ofEvents events = .ok root ∧ root.name = "tolog" := by
  obtain ⟨first, rest, rfl⟩ := List.exists_cons_of_ne_nil h
  cases first with
  | enter c =>
      have hmirrors : Growth.Mirrors ⟨[c.element], none⟩ [c.tag] := ⟨rfl, rfl⟩
      have hname : [c.tag].getLast?.map Tag.name = some "tolog" ↔ c = .document := by
        constructor
        · intro htag
          exact Container.eq_document_of_tag (Tag.name_injective (Option.some.inj htag))
        · rintro rfl
          rfl
      change _ ↔ ∃ root, (Growth.run ⟨[c.element], none⟩ rest >>= Growth.tree) = .ok root ∧ _
      rw [check_enter, Growth.run_iff hmirrors (by simp) 1, hname, and_comm]
  | leave tag => exact ⟨nofun, nofun⟩
  | leaf item => exact ⟨nofun, nofun⟩

/-- A rule that is left before its body: the check refuses it, and no tree is built of it. -/
theorem check_iff_tree_crossed :
    let events : List Event :=
      [.start, .enter (.rule "r"), .enter .body, .leave .rule, .leave .body, .finish]
    events ≠ [] ∧ check events = .error (.crossed 3 .rule .body) ∧
      ¬∃ root, ofEvents events = .ok root ∧ root.name = "tolog" := by
  intro events
  have hnonempty : events ≠ [] := List.cons_ne_nil _ _
  have hcrossed : check events = .error (.crossed 3 .rule .body) := rfl
  refine ⟨hnonempty, hcrossed, fun htree => ?_⟩
  have hpasses := (check_iff_tree hnonempty).mpr htree
  rw [hcrossed] at hpasses
  cases hpasses

end Nesting

end TopicQuery
