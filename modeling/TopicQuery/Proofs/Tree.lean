import TopicQuery.Conversion
import TopicQuery.Proofs.Outline

/-!
The tree of an outline. What the events of an outline are built into is the
outline itself with elements for its containers and leaves.
-/

namespace TopicQuery

namespace Outline

mutual

/-- The element of an outline. -/
def element : Outline → Element
  | .leaf item => item.element
  | .within c inner => ⟨c.tag.name, c.attributes, none, elements inner⟩

/-- The elements of some outlines. -/
def elements : List Outline → List Element
  | [] => []
  | o :: os => o.element :: elements os

end

theorem elements_eq_map (os : List Outline) : elements os = os.map element := by
  induction os with
  | nil => rfl
  | cons o os ih => simp [elements, ih]

end Outline

namespace Element.Growth

mutual

/-- Inside an open element an outline becomes one more child. -/
theorem run_events (o : Outline) (parent : Element) (outer : List Element) (rest : List Event) :
    run ⟨parent :: outer, none⟩ (o.events ++ rest) =
      run ⟨parent.addChild o.element :: outer, none⟩ rest := by
  match o with
  | .leaf item => simp [Outline.events, Outline.element, run, step]
  | .within c inner =>
      simp only [Outline.events, List.cons_append, List.append_assoc, run, step,
        Option.isSome_none, Bool.false_eq_true, if_false]
      rw [run_eventsAll inner c.element (parent :: outer) (.leave c.tag :: ([] ++ rest))]
      simp [run, step, Container.element, Outline.element]

/-- Inside an open element some outlines become more children. -/
theorem run_eventsAll (os : List Outline) (parent : Element) (outer : List Element)
    (rest : List Event) :
    run ⟨parent :: outer, none⟩ (Outline.eventsAll os ++ rest) =
      run ⟨{ parent with children := parent.children ++ Outline.elements os } :: outer, none⟩
        rest := by
  match os with
  | [] =>
      obtain ⟨name, attributes, text, children⟩ := parent
      simp [Outline.eventsAll, Outline.elements]
  | o :: os =>
      rw [Outline.eventsAll, List.append_assoc, run_events o parent outer,
        run_eventsAll os (parent.addChild o.element) outer]
      simp [Element.addChild, Outline.elements]

end

/-- The events of a document are built into its element. -/
theorem run_document (inner : List Outline) :
    empty.run (Outline.within .document inner).events =
      .ok ⟨[], some (Outline.within .document inner).element⟩ := by
  simp only [Outline.events, run, step, empty, Option.isSome_none, Bool.false_eq_true, if_false]
  rw [run_eventsAll inner Container.document.element [] [.leave Container.document.tag]]
  simp [run, step, Container.element, Outline.element]

end Element.Growth

/-- The tree of a text that is parsed as a document. -/
theorem Element.ofText_document {text : String} {plus : Bool} {inner : List Outline}
    (h : parse text plus = ⟨(Outline.within .document inner).events, none⟩) :
    Element.ofText plus text = .ok (Outline.within .document inner).element := by
  unfold Element.ofText
  rw [h]
  simp only [Element.ofEventsOr, Growth.run_document, Option.map_none]
  rfl

end TopicQuery
