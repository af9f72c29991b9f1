import TopicQuery.Event

/-!
Nesting: every container that is entered is left once, the innermost first, and
one document holds everything else.
-/

namespace TopicQuery

/-- Why a list of events is no document. The number is that of the event, from zero. -/
inductive NestingFault
  | noStart
  | crossed (index : Nat) (closed opened : Tag)
  | unopened (index : Nat) (closed : Tag)
  | leafOutside (index : Nat) (leaf : Leaf)
  | afterEnd (index : Nat)
  | unclosed (opened : Tag)
  deriving DecidableEq, Repr

/-- The description of a fault. -/
def NestingFault.message : NestingFault → String
  | noStart => "event stream must begin with start"
  | crossed i closed opened =>
    "event " ++ Text.numeral i ++ ": </" ++ closed.name ++ "> closes <" ++ opened.name ++ ">"
  | unopened i closed => "event " ++ Text.numeral i ++ ": </" ++ closed.name ++ "> without start"
  | leafOutside i leaf =>
    "event " ++ Text.numeral i ++ ": " ++ (Event.leaf leaf).text ++ " outside of start/end"
  | afterEnd i => "event " ++ Text.numeral i ++ ": events after end"
  | unclosed opened => "<" ++ opened.name ++ "> is never closed"

namespace Nesting

/-- The containers that are open behind an event, the innermost first. -/
def step (index : Nat) (opened : List Tag) : Event → Except NestingFault (List Tag)
  | .enter c => .ok (c.tag :: opened)
  | .leave tag =>
    match opened with
    | [] => .error (.unopened index tag)
    | innermost :: outer =>
      if innermost = tag then .ok outer else .error (.crossed index tag innermost)
  | .leaf leaf =>
    match opened with
    | [] => .error (.leafOutside index leaf)
    | _ :: _ => .ok opened

/-- Checks the events from a number on, with the given containers open. -/
def checkFrom (index : Nat) (opened : List Tag) : List Event → Except NestingFault Unit
  | [] =>
    match opened with
    | [] => .ok ()
    | innermost :: _ => .error (.unclosed innermost)
  | event :: events => do
    let opened ← step index opened event
    if opened.isEmpty && !events.isEmpty then .error (.afterEnd index)
    else checkFrom (index + 1) opened events

theorem checkFrom_of_step {index : Nat} {opened next : List Tag} {event : Event}
    {events : List Event} (hstep : step index opened event = .ok next) (hnext : next ≠ []) :
    checkFrom index opened (event :: events) = checkFrom (index + 1) next events := by
  rw [checkFrom, hstep]
  simp [bind, Except.bind, hnext]

/-- Nothing may come behind the end of the document. -/
theorem checkFrom_of_step_nil {index : Nat} {opened : List Tag} {event : Event}
    {events : List Event} (hstep : step index opened event = .ok []) :
    checkFrom index opened (event :: events) = .ok () ↔ events = [] := by
  rw [checkFrom, hstep]
  cases events <;> simp [bind, Except.bind, checkFrom]

theorem checkFrom_of_step_error {index : Nat} {opened : List Tag} {event : Event}
    {events : List Event} {fault : NestingFault} (hstep : step index opened event = .error fault) :
    checkFrom index opened (event :: events) = .error fault := by
  rw [checkFrom, hstep]
  rfl

/-- Checks that the events are one document, or that there are none. -/
def check (events : List Event) : Except NestingFault Unit :=
  match events with
  | [] => .ok ()
  | first :: _ => if first = .start then checkFrom 0 [] events else .error .noStart

end Nesting

end TopicQuery
