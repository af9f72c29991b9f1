import TopicQuery.Proofs.Reported
import TopicQuery.Proofs.Unconditional.Rendered

/-!
How a statement without a condition ends: with the term that is deleted or merged last, with
the topic map content that is inserted, or with a call. What is written for a call ends with
a parenthesis; what is written for a term ends with the word `from` exactly if the leaf does
that it is reported as, and then it has at most one character more than the tokens of any
term that is reported as this leaf.
-/

namespace TopicQuery

open Text

/-! ## Texts that end with `from` -/

theorem EndsWithFrom.getLast? {cs : List Char} (h : EndsWithFrom cs) : cs.getLast? = some 'm' := by
  obtain ⟨front, rfl⟩ := h
  simp

theorem not_endsWithFrom_concat {c : Char} (hc : c ≠ 'm') (front : List Char) :
    ¬EndsWithFrom (front ++ [c]) := by
  intro h
  have hlast := h.getLast?
  rw [List.getLast?_concat] at hlast
  exact hc (Option.some.inj hlast)

/-- The word does not begin in front of a character that it does not have. -/
theorem endsWithFrom_append {c : Char} (hc : c ∉ "from".toList) (front cs : List Char) :
    EndsWithFrom (front ++ c :: cs) ↔ EndsWithFrom cs := by
  constructor
  · rintro ⟨before, hbefore⟩
    rw [show front ++ c :: cs = front ++ [c] ++ cs by simp] at hbefore
    obtain ⟨between, hfront, hfrom⟩ | ⟨between, -, hcs⟩ := List.append_eq_append_iff.mp hbefore
    · cases between using List.reverseRecOn with
      | nil => exact ⟨[], hfrom⟩
      | append_singleton between d =>
          rw [← List.append_assoc] at hfront
          obtain ⟨-, hd⟩ := List.append_inj' hfront rfl
          obtain rfl : c = d := by simpa using hd
          exact absurd (hfrom ▸ by simp) hc
    · exact ⟨between, hcs.symm⟩
  · rintro ⟨before, rfl⟩
    exact ⟨front ++ c :: before, by simp⟩

theorem endsWithFrom_qname (mark : String) (name : QualifiedName) :
    EndsWithFrom (mark ++ name.text).toList ↔ EndsWithFrom name.localPart.toList := by
  have hsplit : (mark ++ name.text).toList =
      (mark.toList ++ name.qualifier.toList) ++ ':' :: name.localPart.toList := by
    simp [QualifiedName.text]
  rw [hsplit, endsWithFrom_append (by decide)]

/-- What is written for the leaf ends with the word `from`. -/
def Leaf.EndsWithFrom : Leaf → Prop
  | .atom kind value => TopicQuery.EndsWithFrom (Style.atom kind value).toList
  | .qname _ name => TopicQuery.EndsWithFrom name.localPart.toList
  | .literal _ (.qname name) => TopicQuery.EndsWithFrom name.localPart.toList
  | _ => False

namespace Phrase

open Grammar Style

variable {s : Style} {c : Scope}

/-! ## Terms -/

/-- A prefixed name is written behind a mark or none. -/
theorem prefixed_text {bracket : Bool} {kind : ReferenceKind} {name : QualifiedName} {text : String}
    {elementName : String}
    (h : s.prefixed bracket ⟨elementName, referenceAttributes kind name, none, []⟩ = .ok text) :
    ∃ mark : String, mark.toList.length ≤ 1 ∧ text = mark ++ prefixedText bracket name := by
  simp only [Style.prefixed, Element.writtenAttr, Element.attr?, referenceAttributes, Attributes.get?,
    ok_bind, String.reduceEq, if_true, if_false, ReferenceKind.ofText?_text] at h
  cases hbound : s.kind? name.qualifier with
  | none =>
      rw [hbound] at h
      cases h
  | some bound =>
      simp only [hbound] at h
      have hmark : ∀ kind bound : ReferenceKind,
          (if kind = bound then "" else kind.marker).toList.length ≤ 1 := by
        intro kind bound
        cases kind <;> split <;> decide
      refine ⟨_, hmark kind (if bound = .module ∧ bracket = true then .subjectIdentifier else bound),
        ?_⟩
      generalize (if kind = (if bound = .module ∧ bracket = true then .subjectIdentifier else bound)
        then "" else kind.marker) = mark at h
      by_cases hne : mark ≠ ""
      · rw [if_pos hne] at h
        obtain ⟨-, -, htext⟩ := ok_of_bind h
        exact (Except.ok.inj htext).symm
      · rw [if_neg hne] at h
        exact (Except.ok.inj h).symm

/-- What a term is written as. -/
def Writing (text : String) : Term → Prop
  | .atom kind value => text = Style.atom kind value
  | .literal value (.iri iri) => text = quoted value ++ "^^" ++ ("<" ++ iri ++ ">")
  | .literal value (.qname name) => text = quoted value ++ "^^" ++ name.text
  | .qname _ name => ∃ mark : String, mark.toList.length ≤ 1 ∧ text = mark ++ name.text
  | .curie _ name => ∃ mark : String, mark.toList.length ≤ 1 ∧ text = mark ++ ("[" ++ name.text ++ "]")
  | .iri marker value => text = Style.atom marker.atomKind value

theorem term_text {t : Term} {text : String} (h : s.term (t.leaf c).element = .ok text) :
    Writing text t := by
  have hatom : ∀ kind value, s.term (Leaf.atom kind value).element = .ok (Style.atom kind value) := by
    intro kind value
    simp only [Style.term, Leaf.element, Leaf.name, AtomKind.ofName?_name]
    rfl
  cases t with
  | atom kind value => exact (Except.ok.inj ((hatom kind value).symm.trans h)).symm
  | iri marker value => exact (Except.ok.inj ((hatom marker.atomKind value).symm.trans h)).symm
  | literal value datatype => cases datatype <;> exact (Except.ok.inj h).symm
  | qname marker name => exact @prefixed_text s false _ name text "qname" h
  | curie marker name =>
      obtain ⟨-, -, hcurie⟩ := ok_of_bind h
      exact @prefixed_text s true _ name text "curie" hcurie

theorem endsWithFrom_term {t : Term} {text : String} (h : s.term (t.leaf c).element = .ok text) :
    EndsWithFrom text.toList ↔ (t.leaf c).EndsWithFrom := by
  have hwriting := term_text h
  cases t with
  | atom kind value =>
      obtain rfl := hwriting
      rfl
  | iri marker value =>
      obtain rfl := hwriting
      rfl
  | literal value datatype =>
      cases datatype with
      | iri iri =>
          obtain rfl := hwriting
          refine iff_of_false ?_ id
          simpa using not_endsWithFrom_concat (by decide : '>' ≠ 'm')
            ((quoted value).toList ++ '^' :: '^' :: '<' :: iri.toList)
      | qname name =>
          obtain rfl := hwriting
          exact endsWithFrom_qname _ name
  | qname marker name =>
      obtain ⟨mark, -, rfl⟩ := hwriting
      exact endsWithFrom_qname mark name
  | curie marker name =>
      obtain ⟨mark, -, rfl⟩ := hwriting
      refine iff_of_false ?_ id
      simpa using not_endsWithFrom_concat (by decide : ']' ≠ 'm')
        (mark.toList ++ '[' :: name.text.toList)

/-- A reference between quotes does not end with the word. -/
theorem not_endsWithFrom_marked (m : Marker) (value : String) :
    ¬(Leaf.atom m.atomKind value).EndsWithFrom := by
  have hquote : ∃ front, (Style.atom m.atomKind value).toList = front ++ ['"'] := by
    cases m
    · exact ⟨'a' :: '"' :: value.toList.flatMap fun c => if c = '"' then ['"', '"'] else [c],
        by simp [Marker.atomKind, Style.atom, quoted]⟩
    · exact ⟨'s' :: '"' :: value.toList.flatMap fun c => if c = '"' then ['"', '"'] else [c],
        by simp [Marker.atomKind, Style.atom, quoted]⟩
  obtain ⟨front, hfront⟩ := hquote
  rw [Leaf.EndsWithFrom, hfront]
  exact not_endsWithFrom_concat (by decide) front

/-- A term that ends with the word has nearly as many characters as any term of its leaf. -/
theorem length_le_span {t t' : Term} {c' : Scope} {text : String}
    (h : s.term (t.leaf c).element = .ok text) (hends : (t.leaf c).EndsWithFrom)
    (hleaf : t'.leaf c' = t.leaf c) : text.toList.length ≤ span t'.tokens + 1 := by
  have hwriting := term_text h
  cases t with
  | atom kind value =>
      obtain rfl := hwriting
      cases t' with
      | atom kind' value' =>
          cases hleaf
          simp [Term.tokens, Token.written]
      | iri marker value' =>
          rw [← hleaf] at hends
          exact absurd hends (not_endsWithFrom_marked marker value')
      | _ => cases hleaf
  | iri marker value => exact absurd hends (not_endsWithFrom_marked marker value)
  | literal value datatype =>
      cases datatype with
      | iri iri => exact absurd hends id
      | qname name =>
          obtain rfl := hwriting
          cases t' <;> cases hleaf
          simp [Term.tokens, Token.written, datatypeToken, Token.text, Symbol.text, Style.atom,
            AtomKind.write]
          omega
  | qname marker name =>
      obtain ⟨mark, hmark, rfl⟩ := hwriting
      cases t' with
      | qname marker' name' =>
          obtain rfl : name' = name := (Leaf.qname.inj hleaf).2
          simp only [Term.tokens, Token.written, Token.text, String.toList_append,
            List.length_append, span_append, span_cons, span_nil]
          omega
      | _ => cases hleaf
  | curie marker name => exact absurd hends id

/-! ## Calls -/

theorem not_endsWithFrom_application (name : String) (arguments : List String) :
    ¬EndsWithFrom (application name arguments).toList := by
  simpa [application] using not_endsWithFrom_concat (by decide : ')' ≠ 'm')
    ((name ++ "(" ++ commaList arguments).toList)

/-- What is written for a call ends with a parenthesis. -/
theorem not_endsWithFrom_call {call : Call} {text : String} (hs : s.Suits c)
    (h : item s (call.outline c).element = .ok text) : ¬EndsWithFrom text.toList := by
  rw [item, if_pos (isClause_call c call)] at h
  have hname := call_name c call
  generalize (call.outline c).element = e at h hname
  have hplain : s.plainClause e = .ok text := by
    obtain ⟨name, attributes, body, children⟩ := e
    have hnot : ∀ n ∈ callNames, (n == "not") = false ∧ (n == "or") = false := by decide
    rw [Style.clause] at h
    simp only [hnot name hname, Bool.false_eq_true, if_false, hs.comment, String.empty_append] at h
    simpa using h
  simp only [callNames, List.mem_cons, List.not_mem_nil, or_false] at hname
  unfold Style.plainClause at hplain
  rcases hname with hname | hname | hname | hname <;> rw [hname] at hplain <;>
    · obtain ⟨first, -, hrest⟩ := ok_of_bind hplain
      obtain ⟨second, -, htext⟩ := ok_of_bind hrest
      rw [← Except.ok.inj htext]
      exact not_endsWithFrom_application _ _

theorem endsWithFrom_item {x : Target} {text : String} (hs : s.Suits c)
    (h : item s (targetElement c x) = .ok text) (hends : EndsWithFrom text.toList) :
    ∃ t, x = .term t ∧ s.term (t.leaf c).element = .ok text ∧ (t.leaf c).EndsWithFrom := by
  cases x with
  | call call => exact absurd hends (not_endsWithFrom_call hs h)
  | term t =>
      rw [item, targetElement, if_neg (by simp [isClause_term])] at h
      exact ⟨t, rfl, h, (endsWithFrom_term h).mp hends⟩

end Phrase

/-- The text inserts, updates, deletes or merges, and does not say where. -/
structure ChangesAll (events : List Event) : Prop where
  changes : ∃ k ∈ [.insert, .update, .delete, .merge], .enter k ∈ events
  unconditional : .enter .condition ∉ events

instance (events : List Event) : Decidable (ChangesAll events) :=
  decidable_of_iff ((∃ k ∈ [Container.insert, .update, .delete, .merge], .enter k ∈ events) ∧
    .enter .condition ∉ events) ⟨fun h => ⟨h.1, h.2⟩, fun h => ⟨h.1, h.2⟩⟩

/--
The last thing that is changed loses its end: a term that is written with `from`
at its end, or topic map content with `from` at its end between two blanks, or
behind one.
-/
def LosesEnd (events : List Event) : Prop :=
  (∃ item tag, item.EndsWithFrom ∧ [.leaf item, .leave tag, .leave .document] <:+ events) ∨
    ∃ content : String,
      [.leaf (.content content), .leave .fragment, .leave .insert, .leave .document] <:+ events ∧
        (Style.finalFrom <:+ content.toList ∨ Fragment.EndsBeforeClauses content.toList)

namespace Phrase

open Grammar Outline

variable {c : Scope}

/-! ## Statements without a condition -/

theorem Document.exists_change {c : Setting} {d : Document} (h : ChangesAll (d.outline c).events) :
    ∃ x, d.statement = some (.change x none) := by
  obtain ⟨k, hk, hbegins⟩ := h.changes
  have hinner : isInner (.enter k) = false ∧ k ≠ .document ∧ k ≠ .condition := by
    simp only [List.mem_cons, List.not_mem_nil, or_false] at hk
    rcases hk with rfl | rfl | rfl | rfl <;> exact ⟨rfl, by simp, by simp⟩
  obtain ⟨x, hx, rfl⟩ := (container_mem_iff hinner.1 hinner.2.1 hinner.2.2 d).mp hbegins
  cases x with
  | change x y =>
      cases y with
      | none => exact ⟨x, hx⟩
      | some y => exact absurd ((condition_mem_iff d).mpr ⟨_, hx, rfl⟩) h.unconditional
  | _ => simp [Statement.container] at hk

/-- The events of a text with such a statement end with those of what is changed. -/
theorem Document.events_change {c : Setting} {d : Document} {x : Change}
    (hx : d.statement = some (.change x none)) :
    ∃ front, (d.outline c).events =
      (front ++ .enter x.container :: eventsAll (x.outlines (d.settled c).scope)) ++
        [Event.leave x.container.tag, Event.leave .document] := by
  refine ⟨.enter .document :: eventsAll ((Directive.leavesAll c d.directives).map .leaf ++
    d.rules.flatMap (Category.rule.outlines (d.settled c).scope)), ?_⟩
  rw [Document.outline, hx]
  simp [events, Category.statement, Category.optionalCondition, Container.tag]

/-! ## The last thing that is changed -/

namespace Change

variable {x : Change}

theorem outlines_targets (h : x.Lists) :
    x.outlines c = x.targets.flatMap (Category.target.outlines c) := by
  cases x with
  | insert content => exact absurd rfl (h content)
  | update calls => simp [outlines, targets, Category.list, Category.target, Category.call,
      List.flatMap_map]
  | delete targets => rfl
  | merge first second => rfl

theorem events_insert (content : String) (front : List Event) :
    ∃ before, front ++ .enter (insert content).container ::
      eventsAll ((insert content).outlines c) =
        before ++ [Event.leaf (.content content), Event.leave .fragment] := by
  refine ⟨front ++ .enter .insert :: .enter .fragment :: eventsAll
    ((Fragment.mentioned content).map fun name => .leaf (.atom .var name)), ?_⟩
  simp [outlines, contentOutline, container, events, Container.tag]

/-- What is reported last is a leaf only for a term. -/
theorem getLast?_events_iff {item : Leaf} (front : List Event) :
    (front ++ .enter x.container :: eventsAll (x.outlines c)).getLast? = some (.leaf item) ↔
      ∃ init t, x.targets = init ++ [Target.term t] ∧ t.leaf c = item := by
  by_cases hlists : x.Lists
  · rw [outlines_targets hlists]
    obtain htargets | ⟨init, final, htargets⟩ := List.eq_nil_or_concat x.targets
    · simp [htargets, eventsAll]
    · rw [htargets]
      cases final with
      | call call =>
          obtain ⟨k, inner, hcall⟩ : ∃ k inner, call.outline c = .within k inner := by
            cases call with
            | association name roles => exact ⟨_, _, rfl⟩
            | plain name arguments =>
                unfold Call.outline
                dsimp only
                split <;> exact ⟨_, _, rfl⟩
          simp [Category.target, hcall, events, List.getLast?_cons]
      | term t => simp [Category.target, events, List.getLast?_cons]
  · obtain ⟨content, rfl⟩ : ∃ content, x = .insert content := by
      simpa [Lists] using hlists
    obtain ⟨before, hbefore⟩ := events_insert (c := c) content front
    rw [hbefore]
    simp [targets]

/-- The last thing that is changed loses its end. -/
def LosesEnd (c : Scope) (x : Change) : Prop :=
  (∃ init t, x.targets = init ++ [.term t] ∧ (t.leaf c).EndsWithFrom) ∨
    ∃ content, x = .insert content ∧
      (Style.finalFrom <:+ content.toList ∨ Fragment.EndsBeforeClauses content.toList)

end Change

theorem suffix_two_iff {α : Type} {a b a' b' : α} (xs ys : List α) :
    xs ++ [a, b] <:+ ys ++ [a', b'] ↔ xs <:+ ys ∧ a = a' ∧ b = b' := by
  constructor
  · rintro ⟨front, hfront⟩
    rw [← List.append_assoc] at hfront
    obtain ⟨rfl, hends⟩ := List.append_inj' hfront rfl
    simp only [List.cons.injEq, and_true] at hends
    exact ⟨⟨front, rfl⟩, hends⟩
  · rintro ⟨⟨front, rfl⟩, rfl, rfl⟩
    exact ⟨front, by simp⟩

theorem singleton_suffix_iff {α : Type} {a : α} {xs : List α} : [a] <:+ xs ↔ xs.getLast? = some a := by
  constructor
  · rintro ⟨front, rfl⟩
    exact List.getLast?_concat
  · intro h
    obtain ⟨front, rfl⟩ := List.getLast?_eq_some_iff.mp h
    exact List.suffix_append front [a]

theorem Document.losesEnd_iff {c : Setting} {d : Document} {x : Change}
    (hx : d.statement = some (.change x none)) :
    TopicQuery.LosesEnd (d.outline c).events ↔ x.LosesEnd (d.settled c).scope := by
  obtain ⟨front, hevents⟩ := Document.events_change (c := c) hx
  have hterm : ∀ item tag, [.leaf item, .leave tag, .leave .document] <:+ (d.outline c).events ↔
      (∃ init t, x.targets = init ++ [Target.term t] ∧ t.leaf (d.settled c).scope = item) ∧
        tag = x.container.tag := by
    intro item tag
    rw [hevents, ← Change.getLast?_events_iff front, ← singleton_suffix_iff]
    exact (suffix_two_iff [Event.leaf item] _).trans (by simp)
  have hcontent : ∀ content, [.leaf (.content content), .leave .fragment, .leave .insert,
      .leave .document] <:+ (d.outline c).events ↔ x = .insert content := by
    intro content
    rw [hevents]
    refine (suffix_two_iff [Event.leaf (.content content), .leave .fragment] _).trans ?_
    constructor
    · rintro ⟨hsuffix, htag, -⟩
      cases x with
      | insert content' =>
          obtain ⟨before, hbefore⟩ :=
            Change.events_insert (c := (d.settled c).scope) content' front
          rw [hbefore] at hsuffix
          obtain ⟨-, hleaf, -⟩ := (suffix_two_iff [] before).mp hsuffix
          rw [Leaf.content.inj (Event.leaf.inj hleaf)]
      | _ => cases htag
    · rintro rfl
      obtain ⟨before, hbefore⟩ := Change.events_insert (c := (d.settled c).scope) content front
      rw [hbefore]
      exact ⟨List.suffix_append _ _, rfl, rfl⟩
  simp only [TopicQuery.LosesEnd, Change.LosesEnd, hterm, hcontent]
  refine or_congr ⟨?_, ?_⟩ Iff.rfl
  · rintro ⟨item, tag, hitem, ⟨init, t, htargets, rfl⟩, -⟩
    exact ⟨init, t, htargets, hitem⟩
  · rintro ⟨init, t, htargets, hitem⟩
    exact ⟨_, _, hitem, ⟨init, t, htargets, rfl⟩, rfl⟩

end Phrase

end TopicQuery
