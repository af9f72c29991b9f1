import TopicQuery.Proofs.Passes.Evidence
import TopicQuery.Proofs.Spoken

/-!
Replaying an optimized tree. But for the marks of passes every element of it is still the one
of a container or of a leaf, so that without its marks the tree is the one of an outline: it
is replayed as the walk through that outline, and what is built from the walk has lost
nothing but the marks.
-/

namespace TopicQuery

open Element

/-! ## Marks -/

namespace Attributes

variable {keep : String → Bool} {name : String}

theorem filter_put_of_not (h : keep name = false) (value : String)
    (attributes : List (String × String)) :
    (put name value attributes).filter (keep ·.1) = attributes.filter (keep ·.1) := by
  induction attributes with
  | nil => simp [put, h]
  | cons a rest ih =>
      obtain ⟨n, v⟩ := a
      by_cases hn : n = name
      · subst hn
        simp [put, h]
      · simp only [put, if_neg hn, List.filter_cons, ih]

theorem filter_put (h : keep name = true) (value : String) (attributes : List (String × String)) :
    (put name value attributes).filter (keep ·.1) = put name value (attributes.filter (keep ·.1)) := by
  induction attributes with
  | nil => simp [put, h]
  | cons a rest ih =>
      obtain ⟨n, v⟩ := a
      by_cases hn : n = name
      · subst hn
        simp [put, h]
      · cases hkeep : keep n <;> simp [put, hn, hkeep, ih]

end Attributes

theorem Leaf.eq_var_of_name {item : Leaf} (h : item.name = "variable") :
    ∃ v, item = .atom .var v := by
  cases item with
  | atom kind value =>
      cases kind
      case var => exact ⟨value, rfl⟩
      all_goals simp [Leaf.name, AtomKind.name] at h
  | order name descending => cases descending <;> simp [Leaf.name] at h
  | _ => simp [Leaf.name] at h

namespace Element

theorem restrictAll_eq_map (keep : String → Bool) (es : List Element) :
    restrictAll keep es = es.map (restrict keep) := by
  induction es with
  | nil => rfl
  | cons e es ih => rw [restrictAll, ih, List.map_cons]

theorem restrict_eq (keep : String → Bool) (e : Element) : e.restrict keep =
    ⟨e.name, e.attributes.filter (keep ·.1), e.text, e.children.map (restrict keep)⟩ := by
  obtain ⟨name, attributes, text, children⟩ := e
  rw [restrict, restrictAll_eq_map]

theorem restrict_restrict (keep : String → Bool) (e : Element) :
    (e.restrict keep).restrict keep = e.restrict keep := by
  induction e using induction_children with
  | step e ih =>
      rw [restrict_eq keep e, restrict_eq]
      dsimp only
      rw [List.filter_filter, List.map_map]
      congr 1
      · simp
      · exact List.map_congr_left ih

/-- The attributes of the element that passes did not leave as marks. -/
def unmarked (e : Element) : List (String × String) := e.attributes.filter (·.1 != optimizedByName)

theorem unmarked_annotate (e : Element) (pass : String) : (e.annotate pass).unmarked = e.unmarked := by
  have hset : ∀ value, (e.setAttr optimizedByName value).unmarked = e.unmarked := fun value =>
    @Attributes.filter_put_of_not (· != optimizedByName) optimizedByName (by simp) value e.attributes
  unfold Element.annotate
  split
  · exact hset pass
  · split
    · rfl
    · exact hset _

theorem attr?_unmarked (e : Element) {name : String} (h : name ≠ optimizedByName) :
    Attributes.get? name e.unmarked = e.attr? name :=
  get?_filter (· != optimizedByName) (by simpa using h) e.attributes

/-! ## Elements of events -/

/-- But for marks the element, by itself, is the one of a container or of a leaf. -/
inductive Stands (e : Element) : Prop
  | container (c : Container) (hwords : c.ListsWords) (hname : e.name = c.tag.name)
    (hattributes : e.unmarked = c.attributes) (htext : e.text = none)
  | leaf (item : Leaf) (hword : ∀ v, item = .atom .var v → Text.IsUnbroken v.toList)
    (hname : e.name = item.name) (hattributes : e.unmarked = item.attributes)
    (htext : e.text = item.text?) (hchildren : e.children = [])

/-- A built-in predicate tells its name and its kinds. -/
theorem Stands.builtin {e : Element} (h : e.Stands) (hname : e.name = "builtin-predicate") :
    ∃ name hints, e.unmarked = (Container.builtin name hints).attributes ∧ e.text = none := by
  cases h with
  | container c _ hc hattributes htext =>
      have htag : c.tag = .builtin := Tag.name_injective (hc.symm.trans hname)
      cases c with
      | builtin name hints => exact ⟨name, hints, hattributes, htext⟩
      | _ => cases htag
  | leaf item _ hitem _ _ _ =>
      have hleaf := ofName?_leaf item
      rw [← hitem, hname] at hleaf
      cases hleaf

/-- A variable is one word. -/
theorem Stands.isUnbroken {e : Element} (h : e.Stands) {v : String}
    (hv : e.variableName? = some v) : Text.IsUnbroken v.toList := by
  obtain ⟨hname, hvalue⟩ := variableName?_eq_some hv
  cases h with
  | container c _ hc _ _ =>
      have htag : Tag.ofName? c.tag.name = some c.tag := Tag.ofName?_name c.tag
      rw [← hc, hname] at htag
      cases htag
  | leaf item hword hitem hattributes _ _ =>
      rw [← attr?_unmarked e (by decide), hattributes] at hvalue
      obtain ⟨w, rfl⟩ := Leaf.eq_var_of_name (hitem.symm.trans hname)
      obtain rfl : w = v := by simpa [Leaf.attributes, Attributes.get?] using hvalue
      exact hword w rfl

/-- Passes leave behind elements of containers and leaves. -/
theorem stands_kept : KeptByPasses Stands where
  children hempty h := by
    cases h with
    | container c hwords hname hattributes htext =>
        exact .container c hwords hname hattributes htext
    | leaf item hword hname hattributes htext hchildren =>
        exact .leaf item hword hname hattributes htext (hempty hchildren)
  annotate {e} pass h := by
    have hname := name_annotate e pass.name
    have htext := text_annotate e pass.name
    have hattributes := unmarked_annotate e pass.name
    cases h with
    | container c hwords hc hunmarked hnone =>
        exact .container c hwords (hname.trans hc) (hattributes.trans hunmarked) (htext.trans hnone)
    | leaf item hword hitem hunmarked hshown hchildren =>
        exact .leaf item hword (hname.trans hitem) (hattributes.trans hunmarked)
          (htext.trans hshown) ((children_annotate e pass.name).trans hchildren)
  hints {e hints left} hname hhints _ hne h := by
    obtain ⟨name, kinds, hunmarked, htext⟩ := h.builtin hname
    refine .container (.builtin name left) trivial hname ?_ htext
    have hput : (e.setAttr "hints" (Hint.listText left)).unmarked =
        Attributes.put "hints" (Hint.listText left) e.unmarked :=
      @Attributes.filter_put (· != optimizedByName) "hints" (by decide) _ e.attributes
    rw [hput, hunmarked]
    cases kinds with
    | nil =>
        -- there are kinds to be read, so they are not left out
        rw [← attr?_unmarked e (by decide), hunmarked] at hhints
        cases hhints
    | cons kind kinds =>
        obtain ⟨first, rest, rfl⟩ := List.exists_cons_of_ne_nil hne
        rfl
  internal {clause builtin n removed internal} h hname hbuiltin hargument _ := by
    obtain ⟨here, below⟩ := every_iff.mp h
    obtain ⟨name, kinds, hunmarked, -⟩ := here.builtin hname
    obtain ⟨d, hd, hvariable⟩ := Option.bind_eq_some_iff.mp hargument
    have hchild : d ∈ clause.children := (List.mem_filter.mp (List.mem_of_getElem? hd)).1
    have hword := (every_iff.mp (below d hchild)).1.isUnbroken hvariable
    refine .container (.internal internal.name kinds [removed]) ?_ rfl ?_ rfl
    · simpa [Container.ListsWords] using hword
    · have hhints : clause.attr? "hints" =
          Attributes.get? "hints" (Container.builtin name kinds).attributes := by
        rw [← attr?_unmarked clause (by decide), hunmarked]
      unfold InternalPredicates.internalClause
      rw [hhints]
      cases kinds <;> rfl

theorem unmarked_container (c : Container) (children : List Element) :
    unmarked ⟨c.tag.name, c.attributes, none, children⟩ = c.attributes := by
  cases c with
  | branch shortCircuit => cases shortCircuit <;> rfl
  | builtin name hints => cases hints <;> rfl
  | internal name hints removed => cases hints <;> rfl
  | _ => rfl

theorem unmarked_leaf (item : Leaf) : item.element.unmarked = item.attributes := by
  cases item with
  | literal value datatype => cases datatype <;> rfl
  | _ => rfl

/-- The tree of a text is made of elements of containers and leaves. -/
theorem stands_outline {d : Phrase.Document} (c : Grammar.Setting)
    (hproper : ∀ t ∈ d.tokens, t.Proper) : (d.outline c).element.Every Stands := by
  apply Outline.every_element_of_events
  · intro k children hk
    have hwords : k.ListsWords := by
      cases k with
      | internal name hints removed => exact absurd (d.isTabled_of_mem hk) nofun
      | _ => trivial
    exact .container k hwords rfl (unmarked_container k children) rfl
  · intro item hitem
    have hword : ∀ v, item = .atom .var v → Text.IsUnbroken v.toList := by
      rintro v rfl
      exact Phrase.Document.isUnbroken_of_mem hproper hitem
    exact .leaf item hword rfl (unmarked_leaf item) rfl rfl

/-- A tree of such elements is the one of an outline, but for marks. -/
theorem Every.exists_outline {e : Element} (h : e.Every Stands) :
    ∃ o : Outline, o.element = e.restrict (· != optimizedByName) ∧
      ∀ c, .enter c ∈ o.events → c.ListsWords := by
  induction h with
  | @mk e here below ih =>
      rw [restrict_eq]
      cases here with
      | container c hwords hname hattributes htext =>
          have hinner : ∀ es ⊆ e.children, ∃ os : List Outline,
              Outline.elements os = es.map (restrict (· != optimizedByName)) ∧
              ∀ c, .enter c ∈ Outline.eventsAll os → c.ListsWords := by
            intro es hes
            induction es with
            | nil => exact ⟨[], rfl, nofun⟩
            | cons child es ihes =>
                obtain ⟨hchild, hes⟩ := List.cons_subset.mp hes
                obtain ⟨o, ho, howords⟩ := ih child hchild
                obtain ⟨os, hos, hoswords⟩ := ihes hes
                refine ⟨o :: os, by rw [Outline.elements, ho, hos, List.map_cons], fun c hc => ?_⟩
                exact (List.mem_append.mp hc).elim (howords c) (hoswords c)
          obtain ⟨os, hos, hoswords⟩ := hinner e.children (List.Subset.refl _)
          refine ⟨.within c os, ?_, fun k hk => ?_⟩
          · rw [Outline.element, hos, hname, htext, ← hattributes]
            rfl
          · obtain hk | hk : k = c ∨ .enter k ∈ Outline.eventsAll os := by
              simpa [Outline.events] using hk
            · exact hk ▸ hwords
            · exact hoswords k hk
      | leaf item _ hname hattributes htext hchildren =>
          refine ⟨.leaf item, ?_, fun k hk => by simp [Outline.events] at hk⟩
          rw [Outline.element, Leaf.element, hname, htext, hchildren, ← hattributes]
          rfl

/-- An outline is a document if its element is called like one. -/
theorem exists_document_of_name {o : Outline} (h : o.element.name = Tag.document.name) :
    ∃ inner, o = .within .document inner := by
  match o with
  | .leaf item =>
      have hleaf := ofName?_leaf item
      rw [show item.name = Tag.document.name from h] at hleaf
      cases hleaf
  | .within c inner =>
      have htag : c.tag = .document := Tag.name_injective h
      cases c with
      | document => exact ⟨inner, rfl⟩
      | _ => cases htag

/-! ## Replay -/

/-- What looks the same and has children that are replayed alike is replayed alike. -/
theorem LooksLike.replay_eq {a b : Element} (h : LooksLike a b)
    (hchildren : replayAll a.children = replayAll b.children)
    (hempty : a.children.isEmpty = b.children.isEmpty) : a.replay = b.replay := by
  obtain ⟨name, attributes, text, children⟩ := a
  obtain ⟨name', attributes', text', children'⟩ := b
  obtain rfl : name = name' := h.name
  rw [replay, replay]
  simp only [h.container, h.leaf]
  rw [show replayAll children = replayAll children' from hchildren,
    show children.isEmpty = children'.isEmpty from hempty]

theorem replayAll_map {g : Element → Element} {es : List Element}
    (h : ∀ e ∈ es, (g e).replay = e.replay) : replayAll (es.map g) = replayAll es := by
  induction es with
  | nil => rfl
  | cons e es ih =>
      obtain ⟨he, hes⟩ := List.forall_mem_cons.mp h
      rw [List.map_cons, replayAll, replayAll, he, ih hes]

/-- Marks are not replayed. -/
theorem replay_restrict (e : Element) : (e.restrict (· != optimizedByName)).replay = e.replay := by
  induction e using induction_children with
  | step e ih =>
      have hlooks : LooksLike (e.restrict (· != optimizedByName)) e := by
        rw [restrict_eq]
        exact ⟨rfl, rfl, fun attr hattr => attr?_unmarked e hattr⟩
      rw [restrict_eq] at hlooks ⊢
      refine hlooks.replay_eq ?_ (by simp)
      exact replayAll_map ih

end Element

/-! ## Trees of texts -/

/--
The optimized tree of a text is replayed without a fault, the events are well nested, and what
is built from them is the optimized tree again, but for the marks of passes.
-/
theorem replay_optimize {plus : Bool} {text : String} (hparses : (parse text plus).fault = none) :
    ∃ tree, Element.ofText plus text = .ok tree ∧ ∀ passes, ∃ events rebuilt,
      (optimize passes tree).replay = ⟨events, none⟩ ∧ Nesting.check events = .ok () ∧
        Element.ofEvents events = .ok rebuilt ∧ rebuilt.sameAs (optimize passes tree) = true := by
  obtain ⟨d, hd⟩ := Phrase.exists_document hparses
  refine ⟨_, hd.tree, fun passes => ?_⟩
  have hstands := (stands_outline (Phrase.settingOf plus text) hd.proper).optimize stands_kept passes
  obtain ⟨o, ho, hwords⟩ := hstands.exists_outline
  -- passes leave the root a document, so the outline is one as well
  have hroot : o.element.name = Tag.document.name := by
    rw [ho, restrict_eq, name_optimize]
    rfl
  obtain ⟨inner, rfl⟩ := exists_document_of_name hroot
  refine ⟨_, (Outline.within .document inner).element, ?_, Outline.check_document inner, ?_, ?_⟩
  · rw [← replay_restrict, ← ho]
    exact replay_element _ hwords
  · rw [Element.ofEvents, Growth.run_document]
    rfl
  · rw [sameAs, agree_iff, ho, restrict_restrict]

/-- Kinds that are narrowed, and a variable that an internal predicate does without. -/
theorem replay_optimize_narrowed :
    ∃ tree, Element.ofText false
        "not(topic($T)), type($X, $Y), occurrence($T, $X), { instance-of($T, $Z) | topic($Y) }?" =
          .ok tree ∧
      ∀ passes, ∃ events rebuilt,
        (optimize passes tree).replay = ⟨events, none⟩ ∧ Nesting.check events = .ok () ∧
          Element.ofEvents events = .ok rebuilt ∧ rebuilt.sameAs (optimize passes tree) = true :=
  replay_optimize (by decide +kernel)

end TopicQuery
