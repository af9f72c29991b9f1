import TopicQuery.Proofs.Every

/-!
Evidence for kinds of construct. Every member of a list is narrowed by what the other
members imply, so neither the order of the members nor a change that leaves what they
imply has a part in it, and what has been narrowed once is not narrowed again. A change that
only goes on to the children where no list of clauses is leaves it, so narrowing or replacing
a clause may as well come before such a change as behind it.
-/

namespace TopicQuery

open Element

/-! ## Changes of what lies below clauses -/

namespace Element

/-- What holds of an element if it holds of its children holds of every element. -/
theorem induction_children {motive : Element → Prop}
    (step : ∀ e, (∀ c ∈ e.children, motive c) → motive e) (e : Element) : motive e := by
  have hevery : e.Every fun _ => True := every_of_preorder e fun _ _ => trivial
  induction hevery with
  | mk _ _ ih => exact step _ ih

theorem not_list_of_builtin {e : Element} (h : e.name = "builtin-predicate") :
    e.isClauseList = false := by
  rw [isClauseList, h]
  rfl

theorem variableName?_eq_some {e : Element} {v : String} (h : e.variableName? = some v) :
    e.name = "variable" ∧ e.attr? "value" = some v := by
  unfold variableName? at h
  split at h
  · next hname => exact ⟨by simpa using hname, h⟩
  · cases h

theorem annotate_children (e : Element) (cs : List Element) (pass : String) :
    Element.annotate { e with children := cs } pass =
      ⟨(e.annotate pass).name, (e.annotate pass).attributes, (e.annotate pass).text, cs⟩ := by
  have hattr : Element.attr? { e with children := cs } optimizedByName = e.attr? optimizedByName :=
    rfl
  unfold Element.annotate
  rw [hattr]
  split
  · rfl
  · split <;> rfl

/-- The change keeps names, and where no list of clauses is it only goes on to the children. -/
structure Descends (g : Element → Element) : Prop where
  name : ∀ e, (g e).name = e.name
  of_not_list : ∀ {e : Element}, e.isClauseList = false →
    g e = { e with children := e.children.map g }

theorem descends_changeLists (pass : String) (change : List Element → Option (List Element)) :
    Descends (changeLists pass change) :=
  ⟨name_changeLists, changeLists_of_not_list⟩

theorem descends_narrowBelow (outer : List NarrowHints.Evidence) :
    Descends (NarrowHints.narrowBelow outer) :=
  ⟨NarrowHints.name_narrowBelow outer, NarrowHints.narrowBelow_of_not_list outer⟩

theorem descends_replaceBelow (counted : List String) :
    Descends (InternalPredicates.replaceBelow counted) :=
  ⟨InternalPredicates.name_replaceBelow, InternalPredicates.replaceBelow_of_not_list⟩

namespace Descends

variable {g : Element → Element} (hg : Descends g)

include hg

/-- Changes that may be interchanged below what is no list may be interchanged there. -/
theorem comm_of_not_list {f : Element → Element} (hf : Descends f) {e : Element}
    (hlist : e.isClauseList = false) (h : ∀ c ∈ e.children, g (f c) = f (g c)) :
    g (f e) = f (g e) := by
  rw [hf.of_not_list hlist, hg.of_not_list hlist,
    hg.of_not_list (e := { e with children := _ }) hlist,
    hf.of_not_list (e := { e with children := _ }) hlist, List.map_map, List.map_map]
  congr 1
  exact List.map_congr_left h

theorem variableName?_eq (e : Element) : (g e).variableName? = e.variableName? := by
  by_cases hname : e.name = "variable"
  · have hlist : e.isClauseList = false := by
      rw [isClauseList, hname]
      rfl
    rw [hg.of_not_list hlist]
    rfl
  · simp [variableName?, hg.name, hname]

theorem isFilter_eq (e : Element) : (g e).isFilter = e.isFilter := by
  rw [isFilter, isFilter, hg.name]

theorem arguments_map (e : Element) :
    Element.arguments { e with children := e.children.map g } = e.arguments.map g := by
  have hname : (fun e : Element => e.name != "name") ∘ g = fun e => e.name != "name" := by
    funext e
    simp [hg.name]
  rw [arguments, List.filter_map, hname]
  rfl

/-- The variable at an argument position is found behind the change as before it. -/
theorem argument_map (e : Element) (n : Nat) :
    (Element.arguments { e with children := e.children.map g })[n]?.bind variableName? =
      e.arguments[n]?.bind variableName? := by
  rw [hg.arguments_map, List.getElem?_map]
  cases e.arguments[n]? with
  | none => rfl
  | some c => exact hg.variableName?_eq c

theorem withoutArgument_map (n : Nat) (es : List Element) :
    InternalPredicates.withoutArgument n (es.map g) =
      (InternalPredicates.withoutArgument n es).map g := by
  induction es generalizing n with
  | nil => rfl
  | cons e es ih =>
      by_cases hname : (e.name == "name") = true
      · simp [InternalPredicates.withoutArgument, hg.name, hname, ih]
      · cases n with
        | zero => simp [InternalPredicates.withoutArgument, hg.name, hname]
        | succ n => simp [InternalPredicates.withoutArgument, hg.name, hname, ih]

/-! ### Evidence and narrowed kinds -/

/-- The change leaves what a clause implies. -/
theorem implied_eq (e : Element) : NarrowHints.implied (g e) = NarrowHints.implied e := by
  by_cases hname : e.name = "builtin-predicate"
  · rw [hg.of_not_list (not_list_of_builtin hname)]
    unfold NarrowHints.implied
    simp only [hg.argument_map e]
    rfl
  · simp [NarrowHints.implied, hg.name, hname]

theorem narrow_children (evidence : List NarrowHints.Evidence) (e : Element) :
    NarrowHints.narrow evidence { e with children := e.children.map g } =
      { NarrowHints.narrow evidence e with children := e.children.map g } := by
  have hhints : Element.attr? { e with children := e.children.map g } "hints" = e.attr? "hints" :=
    rfl
  have hfirst := hg.argument_map e 0
  rw [← List.head?_eq_getElem?, ← List.head?_eq_getElem?] at hfirst
  unfold NarrowHints.narrow
  rw [hhints, hfirst]
  split
  · rfl
  · split
    · dsimp only
      split
      · exact annotate_children (e.setAttr "hints" _) _ _
      · rfl
    · rfl

/-- A clause is narrowed before the change as behind it. -/
theorem narrow (evidence : List NarrowHints.Evidence) (e : Element) :
    NarrowHints.narrow evidence (g e) = g (NarrowHints.narrow evidence e) := by
  by_cases hname : e.name = "builtin-predicate"
  · have hlist := not_list_of_builtin ((NarrowHints.name_narrow evidence e).trans hname)
    rw [hg.of_not_list (not_list_of_builtin hname), hg.of_not_list hlist, hg.narrow_children,
      NarrowHints.children_narrow]
  · rw [NarrowHints.narrow_of_ne evidence hname, NarrowHints.narrow_of_ne evidence (hg.name e ▸ hname)]

/-! ### Replaced clauses -/

theorem replacement_children (e : Element) (internal : Internal) (removed : String) :
    InternalPredicates.replacement { e with children := e.children.map g } internal removed =
      g (InternalPredicates.replacement e internal removed) := by
  have hmarked : ∀ e, InternalPredicates.replacement e internal removed =
      (InternalPredicates.internalClause e internal removed).annotate InternalPredicates.name :=
    fun _ => rfl
  have hlist : (InternalPredicates.replacement e internal removed).isClauseList = false := by
    rw [isClauseList, hmarked, name_annotate]
    rfl
  have hclause : InternalPredicates.internalClause { e with children := e.children.map g } internal
      removed = { InternalPredicates.internalClause e internal removed with
        children := (InternalPredicates.internalClause e internal removed).children.map g } := by
    rw [InternalPredicates.internalClause, hg.withoutArgument_map]
    rfl
  rw [hg.of_not_list hlist, hmarked, hclause, annotate_children, hmarked, children_annotate]

/-- A clause is replaced before the change as behind it. -/
theorem replace (counted : List String) (e : Element) :
    InternalPredicates.replace counted (g e) = g (InternalPredicates.replace counted e) := by
  by_cases hname : e.name = "builtin-predicate"
  · have hlist := not_list_of_builtin hname
    have hattr : Element.attr? { e with children := e.children.map g } "name" = e.attr? "name" := rfl
    have hlone : InternalPredicates.loneArgument? counted { e with children := e.children.map g } =
        InternalPredicates.loneArgument? counted e := by
      simp only [InternalPredicates.loneArgument?, InternalPredicates.lone?, hg.argument_map e]
    have hlength : (Element.arguments { e with children := e.children.map g }).length =
        e.arguments.length := by
      rw [hg.arguments_map, List.length_map]
    rw [hg.of_not_list hlist]
    unfold InternalPredicates.replace
    rw [hattr, hlone, hlength]
    split
    · split
      · split
        · exact hg.replacement_children e _ _
        · exact (hg.of_not_list hlist).symm
      · exact (hg.of_not_list hlist).symm
    · exact (hg.of_not_list hlist).symm
  · rw [InternalPredicates.replace_of_ne counted hname,
      InternalPredicates.replace_of_ne counted (hg.name e ▸ hname)]

end Descends

end Element

end TopicQuery

namespace TopicQuery.NarrowHints

open Element

variable {evidence evidence' outer outer' inner inner' : List Evidence} {negated : Bool}
  {e : Element} {es es' : List Element}

/-! ## A single clause -/

theorem arguments_narrow (evidence : List Evidence) (e : Element) :
    (narrow evidence e).arguments = e.arguments := by
  rw [arguments, children_narrow]
  rfl

theorem attr?_name_narrow (evidence : List Evidence) (e : Element) :
    (narrow evidence e).attr? "name" = e.attr? "name" := by
  obtain h | ⟨-, _, _, left, -, -, -, -, h⟩ := narrow_eq evidence e
  · rw [h]
  · rw [h, (looksLike_annotate _ _).attr? "name" (by decide)]
    exact Attributes.get?_put_ne (by decide)

/-- A clause implies as much with fewer kinds. -/
theorem implied_narrow (evidence : List Evidence) (e : Element) :
    implied (narrow evidence e) = implied e := by
  unfold implied
  rw [name_narrow, attr?_name_narrow, arguments_narrow]

/-- A clause with evidence for all of its kinds stays as it is. -/
theorem narrow_eq_self {hints : List Hint} {v : String}
    (hhints : (e.attr? "hints").bind Hint.ofListText? = some hints)
    (hv : e.arguments.head?.bind variableName? = some v)
    (hall : (hints.filter fun h => evidence.contains (v, h)) = hints) : narrow evidence e = e := by
  unfold narrow
  rw [hhints, hv]
  simp only [hall, lt_irrefl, decide_false, Bool.and_false, Bool.false_eq_true, if_false, ite_self]

/-- A clause that has been narrowed has evidence for all of its kinds. -/
theorem narrow_narrow (evidence : List Evidence) (e : Element) :
    narrow evidence (narrow evidence e) = narrow evidence e := by
  obtain h | ⟨-, hints, v, left, -, hv, hleft, -, h⟩ := narrow_eq evidence e
  · rw [h, h]
  · have hattr : (narrow evidence e).attr? "hints" = some (Hint.listText left) := by
      rw [h, (looksLike_annotate _ _).attr? "hints" (by decide)]
      exact Attributes.get?_put_self
    have hall : (left.filter fun h => evidence.contains (v, h)) = left := by
      rw [hleft, List.filter_filter]
      simp
    refine narrow_eq_self ?_ (arguments_narrow evidence e ▸ hv) hall
    rw [hattr]
    exact Hint.ofListText?_listText left

/-- Only what there is evidence for counts, in any order and as often as it is. -/
theorem narrow_congr (h : ∀ x, x ∈ evidence ↔ x ∈ evidence') (e : Element) :
    narrow evidence e = narrow evidence' e := by
  have hcontains : ∀ x, evidence.contains x = evidence'.contains x := by
    intro x
    rw [Bool.eq_iff_iff, List.contains_iff_mem, List.contains_iff_mem, h x]
  unfold narrow
  simp only [hcontains]

/-! ## The members of a list -/

theorem impliedIn_append (negated : Bool) (es es' : List Element) :
    impliedIn negated (es ++ es') = impliedIn negated es ++ impliedIn negated es' := by
  cases negated <;> simp [impliedIn]

theorem impliedIn_map {g : Element → Element} (h : ∀ e ∈ es, implied (g e) = implied e) :
    impliedIn negated (es.map g) = impliedIn negated es := by
  cases negated with
  | true => rfl
  | false =>
      simp only [impliedIn, Bool.false_eq_true, if_false]
      induction es with
      | nil => rfl
      | cons e es ih =>
          obtain ⟨he, hes⟩ := List.forall_mem_cons.mp h
          rw [List.map_cons, List.flatMap_cons, List.flatMap_cons, he, ih hes]

theorem mem_impliedIn_perm (negated : Bool) (h : es.Perm es') (x : Evidence) :
    x ∈ impliedIn negated es ↔ x ∈ impliedIn negated es' := by
  cases negated with
  | true => exact Iff.rfl
  | false => exact (h.flatMap_right implied).mem_iff

/-- Members that have been changed, and imply what they did, are narrowed by what the others imply. -/
theorem narrowMembers_behind (negated : Bool) (outer inner : List Evidence) {g : Element → Element}
    (front : List Element) (h : ∀ e ∈ es, implied (g e) = implied e) :
    narrowMembers negated outer inner (impliedIn negated front) (es.map g) =
      es.map fun e => narrow (outer ++ impliedIn negated ((front ++ es).erase e))
        (narrowBelow inner (g e)) := by
  induction es generalizing front with
  | nil => rfl
  | cons e es ih =>
      obtain ⟨he, hes⟩ := List.forall_mem_cons.mp h
      have hothers : ∀ x, x ∈ outer ++ impliedIn negated front ++ impliedIn negated (es.map g) ↔
          x ∈ outer ++ impliedIn negated ((front ++ e :: es).erase e) := by
        intro x
        have hperm : ((front ++ e :: es).erase e).Perm (front ++ es) := by
          have hmiddle := (@List.perm_middle _ e front es).erase e
          rwa [List.erase_cons_head] at hmiddle
        have hrest := mem_impliedIn_perm negated hperm x
        rw [impliedIn_append] at hrest
        rw [List.append_assoc, impliedIn_map hes, List.mem_append, ← hrest, ← List.mem_append]
      have hfront : impliedIn negated front ++ impliedIn negated [g e] =
          impliedIn negated (front ++ [e]) := by
        have hfirst : ∀ c ∈ [e], implied (g c) = implied c := by simpa using he
        rw [impliedIn_append, ← impliedIn_map hfirst]
        rfl
      rw [List.map_cons, narrowMembers, narrow_congr hothers, hfront, ih (front ++ [e]) hes,
        List.map_cons, List.append_assoc]
      rfl

theorem narrowMembers_map (negated : Bool) (outer inner : List Evidence) {g : Element → Element}
    (h : ∀ e ∈ es, implied (g e) = implied e) :
    narrowMembers negated outer inner [] (es.map g) =
      es.map fun e => narrow (outer ++ impliedIn negated (es.erase e)) (narrowBelow inner (g e)) := by
  have hbehind := narrowMembers_behind negated outer inner [] h
  have hnil : impliedIn negated [] = [] := by cases negated <;> rfl
  rwa [hnil, List.nil_append] at hbehind

theorem narrowMembers_eq_map (negated : Bool) (outer inner : List Evidence) (es : List Element) :
    narrowMembers negated outer inner [] es =
      es.map fun e => narrow (outer ++ impliedIn negated (es.erase e)) (narrowBelow inner e) := by
  have hmap : narrowMembers negated outer inner [] (es.map id) =
      es.map fun e => narrow (outer ++ impliedIn negated (es.erase e)) (narrowBelow inner e) :=
    narrowMembers_map negated outer inner fun _ _ => rfl
  rwa [List.map_id] at hmap

/-- A member of a list with a name, narrowed by what the other members imply. -/
def narrowMember (outer : List Evidence) (name : String) (es : List Element) (e : Element) : Element :=
  narrow (outer ++ impliedIn (name == "not") (es.erase e))
    (narrowBelow (outer ++ impliedIn (name == "not") es) e)

/-- Members that have been changed, and imply what they did, are narrowed as they were. -/
theorem map_narrowMember {g : Element → Element} {name : String}
    (h : ∀ e ∈ es, implied (g e) = implied e) :
    (es.map g).map (narrowMember outer name (es.map g)) =
      es.map fun e => narrow (outer ++ impliedIn (name == "not") (es.erase e))
        (narrowBelow (outer ++ impliedIn (name == "not") es) (g e)) := by
  set negated := name == "not" with hnegated
  set inner := outer ++ impliedIn negated es with hinner
  rw [← narrowMembers_map negated outer inner h, narrowMembers_eq_map]
  unfold narrowMember
  rw [← hnegated, impliedIn_map h, ← hinner]

theorem narrowBelow_of_list (outer : List Evidence) (h : e.isClauseList = true) :
    narrowBelow outer e =
      { e with children := e.children.map (narrowMember outer e.name e.children) } := by
  obtain ⟨name, attributes, text, children⟩ := e
  rw [narrowBelow]
  dsimp only
  rw [if_pos h, narrowMembers_eq_map]
  rfl

theorem name_narrowMember (outer : List Evidence) (name : String) (es : List Element) (e : Element) :
    (narrowMember outer name es e).name = e.name := by
  rw [narrowMember, name_narrow, name_narrowBelow]

theorem implied_narrowMember (outer : List Evidence) (name : String) (es : List Element)
    (e : Element) : implied (narrowMember outer name es e) = implied e := by
  rw [narrowMember, implied_narrow, (descends_narrowBelow _).implied_eq]

theorem narrowBelow_congr (h : ∀ x, x ∈ outer ↔ x ∈ outer') (e : Element) :
    narrowBelow outer e = narrowBelow outer' e := by
  induction e using induction_children generalizing outer outer' with
  | step e ih =>
      by_cases hlist : e.isClauseList = true
      · rw [narrowBelow_of_list outer hlist, narrowBelow_of_list outer' hlist]
        congr 1
        refine List.map_congr_left fun c hc => ?_
        have hinner : ∀ x, x ∈ outer ++ impliedIn (e.name == "not") e.children ↔
            x ∈ outer' ++ impliedIn (e.name == "not") e.children := by simp [h]
        rw [narrowMember, ih c hc hinner]
        exact narrow_congr (by simp [h]) _
      · rw [Bool.not_eq_true] at hlist
        rw [narrowBelow_of_not_list outer hlist, narrowBelow_of_not_list outer' hlist]
        congr 1
        exact List.map_congr_left fun c hc => ih c hc h

/-- The order of the other members has no part in what a member is narrowed to. -/
theorem narrowMember_perm (outer : List Evidence) (name : String) (h : es.Perm es') (e : Element) :
    narrowMember outer name es e = narrowMember outer name es' e := by
  have hothers := mem_impliedIn_perm (name == "not") (h.erase e)
  have hinner : ∀ x, x ∈ outer ++ impliedIn (name == "not") es ↔
      x ∈ outer ++ impliedIn (name == "not") es' := by simp [mem_impliedIn_perm (name == "not") h]
  unfold narrowMember
  rw [narrowBelow_congr hinner]
  exact narrow_congr (by simp [hothers]) _

/-- A tree that has been narrowed once is not narrowed again. -/
theorem narrowBelow_narrowBelow (outer : List Evidence) (e : Element) :
    narrowBelow outer (narrowBelow outer e) = narrowBelow outer e := by
  induction e using induction_children generalizing outer with
  | step e ih =>
      by_cases hlist : e.isClauseList = true
      · rw [narrowBelow_of_list outer hlist, narrowBelow_of_list outer (e := { e with children := _ }) hlist,
          map_narrowMember fun c _ => implied_narrowMember outer e.name e.children c]
        congr 1
        refine List.map_congr_left fun c hc => ?_
        rw [narrowMember, ← (descends_narrowBelow _).narrow, ih c hc, narrow_narrow]
      · rw [Bool.not_eq_true] at hlist
        rw [narrowBelow_of_not_list outer hlist,
          narrowBelow_of_not_list outer (e := { e with children := _ }) hlist, List.map_map]
        congr 1
        exact List.map_congr_left fun c hc => ih c hc outer

theorem narrowBelow_annotate (outer : List Evidence) (e : Element) (pass : String) :
    narrowBelow outer (e.annotate pass) = (narrowBelow outer e).annotate pass := by
  by_cases hlist : e.isClauseList = true
  · have hmarked : (e.annotate pass).isClauseList = true := by rwa [isClauseList, name_annotate]
    rw [narrowBelow_of_list outer hlist, narrowBelow_of_list outer hmarked, annotate_children,
      name_annotate, children_annotate]
  · rw [Bool.not_eq_true] at hlist
    have hmarked : (e.annotate pass).isClauseList = false := by rwa [isClauseList, name_annotate]
    rw [narrowBelow_of_not_list outer hlist, narrowBelow_of_not_list outer hmarked,
      annotate_children, children_annotate]

end TopicQuery.NarrowHints
