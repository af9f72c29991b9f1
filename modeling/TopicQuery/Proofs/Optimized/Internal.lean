import Mathlib.Data.Set.List
import TopicQuery.Pass.InternalPredicates
import TopicQuery.Proofs.Optimized.Layers

/-!
Internal predicates in the place of built-in ones. What is left out is a variable
that nothing else mentions, so none of the variables that are to be kept.
-/

namespace TopicQuery

open Element

/-! ## Elements in the order of their tree -/

namespace Element

mutual

/-- Every element of a tree, each in front of what lies in it. -/
def preorder : Element → List Element
  | ⟨name, attributes, text, children⟩ => ⟨name, attributes, text, children⟩ :: preorderAll children

/-- Every element of some trees. -/
def preorderAll : List Element → List Element
  | [] => []
  | e :: es => preorder e ++ preorderAll es

end

theorem preorder_eq (e : Element) : e.preorder = e :: preorderAll e.children := by
  obtain ⟨name, attributes, text, children⟩ := e
  rw [preorder]

theorem preorderAll_eq_flatMap (es : List Element) : preorderAll es = es.flatMap preorder := by
  induction es with
  | nil => rfl
  | cons e es ih => rw [preorderAll, ih, List.flatMap_cons]

/-- A visit level by level comes to every element once. -/
theorem visit_perm (waiting : List Element) : (visit waiting).Perm (preorderAll waiting) := by
  induction waiting using visit.induct with
  | case1 => simp [visit, preorderAll]
  | case2 e waiting ih =>
      rw [visit, preorderAll, preorder_eq]
      refine List.Perm.cons e (ih.trans ?_)
      rw [preorderAll_eq_flatMap, List.flatMap_append, ← preorderAll_eq_flatMap,
        ← preorderAll_eq_flatMap]
      exact List.perm_append_comm

theorem descendants_perm (e : Element) : e.descendants.Perm e.preorder := by
  have h := visit_perm [e]
  rwa [preorderAll, preorderAll, List.append_nil] at h

end Element

namespace InternalPredicates

variable {f : Factory} {read : Leaf → Except Failure Operand} {one : Clause → Clause → Prop}
  {e c : Element} {keep counted : List String}

/-! ## Mentioned variables -/

/-- What is mentioned in a tree is mentioned by its root or in a child. -/
theorem mentions_perm (e : Element) :
    (mentions e).Perm (mentioned e ++ e.children.flatMap mentions) := by
  refine ((descendants_perm e).flatMap_right _).trans ?_
  rw [preorder_eq, List.flatMap_cons, preorderAll_eq_flatMap, List.flatMap_assoc]
  exact (List.Perm.flatMap_left _ fun c _ => ((descendants_perm c).flatMap_right _).symm).append_left _

theorem mem_mentions_of_child (hc : c ∈ e.children) {v : String} (hv : v ∈ mentions c) :
    v ∈ mentions e :=
  (mentions_perm e).mem_iff.mpr (by simpa using .inr ⟨c, hc, hv⟩)

theorem mem_mentions_of_mentioned {v : String} (hv : v ∈ mentioned e) : v ∈ mentions e :=
  (mentions_perm e).mem_iff.mpr (List.mem_append_left _ hv)

/-- A variable that two children mention is mentioned more than once. -/
theorem count_mentions_ne_one {a b : Element} (ha : a ∈ e.children) (hb : b ∈ e.children)
    (hab : a ≠ b) {v : String} (hva : v ∈ mentions a) (hvb : v ∈ mentions b) :
    (mentions e).count v ≠ 1 := by
  obtain ⟨front, behind, hsplit⟩ := List.append_of_mem ha
  have hother : b ∈ front ++ behind := by
    rw [hsplit] at hb
    simp only [List.mem_append, List.mem_cons] at hb ⊢
    obtain hb | rfl | hb := hb
    · exact .inl hb
    · exact absurd rfl hab
    · exact .inr hb
  have hfirst : 0 < (mentions a).count v := List.count_pos_iff.mpr hva
  have hsecond : 0 < ((front ++ behind).flatMap mentions).count v :=
    List.count_pos_iff.mpr (List.mem_flatMap.mpr ⟨b, hother, hvb⟩)
  rw [(mentions_perm e).count_eq, hsplit]
  simp only [List.flatMap_append, List.flatMap_cons, List.count_append] at hsecond ⊢
  omega

/-! ## Arguments -/

theorem eq_var_of_variableName? {item : Leaf} (h : item.IsTerm) {v : String}
    (hv : item.element.variableName? = some v) : item = .atom .var v := by
  cases item with
  | atom kind value =>
      cases kind
      case var => exact congrArg (Leaf.atom .var) (Option.some.inj hv)
      all_goals exact absurd hv (by simp [variableName?, Leaf.element, Leaf.name, AtomKind.name])
  | curie kind name => exact absurd hv (by simp [variableName?, Leaf.element, Leaf.name])
  | qname kind name => exact absurd hv (by simp [variableName?, Leaf.element, Leaf.name])
  | literal value datatype => exact absurd hv (by simp [variableName?, Leaf.element, Leaf.name])
  | _ => exact absurd h id

/-- Elements of terms mean terms. -/
theorem terms_of_children (hread : Reads read) {es : List Element} (hterms : ∀ c ∈ es, c.IsTerm)
    {os : List Operand} (hos : es.mapM (meaning f read) = .ok os) : ∀ o ∈ os, ∃ t, o = .term t := by
  intro o ho
  obtain ⟨c, hc, hco⟩ := exists_of_mem_forall₂ (mapM_eq_ok_iff.mp hos).flip ho
  obtain ⟨item, hitem, rfl, -⟩ := hterms c hc
  rw [hitem.meaning_element] at hco
  exact hread.term item hitem o hco

theorem withoutArgument_eq {es : List Element} (h : ∀ e ∈ es, e.name ≠ "name") (n : Nat) :
    withoutArgument n es = es.eraseIdx n := by
  induction es generalizing n with
  | nil => rfl
  | cons e es ih =>
      have hrest := ih fun e' he' => h e' (by simp [he'])
      have hname : (e.name == "name") = false := by simp [h e (by simp)]
      cases n with
      | zero => simp [withoutArgument, hname]
      | succ n => simp [withoutArgument, hname, hrest]

theorem terms_map (ts : List Term) : Operands.terms (ts.map .term) =
    if ts.any Operands.isModule then .error (.builder .moduleArgument) else .ok ts := by
  have hterms : (ts.map Operand.term).filterMap Operand.term? = ts := by
    rw [List.filterMap_map]
    exact List.filterMap_some
  rw [Operands.terms, hterms]

theorem any_eraseIdx {α : Type} {p : α → Bool} {xs : List α} {n : Nat} {x : α}
    (hx : xs[n]? = some x) (hp : p x = false) : (xs.eraseIdx n).any p = xs.any p := by
  induction xs generalizing n with
  | nil => rfl
  | cons y xs ih =>
      cases n with
      | zero =>
          obtain rfl : y = x := by simpa using hx
          simp [hp]
      | succ n => simp [ih (by simpa using hx)]

theorem exists_terms {os : List Operand} (hterms : ∀ o ∈ os, ∃ t, o = .term t) :
    ∃ ts : List Term, ts.map Operand.term = os := by
  have hrange : os ∈ Set.range (List.map Operand.term) := by
    rw [Set.range_list_map]
    exact fun o ho => (hterms o ho).imp fun t ht => ht.symm
  exact hrange

/-- Terms of which a variable is left out are arguments without that variable. -/
theorem terms_eraseIdx {os : List Operand} (hterms : ∀ o ∈ os, ∃ t, o = .term t) {n : Nat}
    {v : String} (hv : os[n]? = some (.term (.var v))) :
    Operands.terms (os.eraseIdx n) = (Operands.terms os >>= fun ts => .ok (ts.eraseIdx n)) := by
  obtain ⟨ts, rfl⟩ := exists_terms hterms
  obtain ⟨t, ht, htv⟩ := Option.map_eq_some_iff.mp (List.getElem?_map .. ▸ hv)
  obtain rfl : t = .var v := Operand.term.inj htv
  rw [List.eraseIdx_map, terms_map, terms_map, any_eraseIdx ht rfl]
  split <;> rfl

theorem getElem?_of_terms {os : List Operand} (hterms : ∀ o ∈ os, ∃ t, o = .term t) {ts : List Term}
    (h : Operands.terms os = .ok ts) {n : Nat} {t : Term} (ht : os[n]? = some (.term t)) :
    ts[n]? = some t := by
  obtain ⟨us, rfl⟩ := exists_terms hterms
  rw [terms_map] at h
  split at h
  · cases h
  · obtain rfl := Except.ok.inj h
    obtain ⟨u, hu, hut⟩ := Option.map_eq_some_iff.mp (List.getElem?_map .. ▸ ht)
    exact Operand.term.inj hut ▸ hu

/-! ## Replaced clauses -/

theorem find?_of_findFor? {builtin : String} {n : Nat} {internal : Internal}
    (h : Internal.findFor? builtin n = some internal) :
    Internal.find? internal.name = some internal ∧ internal.builtin = builtin ∧
      internal.removedAt = n := by
  have hnames : ∀ i ∈ Internal.table, Internal.find? i.name = some i := by decide
  have hfound := List.find?_some h
  simp only [Bool.and_eq_true, beq_iff_eq] at hfound
  exact ⟨hnames _ (List.mem_of_find?_eq_some h), hfound⟩

/-- An internal predicate is made of a built-in one whose argument need not be kept. -/
def Replaces (f : Factory) (one : Clause → Clause → Prop) (keep : List String) : Prop :=
  ∀ {builtin : String} {n : Nat} {internal : Internal}, Internal.findFor? builtin n = some internal →
    ∀ v ∉ keep, ∀ hints (arguments : List Term), arguments[n]? = some (.var v) →
      ∃ clause, f.internal internal.name hints [v] (arguments.eraseIdx n) = .ok clause ∧
        Reduces one [.builtin builtin hints arguments] [clause]

/-- The clause for an internal predicate, before it is marked. -/
def internalClause (clause : Element) (internal : Internal) (removed : String) : Element :=
  ⟨"internal-predicate",
    ("name", internal.name) :: ((clause.attr? "hints").map fun hints => ("hints", hints)).toList ++
      [("removed-variables", removed)], none, withoutArgument internal.removedAt clause.children⟩

theorem meaning_internalClause {clause : Element} {internal : Internal} {removed : String}
    {hints : List Hint} (hhints : clause.hints = .ok hints) (hword : Text.wordsOf removed = [removed]) :
    (internalClause clause internal removed).meaning f read =
      ((internalClause clause internal removed).children.mapM (meaning f read) >>= fun os =>
        Operands.terms os >>= fun ts =>
          f.internal internal.name hints [removed] ts >>= fun c => .ok (.clause c)) := by
  have hattributes : (internalClause clause internal removed).attr? "hints" = clause.attr? "hints" ∧
      (internalClause clause internal removed).attr? "removed-variables" = some removed := by
    unfold internalClause
    cases clause.attr? "hints" <;> exact ⟨rfl, rfl⟩
  have hinner : (internalClause clause internal removed).hints = .ok hints := by
    rw [← hhints, Element.hints, Element.hints, hattributes.1]
  rw [meaning_of_tag .internal rfl, Element.container, hinner, hattributes.2,
    Option.getD_some, hword]
  rfl

/-- Where kinds cannot be read, neither clause means anything. -/
theorem meaning_badHints {clause : Element} {internal : Internal} {removed : String}
    (hname : clause.name = "builtin-predicate") {fault : TreeFault}
    (hhints : clause.hints = .error fault) :
    (∃ failure, clause.meaning f read = .error failure) ∧
      ∃ failure, (internalClause clause internal removed).meaning f read = .error failure := by
  have hinner : (internalClause clause internal removed).hints = .error fault := by
    rw [← hhints]
    unfold internalClause Element.hints
    cases clause.attr? "hints" <;> rfl
  constructor
  · rw [meaning_of_tag .builtin (by simp only [hname]; rfl), Element.container, hhints]
    cases clause.required "name" <;> exact ⟨_, rfl⟩
  · rw [meaning_of_tag .internal rfl, Element.container, hinner]
    exact ⟨_, rfl⟩

theorem arguments_eq {es : List Element} (h : ∀ c ∈ es, c.name ≠ "name") :
    es.filter (·.name != "name") = es :=
  List.filter_eq_self.mpr fun c hc => by simpa using h c hc

theorem replacement_improves (hf : f.IsUsual) (hread : Reads read)
    (hreplaces : Replaces f one keep) (he : e.Flat) (hname : e.name = "builtin-predicate")
    {builtin : String} (hbuiltin : e.attr? "name" = some builtin) {n : Nat} {v : String}
    (hv : e.arguments[n]?.bind variableName? = some v) (hkeep : v ∉ keep) {internal : Internal}
    (hinternal : Internal.findFor? builtin n = some internal) :
    Improves f read one e (replacement e internal v) := by
  have hterms := he.terms hname
  have hnames : ∀ c ∈ e.children, c.name ≠ "name" := by
    intro c hc
    obtain ⟨item, hitem, rfl, -⟩ := hterms c hc
    exact hitem.name_ne
  rw [Element.arguments, arguments_eq hnames] at hv
  obtain ⟨c, hc, hcv⟩ := Option.bind_eq_some_iff.mp hv
  obtain ⟨item, hitem, rfl, hword⟩ := hterms c (List.mem_of_getElem? hc)
  obtain rfl := eq_var_of_variableName? hitem hcv
  have hmeaning : (Leaf.atom .var v).element.meaning f read = .ok (.term (.var v)) := by
    rw [hitem.meaning_element, hread.var]
  obtain ⟨-, -, hremoved⟩ := find?_of_findFor? hinternal
  have hclause : Improves f read one e (internalClause e internal v) := by
    refine ⟨.flat ⟨by simp [internalClause], by simp [internalClause], rfl, fun h => ?_, ?_⟩, ?_⟩
    · simp [internalClause] at h
    · intro c hc
      rw [internalClause, withoutArgument_eq hnames] at hc
      exact he.members c (List.mem_of_mem_eraseIdx hc)
    · cases hhints : e.hints with
      | error fault =>
          obtain ⟨⟨_, hbefore⟩, ⟨_, hafter⟩⟩ := @meaning_badHints f read e internal v hname fault hhints
          rw [hbefore, hafter]
          trivial
      | ok hints =>
          have hchildren : (internalClause e internal v).children = e.children.eraseIdx n := by
            rw [internalClause, withoutArgument_eq hnames, hremoved]
          rw [meaning_builtin hf hname hhints, meaning_internalClause hhints (hword v rfl), hchildren,
            Element.required, hbuiltin, Except.orFailure, ok_bind]
          refine (Agree.mapM_eraseIdx hc hmeaning).bind_of_ok fun os _ hos hremains => ?_
          obtain ⟨hvar, rfl⟩ := hremains
          have hoperands := terms_of_children hread hterms hos
          rw [terms_eraseIdx hoperands hvar]
          cases hts : Operands.terms os with
          | error failure => trivial
          | ok ts =>
              have hargument := getElem?_of_terms hoperands hts hvar
              obtain ⟨clause, hmade, hreduces⟩ := hreplaces hinternal v hkeep hints ts hargument
              rw [ok_bind, ok_bind, ok_bind, hmade, ok_bind]
              exact .clause hreduces
  exact hclause.annotate name

theorem replace_of_ne (counted : List String) (h : e.name ≠ "builtin-predicate") :
    replace counted e = e := by
  simp [replace, h]

/-- A clause stays as it is, or an internal predicate takes its place without a lone argument. -/
theorem replace_eq (counted : List String) (e : Element) :
    replace counted e = e ∨ e.name = "builtin-predicate" ∧ ∃ builtin n v internal,
      e.attr? "name" = some builtin ∧ e.arguments[n]?.bind variableName? = some v ∧
      counted.count v = 1 ∧ Internal.findFor? builtin n = some internal ∧
      replace counted e = replacement e internal v := by
  unfold replace
  split
  · next hbuiltin =>
    have hname : e.name = "builtin-predicate" := by
      simp only [Bool.and_eq_true, beq_iff_eq] at hbuiltin
      exact hbuiltin.1
    split
    · next builtin n v hattr hlone =>
      split
      · next internal hinternal =>
        obtain ⟨n', -, hn'⟩ := List.exists_of_findSome?_eq_some hlone
        obtain ⟨v', hv', hpair⟩ := Option.map_eq_some_iff.mp hn'
        obtain ⟨rfl, rfl⟩ : n' = n ∧ v' = v := by simpa using hpair
        obtain ⟨hargument, hcount⟩ := Option.filter_eq_some_iff.mp hv'
        exact .inr ⟨hname, builtin, n', v', internal, hattr, hargument, by simpa using hcount,
          hinternal, rfl⟩
      · exact .inl rfl
    · exact .inl rfl
  · exact .inl rfl

/-- A member of a list may be replaced if no variable that is to be kept is mentioned only there. -/
theorem replace_improves (hf : f.IsUsual) (hread : Reads read) (hreplaces : Replaces f one keep)
    (h : e.Layered) (hcounted : ∀ v ∈ keep, v ∈ mentions e → counted.count v ≠ 1) :
    Improves f read one e (replace counted e) := by
  obtain hsame | ⟨hname, builtin, n, v, internal, hattr, hargument, hcount, hinternal, hreplace⟩ :=
    replace_eq counted e
  · rw [hsame]
    exact .refl h
  · rw [hreplace]
    have hflat := h.flat_of_name hname
    have hkeep : v ∉ keep := fun hmem => by
      refine hcounted v hmem ?_ hcount
      obtain ⟨c, hc, hcv⟩ := Option.bind_eq_some_iff.mp hargument
      have hmem : c ∈ e.children := (List.mem_filter.mp (List.mem_of_getElem? hc)).1
      obtain ⟨item, hitem, rfl, -⟩ := hflat.terms hname c hmem
      obtain rfl := eq_var_of_variableName? hitem hcv
      exact mem_mentions_of_child hmem (mem_mentions_of_mentioned (List.mem_singleton.mpr rfl))
    exact replacement_improves hf hread hreplaces hflat hname hattr hargument hkeep hinternal

/-! ## Every clause of a rule or statement -/

theorem replaceIn_eq_map (isList : Bool) (es : List Element) :
    replaceIn counted isList es =
      es.map fun e => if isList then replace counted (replaceBelow counted e)
        else replaceBelow counted e := by
  induction es with
  | nil => rfl
  | cons e es ih => rw [replaceIn, ih, List.map_cons]

theorem replaceBelow_of_not_list (h : e.isClauseList = false) :
    replaceBelow counted e = { e with children := e.children.map (replaceBelow counted) } := by
  obtain ⟨name, attributes, text, children⟩ := e
  rw [replaceBelow, h, replaceIn_eq_map]
  simp

theorem name_replaceBelow (e : Element) : (replaceBelow counted e).name = e.name := by
  obtain ⟨name, attributes, text, children⟩ := e
  rw [replaceBelow]

theorem replaceBelow_improves (hf : f.IsUsual) (hread : Reads read)
    (hreplaces : Replaces f one keep) (h : e.Layered)
    (hcounted : ∀ v ∈ keep, v ∈ mentions e → counted.count v ≠ 1) :
    Improves f read one e (replaceBelow counted e) := by
  induction h with
  | flat h =>
      rw [h.unchanged replaceBelow_of_not_list]
      exact .refl (.flat h)
  | @list e hlist hlayered ih =>
      have hbelow : ∀ c ∈ e.children, ∀ v ∈ keep, v ∈ mentions c → counted.count v ≠ 1 :=
        fun c hc v hkeep hv => hcounted v hkeep (mem_mentions_of_child hc hv)
      have hmembers : ∀ c ∈ e.children,
          Improves f read one c (replace counted (replaceBelow counted c)) := by
        intro c hc
        by_cases hname : c.name = "builtin-predicate"
        · rw [((hlayered c hc).flat_of_name hname).unchanged replaceBelow_of_not_list]
          exact replace_improves hf hread hreplaces (hlayered c hc) (hbelow c hc)
        · rw [replace_of_ne counted ((name_replaceBelow c).trans_ne hname)]
          exact ih c hc (hbelow c hc)
      obtain ⟨name, attributes, text, children⟩ := e
      rw [replaceBelow]
      rw [replaceIn_eq_map]
      refine .of_children hf hlist (List.forall₂_map_right_iff.mpr (List.forall₂_same.mpr fun c hc => ?_))
      split
      · exact hmembers c hc
      · exact ih c hc (hbelow c hc)

end InternalPredicates

end TopicQuery
