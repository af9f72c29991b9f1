import TopicQuery.Proofs.Optimized
import TopicQuery.Proofs.Passes.Place
import TopicQuery.Proofs.Reported

/-!
The clauses that internal predicates take the place of: those of two arguments one of which
is a variable that the rule or statement mentions nowhere else. All of a tree but these
clauses stays, and what has been left out of them is mentioned no more.
-/

namespace TopicQuery

namespace Element

/-- The element by itself: without its children, but with their number. -/
def node (e : Element) : Element × Nat := ({ e with children := [] }, e.children.length)

/-- A built-in predicate holds terms. -/
def HoldsTerms (e : Element) : Prop := e.name = "builtin-predicate" → ∀ c ∈ e.children, c.IsTerm

theorem IsTerm.childless {e : Element} (h : e.IsTerm) : e.children = [] := by
  obtain ⟨item, -, rfl, -⟩ := h
  rfl

theorem IsTerm.name_mem {e : Element} (h : e.IsTerm) : e.name ∈ argumentNames := by
  obtain ⟨item, hitem, rfl, -⟩ := h
  exact hitem.name_mem

theorem IsTerm.not_list {e : Element} (h : e.IsTerm) : e.isClauseList = false := by
  have hnames : ∀ name ∈ argumentNames, ["where", "body", "branch", "not"].contains name = false := by
    decide
  exact hnames _ h.name_mem

theorem Flat.every_holdsTerms {e : Element} (h : e.Flat) : e.Every HoldsTerms := by
  induction h with
  | intro _ _ _ hterms _ ih => exact .mk hterms ih

theorem Layered.every_holdsTerms {e : Element} (h : e.Layered) : e.Every HoldsTerms := by
  induction h with
  | flat h => exact h.every_holdsTerms
  | @list e hlist _ ih =>
      refine .mk (fun hname => ?_) ih
      simp [isClauseList, hname] at hlist

/-- Everywhere in the tree of a text built-in predicates hold terms. -/
theorem Settled.every_holdsTerms {tree : Element} (h : tree.Settled) : tree.Every HoldsTerms := by
  refine .mk (fun hname => absurd (h.name.symm.trans hname) (by decide)) fun c hc => ?_
  obtain hheader | hscoped := h.children c hc
  · refine .mk (fun _ => ?_) ?_ <;> simp [hheader.2]
  · refine .mk (fun hname => ?_) fun d hd => ?_
    · have hnames : ∀ name ∈ "rule" :: statementTags.map Tag.name, name ≠ "builtin-predicate" := by
        decide
      exact absurd hname (hnames _ (List.mem_cons.mpr hscoped.name))
    · exact (hscoped.children d hd).elim Flat.every_holdsTerms fun h => h.2.every_holdsTerms

end Element

namespace InternalPredicates

open Element

variable {scope e l c clause : Element} {list place : List Nat} {n i : Nat} {v builtin : String}
  {counted : List String}

/-! ## The clauses to be replaced -/

/-- The clause is a member of the list of clauses at a place. -/
structure Member (scope : Element) (list : List Nat) (n : Nat) (l clause : Element) : Prop where
  list : scope.at? list = some l
  isList : l.isClauseList = true
  clause : l.children[n]? = some clause

/-- The element mentions a variable: as one, as a count, as an order key or in topic map content. -/
def Mentions (e : Element) (v : String) : Prop :=
  e.name ∈ ["variable", "count", "ascending", "descending"] ∧ e.attr? "value" = some v ∨
    e.name = "content" ∧ v ∈ Fragment.mentioned (e.text.getD "")

/-- An argument of the clause at a place is a variable that nothing else in the scope mentions. -/
def Lone (scope : Element) (place : List Nat) (i : Nat) (v : String) : Prop :=
  ∃ argument, scope.at? (place ++ [i]) = some argument ∧ argument.variableName? = some v ∧
    ∀ other e, scope.at? other = some e → Mentions e v → other = place ++ [i]

/--
The clause at a place is one for types or instances in a list of clauses, with two arguments;
that at position `i` is the first that is a variable mentioned nowhere else, namely `v`.
-/
structure Replaced (scope : Element) (place : List Nat) (clause : Element) (builtin : String)
    (i : Nat) (v : String) : Prop where
  member : ∃ list n l, place = list ++ [n] ∧ Member scope list n l clause
  name : clause.name = "builtin-predicate"
  calls : clause.attr? "name" = some builtin
  typing : builtin = "instance-of" ∨ builtin = "direct-instance-of"
  arguments : clause.children.length = 2
  lone : Lone scope place i v
  first : ∀ j < i, ∀ w, ¬Lone scope place j w

/-- The clause at a place is to be replaced. -/
def IsReplaced (scope : Element) (place : List Nat) : Prop :=
  ∃ clause builtin i v, Replaced scope place clause builtin i v

/-- The internal predicate in the place of a clause, without an argument but with its variable. -/
def internalFor (clause : Element) (internal : Internal) (i : Nat) (v : String) : Element :=
  ⟨"internal-predicate", ("name", internal.name) ::
      ((clause.attr? "hints").map fun hints => ("hints", hints)).toList ++
    [("removed-variables", v), ("optimized-by", "internal-predicates")], none, clause.children.eraseIdx i⟩

theorem internalFor_removed (clause : Element) (internal : Internal) (i : Nat) (v : String) :
    (internalFor clause internal i v).attr? "removed-variables" = some v := by
  unfold internalFor
  cases clause.attr? "hints" <;> rfl

/-- A rule or statement behind the pass, beside what it was. -/
structure Rewritten (scope after : Element) : Prop where
  replaced : ∀ {place clause builtin i v}, Replaced scope place clause builtin i v →
    ∃ internal, Internal.findFor? builtin i = some internal ∧
      after.at? place = some (internalFor clause internal i v)
  unchanged : ∀ {place}, (∀ front, front <+: place → ¬IsReplaced scope front) →
    (after.at? place).map node = (scope.at? place).map node
  unmentioned : ∀ {place e v}, after.at? place = some e → e.name = "internal-predicate" →
    e.attr? "removed-variables" = some v → ∀ other d, after.at? other = some d → ¬Mentions d v

theorem mem_mentioned_iff : v ∈ mentioned e ↔ Mentions e v := by
  unfold mentioned Mentions
  by_cases hvariable : e.name ∈ ["variable", "count", "ascending", "descending"]
  · have hcontent : e.name ≠ "content" := by
      rintro h
      simp [h] at hvariable
    simp [hvariable, hcontent]
  · by_cases hcontent : e.name = "content" <;> simp [hvariable, hcontent]

/-! ## A single clause -/

theorem lone?_eq_some_iff : lone? counted clause i = some v ↔
    clause.arguments[i]?.bind variableName? = some v ∧ counted.count v = 1 := by
  rw [lone?, Option.filter_eq_some_iff, beq_iff_eq]

theorem loneArgument?_eq_some (h : loneArgument? counted clause = some (i, v)) :
    lone? counted clause i = some v ∧ ∀ j < i, lone? counted clause j = none := by
  rw [loneArgument?] at h
  cases hfirst : lone? counted clause 0 with
  | some w =>
      obtain ⟨rfl, rfl⟩ : 0 = i ∧ w = v := by simpa [hfirst] using h
      exact ⟨hfirst, by simp⟩
  | none =>
      cases hsecond : lone? counted clause 1 with
      | some w =>
          obtain ⟨rfl, rfl⟩ : 1 = i ∧ w = v := by simpa [hfirst, hsecond] using h
          exact ⟨hsecond, by simpa using hfirst⟩
      | none => simp [hfirst, hsecond] at h

theorem loneArgument?_of_first (hi : i < 2) (h : lone? counted clause i = some v)
    (hfirst : ∀ j < i, lone? counted clause j = none) :
    loneArgument? counted clause = some (i, v) := by
  rw [loneArgument?]
  obtain rfl | rfl : i = 0 ∨ i = 1 := by omega
  · simp [h]
  · simp [h, hfirst 0]

/-- What a clause is replaced by, if it is. -/
theorem replacement_eq (hnames : ∀ c ∈ clause.children, c.name ≠ "name") {internal : Internal}
    (hinternal : Internal.findFor? builtin i = some internal) :
    replacement clause internal v = internalFor clause internal i v := by
  have hunmarked : (internalClause clause internal v).attr? optimizedByName = none := by
    unfold internalClause
    cases clause.attr? "hints" <;> rfl
  have hclause : replacement clause internal v = (internalClause clause internal v).annotate name :=
    rfl
  rw [hclause, annotate, hunmarked, internalClause, withoutArgument_eq hnames,
    (find?_of_findFor? hinternal).2.2]
  unfold internalFor
  cases clause.attr? "hints" <;> rfl

theorem exists_findFor? (htyping : builtin = "instance-of" ∨ builtin = "direct-instance-of")
    (hi : i < 2) : ∃ internal, Internal.findFor? builtin i = some internal := by
  obtain rfl | rfl : i = 0 ∨ i = 1 := by omega
  all_goals obtain rfl | rfl := htyping
  all_goals exact ⟨_, rfl⟩

theorem typing_of_findFor? {internal : Internal} (h : Internal.findFor? builtin i = some internal) :
    builtin = "instance-of" ∨ builtin = "direct-instance-of" := by
  have htable : ∀ internal ∈ Internal.table,
      internal.builtin = "instance-of" ∨ internal.builtin = "direct-instance-of" := by decide
  have hmem := htable internal (List.mem_of_find?_eq_some h)
  rwa [(find?_of_findFor? h).2.1] at hmem

/-! ## Clauses that mention a variable alone -/

theorem Member.at? (h : Member scope list n l clause) : scope.at? (list ++ [n]) = some clause :=
  (at?_concat h.list).trans h.clause

theorem Member.terms (h : Member scope list n l clause) (hterms : scope.Every HoldsTerms)
    (hname : clause.name = "builtin-predicate") : ∀ c ∈ clause.children, c.IsTerm :=
  (every_iff.mp (hterms.at? h.at?)).1 hname

theorem name_ne_of_terms (h : ∀ c ∈ clause.children, c.IsTerm) :
    ∀ c ∈ clause.children, c.name ≠ "name" := by
  intro c hc
  obtain ⟨item, hitem, rfl, -⟩ := h c hc
  exact hitem.name_ne

/-- Only a variable mentioned nowhere else is counted once. -/
theorem lone?_eq_some_iff_lone (hclause : scope.at? place = some clause)
    (hterms : ∀ c ∈ clause.children, c.IsTerm) :
    lone? (mentions scope) clause i = some v ↔ Lone scope place i v := by
  have harguments : clause.arguments = clause.children := arguments_eq (name_ne_of_terms hterms)
  rw [lone?_eq_some_iff, harguments, ← at?_concat hclause, Option.bind_eq_some_iff, Lone]
  simp only [← mem_mentioned_iff]
  constructor
  · rintro ⟨⟨argument, hargument, hv⟩, hcount⟩
    have hmentioned : v ∈ mentioned argument := by simp [mentioned_of_variableName? hv]
    exact ⟨argument, hargument, hv, (count_mentions_eq_one_iff hargument hmentioned).mp hcount⟩
  · rintro ⟨argument, hargument, hv, hother⟩
    have hmentioned : v ∈ mentioned argument := by simp [mentioned_of_variableName? hv]
    exact ⟨⟨argument, hargument, hv⟩, (count_mentions_eq_one_iff hargument hmentioned).mpr hother⟩

theorem Lone.lt (h : Lone scope place i v) (hclause : scope.at? place = some clause) :
    i < clause.children.length := by
  obtain ⟨argument, hargument, -⟩ := h
  rw [at?_concat hclause] at hargument
  exact (List.getElem?_eq_some_iff.mp hargument).1

theorem Replaced.at? (h : Replaced scope place clause builtin i v) :
    scope.at? place = some clause := by
  obtain ⟨list, n, l, rfl, hmember⟩ := h.member
  exact hmember.at?

/-- At a place there is one clause, one position and one variable. -/
theorem Replaced.unique {clause' : Element} {builtin' : String} {i' : Nat} {v' : String}
    (h : Replaced scope place clause builtin i v) (h' : Replaced scope place clause' builtin' i' v') :
    i = i' ∧ v = v' := by
  obtain rfl : i = i' := by
    obtain hlt | heq | hgt := Nat.lt_trichotomy i i'
    · exact absurd h.lone (h'.first i hlt v)
    · exact heq
    · exact absurd h'.lone (h.first i' hgt v')
  obtain ⟨argument, hargument, hv, -⟩ := h.lone
  obtain ⟨argument', hargument', hv', -⟩ := h'.lone
  obtain rfl := Option.some.inj (hargument.symm.trans hargument')
  exact ⟨rfl, Option.some.inj (hv.symm.trans hv')⟩

/-- A clause for types or instances with a variable that is counted once is to be replaced. -/
theorem Member.replaced (hterms : scope.Every HoldsTerms) (h : Member scope list n l clause)
    (hname : clause.name = "builtin-predicate") (hcalls : clause.attr? "name" = some builtin)
    (htyping : builtin = "instance-of" ∨ builtin = "direct-instance-of")
    (harguments : clause.children.length = 2) (hfound : lone? (mentions scope) clause i = some v)
    (hfirst : ∀ j < i, lone? (mentions scope) clause j = none) :
    Replaced scope (list ++ [n]) clause builtin i v := by
  have hlone := fun {j w} =>
    lone?_eq_some_iff_lone (i := j) (v := w) h.at? (h.terms hterms hname)
  refine ⟨⟨list, n, l, rfl, h⟩, hname, hcalls, htyping, harguments, hlone.mp hfound, fun j hj w hw => ?_⟩
  exact absurd ((hlone.mpr hw).symm.trans (hfirst j hj)) (Option.some_ne_none w)

/-- The clauses to be replaced are replaced by internal predicates. -/
theorem replace_of_replaced (hterms : scope.Every HoldsTerms)
    (h : Replaced scope place clause builtin i v) :
    ∃ internal, Internal.findFor? builtin i = some internal ∧
      replace (mentions scope) clause = internalFor clause internal i v := by
  have hclause := h.at?
  have hchildren : ∀ c ∈ clause.children, c.IsTerm := (every_iff.mp (hterms.at? hclause)).1 h.name
  have hnames := name_ne_of_terms hchildren
  have hlone := fun {j w} => lone?_eq_some_iff_lone (i := j) (v := w) hclause hchildren
  have hi : i < 2 := h.arguments ▸ h.lone.lt hclause
  have hargument : loneArgument? (mentions scope) clause = some (i, v) := by
    refine loneArgument?_of_first hi (hlone.mpr h.lone) fun j hj => ?_
    exact Option.eq_none_iff_forall_ne_some.mpr fun w hw => h.first j hj w (hlone.mp hw)
  obtain ⟨internal, hinternal⟩ := exists_findFor? h.typing hi
  refine ⟨internal, hinternal, ?_⟩
  have harguments : clause.arguments.length = 2 := by
    rw [Element.arguments, arguments_eq hnames, h.arguments]
  rw [← replacement_eq hnames hinternal, replace, h.name, harguments, h.calls, hargument]
  simp [hinternal]

/-- No other clauses are. -/
theorem replace_of_not_replaced (hterms : scope.Every HoldsTerms) (h : Member scope list n l clause)
    (hnot : ¬IsReplaced scope (list ++ [n])) : replace (mentions scope) clause = clause := by
  by_cases hname : clause.name = "builtin-predicate"
  · rw [replace, Element.arguments, arguments_eq (name_ne_of_terms (h.terms hterms hname))]
    split
    · next harguments =>
      simp only [hname, beq_self_eq_true, Bool.true_and, beq_iff_eq] at harguments
      split
      · next builtin i v hcalls hargument =>
        obtain ⟨hfound, hfirst⟩ := loneArgument?_eq_some hargument
        split
        · next internal hinternal =>
          exact absurd ⟨clause, builtin, i, v, h.replaced hterms hname hcalls
            (typing_of_findFor? hinternal) harguments hfound hfirst⟩ hnot
        · rfl
      · rfl
    · rfl
  · exact replace_of_ne _ hname

/-! ## Replacing at a place -/

/-- No list lies in a built-in predicate. -/
theorem not_list_of_at? (hterms : ∀ c ∈ clause.children, c.IsTerm)
    (hname : clause.name = "builtin-predicate") (h : clause.at? place = some l) :
    l.isClauseList = false := by
  cases place with
  | nil => exact Option.some.inj h ▸ not_list_of_builtin hname
  | cons n place =>
      obtain ⟨c, hc, hcl⟩ := exists_child_of_at? h
      have hterm := hterms c (List.mem_of_getElem? hc)
      obtain rfl := at?_of_childless hterm.childless hcl
      exact Option.some.inj hcl ▸ hterm.not_list

theorem replaceBelow_of_terms (hterms : ∀ c ∈ clause.children, c.IsTerm)
    (hname : clause.name = "builtin-predicate") : replaceBelow counted clause = clause := by
  rw [replaceBelow_of_not_list (not_list_of_builtin hname)]
  refine map_children_eq fun c hc => ?_
  have hchild : replaceBelow counted c = _ := replaceBelow_of_not_list (hterms c hc).not_list
  exact hchild.trans (map_children_eq (by simp [(hterms c hc).childless]))

theorem node_replaceBelow (e : Element) : (replaceBelow counted e).node = e.node := by
  obtain ⟨name, attributes, text, children⟩ := e
  rw [replaceBelow, replaceIn_eq_map]
  simp [node]

/-- Where no member of a list around is replaced, only what lies below is. -/
theorem at?_replaceBelow (h : ∀ list n l c, list ++ [n] <+: place → Member e list n l c →
      replace counted (replaceBelow counted c) = replaceBelow counted c) :
    (replaceBelow counted e).at? place = (e.at? place).map (replaceBelow counted) := by
  induction place generalizing e with
  | nil => rfl
  | cons m place ih =>
      have hchildren : (replaceBelow counted e).children[m]? =
          e.children[m]?.map (replaceBelow counted) := by
        by_cases hlist : e.isClauseList = true
        · rw [replaceBelow_of_list hlist, List.getElem?_map]
          refine Option.map_congr fun c hc => ?_
          exact h [] m e c (List.cons_prefix_cons.mpr ⟨rfl, List.nil_prefix⟩) ⟨rfl, hlist, hc⟩
        · rw [Bool.not_eq_true] at hlist
          rw [replaceBelow_of_not_list hlist, List.getElem?_map]
      rw [at?_cons, at?_cons, hchildren]
      cases hc : e.children[m]? with
      | none => rfl
      | some c =>
          refine ih fun list n l d hfront hmember => ?_
          refine h (m :: list) n l d (List.cons_prefix_cons.mpr ⟨rfl, hfront⟩)
            ⟨(at?_of_child hc).trans hmember.list, hmember.isList, hmember.clause⟩

/-- A member that is not to be replaced is changed below only. -/
theorem Member.kept (hterms : scope.Every HoldsTerms) (h : Member scope list n l clause)
    (hnot : ¬IsReplaced scope (list ++ [n])) :
    replace (mentions scope) (replaceBelow (mentions scope) clause) =
      replaceBelow (mentions scope) clause := by
  by_cases hname : clause.name = "builtin-predicate"
  · rw [replaceBelow_of_terms (h.terms hterms hname) hname, replace_of_not_replaced hterms h hnot]
  · exact replace_of_ne _ ((name_replaceBelow clause).trans_ne hname)

/-- Around a list of clauses there is no clause to be replaced. -/
theorem Member.name_ne_of_around (hterms : scope.Every HoldsTerms) {list' : List Nat} {n' : Nat}
    {l' clause' : Element} (h : Member scope list n l clause)
    (haround : Member scope list' n' l' clause') (hfront : list' ++ [n'] <+: list) :
    clause'.name ≠ "builtin-predicate" := by
  intro hname
  obtain ⟨rest, rfl⟩ := hfront
  have hl : clause'.at? rest = some l := by
    have hat := h.list
    rwa [at?_append, haround.at?, Option.bind_some] at hat
  exact absurd h.isList (by simp [not_list_of_at? (haround.terms hterms hname) hname hl])

/-- The clauses to be replaced are replaced, wherever they stand. -/
theorem at?_of_replaced (hterms : scope.Every HoldsTerms)
    (h : Replaced scope place clause builtin i v) :
    ∃ internal, Internal.findFor? builtin i = some internal ∧
      (replaceBelow (mentions scope) scope).at? place = some (internalFor clause internal i v) := by
  obtain ⟨internal, hinternal, hreplace⟩ := replace_of_replaced hterms h
  obtain ⟨list, n, l, rfl, hmember⟩ := h.member
  refine ⟨internal, hinternal, ?_⟩
  have hlist : (replaceBelow (mentions scope) scope).at? list =
      some (replaceBelow (mentions scope) l) := by
    rw [at?_replaceBelow fun list' n' l' c hfront haround => ?_, hmember.list, Option.map_some]
    exact replace_of_ne _ ((name_replaceBelow c).trans_ne
      (hmember.name_ne_of_around hterms haround hfront))
  rw [at?_concat hlist, replaceBelow_of_list hmember.isList, List.getElem?_map, hmember.clause,
    Option.map_some, replaceBelow_of_terms (hmember.terms hterms h.name) h.name, hreplace]

/-- Where no clause is to be replaced, every element stays by itself. -/
theorem at?_of_not_replaced (hterms : scope.Every HoldsTerms)
    (h : ∀ front, front <+: place → ¬IsReplaced scope front) :
    ((replaceBelow (mentions scope) scope).at? place).map node = (scope.at? place).map node := by
  rw [at?_replaceBelow fun list n l c hfront hmember => hmember.kept hterms (h _ hfront),
    Option.map_map]
  exact Option.map_congr fun e _ => node_replaceBelow e

/-- Behind the pass an element is what it was, or is or lies in what a clause is replaced by. -/
theorem exists_of_at?_replaceBelow (hterms : scope.Every HoldsTerms) {d : Element}
    (hd : (replaceBelow (mentions scope) scope).at? place = some d) :
    ((∀ front, front <+: place → ¬IsReplaced scope front) ∧
        ∃ e, scope.at? place = some e ∧ e.node = d.node) ∨
      ∃ front rest clause builtin i v, place = front ++ rest ∧
        Replaced scope front clause builtin i v ∧
          (rest = [] ∧ (∃ internal, d = internalFor clause internal i v) ∨
            ∃ m ≠ i, scope.at? (front ++ [m]) = some d ∧ d.IsTerm) := by
  by_cases hfront : ∃ front, front <+: place ∧ IsReplaced scope front
  · obtain ⟨front, ⟨rest, rfl⟩, clause, builtin, i, v, hreplaced⟩ := hfront
    refine .inr ⟨front, rest, clause, builtin, i, v, rfl, hreplaced, ?_⟩
    obtain ⟨internal, -, hinternal⟩ := at?_of_replaced hterms hreplaced
    rw [at?_append, hinternal, Option.bind_some] at hd
    cases rest with
    | nil => exact .inl ⟨rfl, internal, (Option.some.inj hd).symm⟩
    | cons n rest =>
        obtain ⟨c, hc, hcd⟩ := exists_child_of_at? hd
        obtain ⟨m, hm, hchild⟩ := List.mem_eraseIdx_iff_getElem?.mp (List.mem_of_getElem? hc)
        have hterm : c.IsTerm := (every_iff.mp (hterms.at? hreplaced.at?)).1 hreplaced.name c
          (List.mem_of_getElem? hchild)
        obtain rfl := at?_of_childless hterm.childless hcd
        obtain rfl : c = d := Option.some.inj hcd
        exact .inr ⟨m, hm, (at?_concat hreplaced.at?).trans hchild, hterm⟩
  · simp only [not_exists, not_and] at hfront
    refine .inl ⟨hfront, ?_⟩
    have hnode := at?_of_not_replaced hterms hfront
    rw [hd, Option.map_some] at hnode
    exact Option.map_eq_some_iff.mp hnode.symm

/-- An internal predicate that records a variable stands where a clause was replaced for it. -/
theorem replaced_of_removed (hterms : scope.Every HoldsTerms)
    (hnone : scope.Every (·.name ≠ "internal-predicate"))
    (hplace : (replaceBelow (mentions scope) scope).at? place = some e)
    (hname : e.name = "internal-predicate") (hremoved : e.attr? "removed-variables" = some v) :
    ∃ clause builtin i, Replaced scope place clause builtin i v := by
  obtain ⟨-, e', he', hnode⟩ | ⟨front, rest, clause, builtin, i, w, rfl, hreplaced, hcase⟩ :=
    exists_of_at?_replaceBelow hterms hplace
  · have hsame : e'.name = e.name := congrArg (·.1.name) hnode
    exact absurd (hsame.trans hname) (every_iff.mp (hnone.at? he')).1
  obtain ⟨rfl, internal, rfl⟩ | ⟨m, -, -, hterm⟩ := hcase
  · have hw := internalFor_removed clause internal i w
    obtain rfl : w = v := Option.some.inj (hw.symm.trans hremoved)
    exact ⟨clause, builtin, i, by rwa [List.append_nil]⟩
  · have hterms : "internal-predicate" ∉ argumentNames := by decide
    exact absurd (hname ▸ hterm.name_mem) hterms

/-- Behind the pass nothing mentions a variable that a clause was replaced for. -/
theorem not_mentions_of_replaced (hterms : scope.Every HoldsTerms) {other : List Nat} {d : Element}
    (h : Replaced scope place clause builtin i v)
    (hother : (replaceBelow (mentions scope) scope).at? other = some d) : ¬Mentions d v := by
  intro hmentions
  obtain ⟨-, -, -, halone⟩ := h.lone
  obtain ⟨hnot, d', hd', hnode⟩ | ⟨front, rest, clause', builtin', j, w, rfl, hreplaced', hcase⟩ :=
    exists_of_at?_replaceBelow hterms hother
  · have hsame : Mentions d'.node.1 v := hnode ▸ hmentions
    obtain rfl := halone other d' hd' hsame
    exact hnot place (List.prefix_append place [i]) ⟨clause, builtin, i, v, h⟩
  obtain ⟨rfl, internal, rfl⟩ | ⟨m, hm, hd, -⟩ := hcase
  · simp [Mentions, internalFor] at hmentions
  · -- the variable stands at the left-out argument only, and that is not the one at `m`
    obtain ⟨rfl, hlast⟩ := List.append_inj' (halone _ d hd hmentions) rfl
    obtain rfl : m = i := List.singleton_injective hlast
    exact hm (h.unique hreplaced').1

/-- Replacing clauses for what a rule or statement mentions is what the pass is to do with it. -/
theorem rewritten_replaceBelow (hterms : scope.Every HoldsTerms)
    (hnone : scope.Every (·.name ≠ "internal-predicate")) :
    Rewritten scope (replaceBelow (mentions scope) scope) where
  replaced := at?_of_replaced hterms
  unchanged := at?_of_not_replaced hterms
  unmentioned hplace hname hremoved _ _ hother := by
    obtain ⟨clause, builtin, i, hreplaced⟩ := replaced_of_removed hterms hnone hplace hname hremoved
    exact not_mentions_of_replaced hterms hreplaced hother

end InternalPredicates

/-! ## Trees of texts -/

open InternalPredicates

namespace Phrase

/-- The tree of a text holds no internal predicates. -/
theorem Document.every_not_internal (d : Document) (c : Grammar.Setting) :
    (d.outline c).element.Every (·.name ≠ "internal-predicate") := by
  refine Outline.every_element_of_events _ (fun k _ hk hname => ?_) fun item _ hname => ?_
  · have htag : k.tag = .internal := Tag.name_injective hname
    cases k with
    | internal => exact absurd (d.isTabled_of_mem hk) nofun
    | _ => cases htag
  · have hleaf : Tag.ofName? "internal-predicate" = none := hname ▸ Element.ofName?_leaf item
    cases hleaf

end Phrase

namespace InternalPredicates

variable {tree scope : Element}

theorem replaceScope_of_header (h : scope.IsHeader) : replaceScope scope = scope := by
  obtain hname | hname := h.1 <;> simp [replaceScope, hname]

theorem replaceScope_of_scoped (h : scope.Scoped) :
    replaceScope scope = replaceBelow (mentions scope) scope := by
  have hnames : ∀ name ∈ "rule" :: Element.statementTags.map Tag.name,
      (name == "base" || name == "namespace") = false := by decide
  rw [replaceScope, hnames _ (List.mem_cons.mpr h.name)]
  rfl

/-- A rule or statement is changed for what it mentions, and a directive has nothing to change. -/
theorem replaceScope_eq (htree : tree.Settled) (hscope : scope ∈ tree.children) :
    replaceScope scope = replaceBelow (mentions scope) scope := by
  obtain hheader | hscoped := htree.children scope hscope
  · rw [replaceScope_of_header hheader,
      replaceBelow_of_not_list (Element.IsHeader.not_list hheader)]
    exact (Element.map_children_eq (by simp [hheader.2])).symm
  · exact replaceScope_of_scoped hscoped

end InternalPredicates

/--
The pass replaces, in every rule and statement of a text, exactly the clauses for types and
instances one of whose two arguments is a variable that is mentioned nowhere else there: it
removes the first such argument and records its variable, which is then mentioned no more.
-/
theorem internalPredicates_exact {plus : Bool} {text : String}
    (hparses : (parse text plus).fault = none) :
    ∃ tree, Element.ofText plus text = .ok tree ∧
      (InternalPredicates.apply tree).node = tree.node ∧
        ∀ (n : Nat) (scope : Element), tree.children[n]? = some scope →
          ∃ after, (InternalPredicates.apply tree).children[n]? = some after ∧ Rewritten scope after := by
  obtain ⟨d, hd⟩ := Phrase.exists_document hparses
  have hsettled := Element.settled_of_ofText hd.tree
  refine ⟨_, hd.tree, by simp [InternalPredicates.apply, Element.node], fun n scope hscope => ?_⟩
  have hmem := List.mem_of_getElem? hscope
  refine ⟨_, (List.getElem?_map ..).trans (by rw [hscope]; rfl), ?_⟩
  rw [replaceScope_eq hsettled hmem]
  exact rewritten_replaceBelow ((Element.every_iff.mp hsettled.every_holdsTerms).2 scope hmem)
    ((Element.every_iff.mp (d.every_not_internal _)).2 scope hmem)

/-- A clause whose second argument is mentioned nowhere else, and one with both mentioned. -/
theorem internalPredicates_exact_instance :
    ∃ tree scope after internal clause, Element.ofText false
        "instance-of($T, $Z), direct-instance-of($T, $S), topic($S)?" = .ok tree ∧
      tree.children[0]? = some scope ∧ (InternalPredicates.apply tree).children[0]? = some after ∧
        Rewritten scope after ∧ Replaced scope [0, 0] clause "instance-of" 1 "Z" ∧
          after.at? [0, 0] = some (internalFor clause internal 1 "Z") := by
  obtain ⟨hparses, hplace⟩ :
      (parse "instance-of($T, $Z), direct-instance-of($T, $S), topic($S)?" false).fault = none ∧
      (Element.ofText false
        "instance-of($T, $Z), direct-instance-of($T, $S), topic($S)?").toOption.all (fun tree =>
          tree.children[0]?.any fun scope => (scope.at? [0]).any fun l =>
            l.isClauseList ∧ l.children[0]?.any fun clause =>
              clause.name = "builtin-predicate" ∧ clause.attr? "name" = some "instance-of" ∧
                clause.children.length = 2 ∧ lone? (mentions scope) clause 1 = some "Z" ∧
                  lone? (mentions scope) clause 0 = none) = true := by
    decide +kernel
  obtain ⟨tree, htree, -, hscopes⟩ := internalPredicates_exact hparses
  rw [htree] at hplace
  simp only [Except.toOption, Option.all_some, Option.any_eq_true, decide_eq_true_eq] at hplace
  obtain ⟨scope, hscope, l, hl, hlist, clause, hclause, hname, hcalls, harguments, hfound, hfirst⟩ :=
    hplace
  have hterms := (Element.every_iff.mp (Element.settled_of_ofText htree).every_holdsTerms).2 scope
    (List.mem_of_getElem? hscope)
  have hreplaced := Member.replaced hterms ⟨hl, hlist, hclause⟩ hname hcalls (.inl rfl) harguments hfound
    (by simpa using hfirst)
  obtain ⟨after, hafter, hrewritten⟩ := hscopes 0 scope hscope
  obtain ⟨internal, -, hinternal⟩ := hrewritten.replaced hreplaced
  exact ⟨tree, scope, after, internal, clause, htree, hscope, hafter, hrewritten, hreplaced, hinternal⟩

end TopicQuery
