import TopicQuery.Proofs.Coverage.Plain
import TopicQuery.Proofs.Rendered.Statement

/-!
Clauses that tolog+ can write, whatever passes have made of them. A clause of a text is one
without clauses inside it, a negation or a choice of branches, and every pass keeps it so.
-/

namespace TopicQuery

open Phrase

namespace Element

variable {c : Scope} {e e' e'' : Element}

/-! ## Attributes that passes set -/

/-- The elements differ at most in the attributes that passes set. -/
structure Alike (e e' : Element) : Prop where
  name : e'.name = e.name
  children : e'.children = e.children
  attr : ∀ name ∉ ["hints", optimizedByName], e'.attr? name = e.attr? name

theorem Alike.trans (h : Alike e e') (h' : Alike e' e'') : Alike e e'' :=
  ⟨h'.name.trans h.name, h'.children.trans h.children,
    fun _ hattr => (h'.attr _ hattr).trans (h.attr _ hattr)⟩

theorem alike_setAttr {name : String} (h : name ∈ ["hints", optimizedByName]) (value : String) :
    Alike e (e.setAttr name value) :=
  ⟨rfl, rfl, fun _ hattr => Attributes.get?_put_ne fun heq => hattr (heq ▸ h)⟩

theorem alike_annotate (pass : String) : Alike e (e.annotate pass) :=
  ⟨name_annotate e pass, children_annotate e pass, fun attr hattr =>
    (looksLike_annotate e pass).attr? attr fun heq => hattr (heq ▸ by simp)⟩

theorem alike_narrow (evidence : List NarrowHints.Evidence) :
    Alike e (NarrowHints.narrow evidence e) := by
  have hrefl : Alike e e := ⟨rfl, rfl, fun _ _ => rfl⟩
  obtain hsame | ⟨-, _, _, _, -, -, -, -, hnarrow⟩ := NarrowHints.narrow_eq evidence e
  · rw [hsame]
    exact hrefl
  · rw [hnarrow]
    exact (alike_setAttr (by simp) _).trans (alike_annotate _)

theorem Alike.allPlain (h : Alike e e') : e'.AllPlain c ↔ e.AllPlain c := by
  rw [AllPlain, AllPlain, every_iff, every_iff, h.children, Plain, Plain, h.name,
    h.attr "kind" (by decide), h.attr "prefix" (by decide)]

/-- A clause is written without the attributes that passes set, but for comments. -/
theorem Alike.plainClause (h : Alike e e') (s : Style) : s.plainClause e' = s.plainClause e := by
  obtain ⟨name, attributes, text, children⟩ := e
  obtain ⟨name', attributes', text', children'⟩ := e'
  obtain ⟨rfl, rfl, hattr⟩ : name' = name ∧ children' = children ∧ _ := ⟨h.name, h.children, h.attr⟩
  have hname := hattr "name" (by decide)
  have hremoved := hattr "removed-variables" (by decide)
  have hwritten : Element.writtenAttr ⟨name', attributes', text', children'⟩ "name" =
      Element.writtenAttr ⟨name', attributes, text, children'⟩ "name" := by
    rw [writtenAttr, hname]
    rfl
  have hinternal : s.internal ⟨name', attributes', text', children'⟩ =
      s.internal ⟨name', attributes, text, children'⟩ := by
    rw [Style.internal, Style.internal, hwritten, hremoved]
  have hcomparison : s.comparison ⟨name', attributes', text', children'⟩ =
      s.comparison ⟨name', attributes, text, children'⟩ := by
    rw [Style.comparison, Style.comparison, hwritten]
    rfl
  unfold Style.plainClause
  rw [hwritten, hinternal, hcomparison]
  rfl

end Element

namespace Phrase

open Element Style

variable {s : Style} {c : Scope} {e e' : Element}

/-! ## Clauses without clauses inside them -/

theorem Simple.congr (h : Simple c e) (hlike : Alike e e') : Simple c e' where
  name := hlike.name ▸ h.name
  flat := h.flat.congr hlike.name hlike.children
  legible hs := by
    rw [hlike.plainClause]
    exact (h.legible hs).of_iff (allows_congr hlike.allPlain.symm)
  arguments hname := by
    rw [hlike.children]
    exact h.arguments (hlike.name ▸ hname)

theorem IsTermOf.flat (h : IsTermOf c e) : e.Flat := by
  obtain ⟨t, -, -, rfl⟩ := h
  exact flat_term t

/-- The lone argument of a clause without clauses inside it is a variable of the text. -/
theorem Simple.proper_argument (h : Simple c e) (hname : e.name = "builtin-predicate") {n : Nat}
    {v : String} (hv : e.arguments[n]?.bind variableName? = some v) :
    (Token.atom .var v).Proper := by
  obtain ⟨argument, hargument, hvariable⟩ := Option.bind_eq_some_iff.mp hv
  obtain ⟨t, -, hproper, rfl⟩ := h.arguments hname argument
    (List.mem_of_mem_filter (List.mem_of_getElem? hargument))
  have hleaf : t.leaf c = .atom .var v :=
    InternalPredicates.eq_var_of_variableName? (isTerm_term t) hvariable
  cases t with
  | atom kind value =>
      cases hleaf
      exact hproper _ List.mem_cons_self
  | iri marker value => cases marker <;> cases hleaf
  | _ => cases hleaf

/-- An internal predicate of the table is written with the arguments that it has and the lost one. -/
theorem internal_eq {internal : Internal} (hname : e.attr? "name" = some internal.name)
    (hfound : Internal.find? internal.name = some internal) {removed : String}
    (hremoved : e.attr? "removed-variables" = some removed)
    (hword : Text.wordsOf removed = [removed]) :
    s.internal e = (s.terms e.children >>= fun arguments =>
      .ok (application internal.builtin (arguments.take internal.removedAt ++ ["$" ++ removed] ++
        arguments.drop internal.removedAt))) := by
  simp only [Style.internal, writtenAttr, hname, ok_bind, Internal.restore?, hfound,
    Option.map_some, hremoved, Option.getD_some, hword]
  rfl

/-- The predicates that internal ones stand for have names. -/
theorem proper_builtin {internal : Internal} (h : Internal.find? internal.name = some internal) :
    (Token.atom .identifier internal.builtin).Proper := by
  have hnames : ∀ i ∈ Internal.table, Lexeme.IsName Text.isNameStart i.builtin.toList ∧
      Keyword.ofText? (String.ofList i.builtin.toList) = none := by decide +kernel
  exact hnames _ (List.mem_of_find?_eq_some h)

/-- An internal predicate of the table, with terms as its arguments. -/
theorem simple_internal {clause : Element} {builtin : String} {n : Nat} {internal : Internal}
    (hinternal : Internal.findFor? builtin n = some internal)
    (harguments : ∀ d ∈ clause.children, IsTermOf c d) {removed : String}
    (hremoved : (Token.atom .var removed).Proper) :
    Simple c (InternalPredicates.internalClause clause internal removed) where
  name := show "internal-predicate" ∈ simpleNames by decide
  flat := by
    refine ⟨show "internal-predicate" ≠ "base" by decide,
      show "internal-predicate" ≠ "namespace" by decide, rfl, fun hname => ?_, fun d hd => ?_⟩
    · exact absurd hname (show "internal-predicate" ≠ "builtin-predicate" by decide)
    · exact (harguments d (InternalPredicates.withoutArgument_subset _ _ hd)).flat
  legible {s} hs := by
    have hterms := terms_legible hs fun d hd =>
      harguments d (InternalPredicates.withoutArgument_subset internal.removedAt _ hd)
    have hfound := (InternalPredicates.find?_of_findFor? hinternal).1
    have hattr : (InternalPredicates.internalClause clause internal removed).attr?
        "removed-variables" = some removed := by
      unfold InternalPredicates.internalClause
      cases clause.attr? "hints" <;> rfl
    have hclause : s.plainClause (InternalPredicates.internalClause clause internal removed) = _ :=
      internal_eq rfl hfound hattr (Text.wordsOf_unbroken (isUnbroken_of_proper hremoved))
    have hvariable : Legible ("$" ++ removed) := ⟨_, spelled_variable hremoved⟩
    rw [hclause]
    refine (hterms.map fun {arguments} htexts => ?_).of_iff (allows_congr ?_)
    · have hall : ∀ text ∈ arguments.take internal.removedAt ++ ["$" ++ removed] ++
          arguments.drop internal.removedAt, Legible text := by
        intro text htext
        simp only [List.mem_append, List.mem_singleton] at htext
        obtain (htext | rfl) | htext := htext
        · exact htexts _ (List.mem_of_mem_take htext)
        · exact hvariable
        · exact htexts _ (List.mem_of_mem_drop htext)
      obtain ⟨ts, hts⟩ := legible_commaList hall
      exact ⟨_, spelled_application (spelled_identifier (proper_builtin hfound)) hts⟩
    · rw [allPlain_iff (show "internal-predicate" ∉ "qname" :: plusNames by decide)]
      rfl
  arguments hname := absurd hname (show "internal-predicate" ≠ "builtin-predicate" by decide)

/-- An argument that is left out of a clause without clauses inside it leaves one. -/
theorem Simple.replace (h : Simple c e) (counted : List String) :
    Simple c (InternalPredicates.replace counted e) := by
  obtain hsame | ⟨hname, _, _, removed, _, -, hargument, -, hinternal, hreplace⟩ :=
    InternalPredicates.replace_eq counted e
  · rw [hsame]
    exact h
  · rw [hreplace]
    exact (simple_internal hinternal (h.arguments hname) (h.proper_argument hname hargument)).congr
      (alike_annotate _)

/-! ## Clauses -/

/-- The element is a clause, of a text or of what passes have made of it. -/
inductive Clausal (c : Scope) : Element → Prop
  | simple {e : Element} (h : Simple c e) : Clausal c e
  | negation {e : Element} (hname : e.name = "not") (hchildren : ∀ d ∈ e.children, Clausal c d) :
    Clausal c e
  | alternatives {e : Element} (hname : e.name = "or") (hbranches : ∀ b ∈ e.children, b.name = "branch")
    (hchildren : ∀ b ∈ e.children, ∀ d ∈ b.children, Clausal c d) : Clausal c e

namespace Clausal

theorem isClause (h : Clausal c e) : isClause e = true := by
  cases h with
  | simple h => exact h.isClause
  | negation hname _ => simp [Style.isClause, hname]
  | alternatives hname _ _ => simp [Style.isClause, hname]

theorem congr (h : Clausal c e) (hlike : Alike e e') : Clausal c e' := by
  cases h with
  | simple h => exact .simple (h.congr hlike)
  | negation hname hchildren =>
      exact .negation (hlike.name.trans hname) (hlike.children ▸ hchildren)
  | alternatives hname hbranches hchildren =>
      exact .alternatives (hlike.name.trans hname) (hlike.children ▸ hbranches)
        (hlike.children ▸ hchildren)

theorem replace (h : Clausal c e) (counted : List String) :
    Clausal c (InternalPredicates.replace counted e) := by
  have hother : e.name ≠ "builtin-predicate" → InternalPredicates.replace counted e = e := by
    intro hname
    simp [InternalPredicates.replace, hname]
  cases h with
  | simple h => exact .simple (h.replace counted)
  | negation hname hchildren =>
      rw [hother (by simp [hname])]
      exact .negation hname hchildren
  | alternatives hname hbranches hchildren =>
      rw [hother (by simp [hname])]
      exact .alternatives hname hbranches hchildren

end Clausal

/-! ## Passes -/

/--
Changes of trees that go on to the children where no list is, and leave clauses in a list if
they leave clauses of its members.
-/
structure Reworks {ι : Type} (c : Scope) (change : ι → Element → Element) : Prop where
  name : ∀ i e, (change i e).name = e.name
  outside : ∀ i {e : Element}, e.isClauseList = false →
    change i e = { e with children := e.children.map (change i) }
  inside : ∀ i {e : Element}, e.isClauseList = true →
    (∀ j, ∀ d ∈ e.children, Clausal c (change j d)) → ∀ d ∈ (change i e).children, Clausal c d

/-- A change leaves a clause of a clause. -/
theorem Clausal.change {ι : Type} {change : ι → Element → Element} (hchange : Reworks c change)
    (h : Clausal c e) (i : ι) : Clausal c (change i e) := by
  induction h generalizing i with
  | simple h =>
      rw [h.flat.unchanged (hchange.outside i)]
      exact .simple h
  | negation hname _ ih =>
      have hlist := (isClauseList_iff _).mpr (.inr (.inr (.inr hname)))
      exact .negation ((hchange.name i _).trans hname)
        (hchange.inside i hlist fun j d hd => ih d hd j)
  | @alternatives e hname hbranches _ ih =>
      rw [hchange.outside i (by simp [isClauseList, hname])]
      refine .alternatives hname ?_ ?_
      · intro b' hb'
        obtain ⟨b, hb, rfl⟩ := List.mem_map.mp hb'
        exact (hchange.name i b).trans (hbranches b hb)
      · intro b' hb'
        obtain ⟨b, hb, rfl⟩ := List.mem_map.mp hb'
        have hlist := (isClauseList_iff _).mpr (.inr (.inr (.inl (hbranches b hb))))
        exact hchange.inside i hlist fun j d hd => ih b hb d hd j

theorem reworks_changeLists {pass : String} {f : List Element → Option (List Element)}
    (hf : ∀ {es es'}, f es = some es' → es' ⊆ es) :
    Reworks c fun _ : Unit => changeLists pass f where
  name _ e := name_changeLists e
  outside _ _ hlist := changeLists_of_not_list hlist
  inside _ e hlist hmembers := by
    obtain ⟨name, attributes, text, children⟩ := e
    have hall : ∀ d ∈ changeListsIn pass f children, Clausal c d := by
      rw [changeListsIn_eq_map]
      exact List.forall_mem_map.mpr (hmembers ())
    have hlist' : isClauseList ⟨name, attributes, text, changeListsIn pass f children⟩ = true := hlist
    rw [changeLists, changeList, if_pos hlist']
    split
    · next hfound =>
      rw [children_annotate]
      exact fun d hd => hall d (hf hfound hd)
    · exact hall

theorem reworks_narrow : Reworks c NarrowHints.narrowBelow where
  name outer e := NarrowHints.name_narrowBelow outer e
  outside outer _ hlist := NarrowHints.narrowBelow_of_not_list outer hlist
  inside outer e hlist hmembers := by
    obtain ⟨name, attributes, text, children⟩ := e
    have hall : ∀ negated outer inner before (es : List Element), es ⊆ children →
        ∀ d ∈ NarrowHints.narrowMembers negated outer inner before es, Clausal c d := by
      intro negated outer inner before es hes
      induction es generalizing before with
      | nil => simp [NarrowHints.narrowMembers]
      | cons d es ih =>
          obtain ⟨hd, hes⟩ := List.cons_subset.mp hes
          rw [NarrowHints.narrowMembers]
          exact List.forall_mem_cons.mpr ⟨(hmembers inner d hd).congr (alike_narrow _), ih _ hes⟩
    rw [NarrowHints.narrowBelow]
    dsimp only
    rw [if_pos hlist]
    exact hall _ _ _ _ _ (List.Subset.refl _)

theorem reworks_replace : Reworks c InternalPredicates.replaceBelow where
  name _ e := InternalPredicates.name_replaceBelow e
  outside _ _ hlist := InternalPredicates.replaceBelow_of_not_list hlist
  inside counted e hlist hmembers := by
    obtain ⟨name, attributes, text, children⟩ := e
    rw [InternalPredicates.replaceBelow, hlist, InternalPredicates.replaceIn_eq_map]
    exact List.forall_mem_map.mpr fun d hd => (hmembers counted d hd).replace counted

/-! ## Clauses of a text -/

mutual

theorem Clause.clausal (x : Clause) (hrefers : x.Refers c) (hproper : ∀ u ∈ x.tokens, u.Proper) :
    Clausal c (x.outline c).element := by
  match x with
  | .negation xs =>
      refine .negation rfl (children_within (xs.clausal hrefers fun u hu => hproper u ?_))
      simp [Clause.tokens, hu]
  | .alternatives bs =>
      have hbranches := bs.clausal false hrefers fun u hu => hproper u (by simp [Clause.tokens, hu])
      exact .alternatives rfl (children_within fun o ho => (hbranches o ho).1)
        (children_within fun o ho => (hbranches o ho).2)
  | .comparison operator left right =>
      exact .simple (simple_comparison hrefers.1 hrefers.2 hproper)
  | .call call => exact .simple (simple_call hrefers hproper)

theorem Clauses.clausal (xs : Clauses) (hrefers : xs.Refers c) (hproper : ∀ u ∈ xs.tokens, u.Proper) :
    ∀ o ∈ xs.outlines c, Clausal c o.element := by
  match xs with
  | .last x => exact List.forall_mem_singleton.mpr (x.clausal hrefers hproper)
  | .cons x xs =>
      exact List.forall_mem_cons.mpr
        ⟨x.clausal hrefers.1 fun u hu => hproper u (List.mem_append_left _ hu),
          xs.clausal hrefers.2 fun u hu =>
            hproper u (List.mem_append_right _ (List.mem_cons_of_mem _ hu))⟩

theorem Branches.clausal (bs : Branches) (shortCircuit : Bool) (hrefers : bs.Refers c)
    (hproper : ∀ u ∈ bs.tokens, u.Proper) :
    ∀ o ∈ bs.outlines c shortCircuit,
      o.element.name = "branch" ∧ ∀ d ∈ o.element.children, Clausal c d := by
  match bs with
  | .last xs =>
      exact List.forall_mem_singleton.mpr ⟨rfl, children_within (xs.clausal hrefers hproper)⟩
  | .cons xs next bs =>
      exact List.forall_mem_cons.mpr
        ⟨⟨rfl, children_within (xs.clausal hrefers.1 fun u hu =>
            hproper u (List.mem_append_left _ hu))⟩,
          bs.clausal next hrefers.2 fun u hu =>
            hproper u (List.mem_append_right _ (List.mem_cons_of_mem _ hu))⟩

end

/-! ## Written clauses -/

theorem clauses_makes {es : List Element} (hes : ∀ d ∈ es, Clausal c d)
    (h : ∀ d ∈ es, s.Makes (s.clause d) (d.AllPlain c)) :
    s.Makes (s.clauses es) (∀ d ∈ es, d.AllPlain c) := by
  rw [clauses_eq_mapM, List.filter_eq_self.mpr fun d hd => (hes d hd).isClause]
  exact makes_mapM h

theorem branches_makes {bs : List Element} (hbranches : ∀ b ∈ bs, b.name = "branch")
    (h : ∀ b ∈ bs, s.Makes (s.clauses b.children) (∀ d ∈ b.children, d.AllPlain c))
    (isFirst : Bool) : s.Makes (s.branches isFirst bs) (∀ b ∈ bs, b.AllPlain c) := by
  induction bs generalizing isFirst with
  | nil => exact (makes_ok []).of_iff (by simp)
  | cons b bs ih =>
      obtain ⟨hname, hbranches⟩ := List.forall_mem_cons.mp hbranches
      obtain ⟨hfirst, hrest⟩ := List.forall_mem_cons.mp h
      rw [branches_cons_eq, List.forall_mem_cons]
      refine (hfirst.bind fun inner => (ih hbranches hrest false).map _).of_iff ?_
      rw [allPlain_iff (by simp [hname, plusNames])]

/-- A clause can be written in tolog+, and in plain tolog if none of its elements needs tolog+. -/
theorem Clausal.makes (hs : s.Knows c) (h : Clausal c e) : s.Makes (s.clause e) (e.AllPlain c) := by
  induction h with
  | @simple e h =>
      have hnames : ∀ n ∈ simpleNames, n ≠ "not" ∧ n ≠ "or" := by decide
      obtain ⟨hnot, hor⟩ := hnames _ h.name
      rw [clause_eq_plainClause s hnot hor]
      exact (h.makes hs).map _
  | @negation e hname hchildren ih =>
      have hplain : e.name ∉ "qname" :: plusNames := hname ▸ (by decide)
      rw [clause_of_negation s hname, allPlain_iff hplain]
      exact (clauses_makes hchildren ih).map _
  | @alternatives e hname hbranches hchildren ih =>
      have hplain : e.name ∉ "qname" :: plusNames := hname ▸ (by decide)
      rw [clause_of_alternatives s hname, allPlain_iff hplain]
      exact (branches_makes hbranches
        (fun b hb => clauses_makes (hchildren b hb) (ih b hb)) true).map _

end Phrase

end TopicQuery
