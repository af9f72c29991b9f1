import TopicQuery.Pass
import TopicQuery.Proofs.Optimized.Document
import TopicQuery.Proofs.Optimized.Internal
import TopicQuery.Proofs.Optimized.Lists
import TopicQuery.Proofs.Optimized.Parsed

/-!
Optimized trees. Every pass changes the rules and the statement of a document by
improvements only, and so do any passes one behind the other. No pass leaves out a parameter
of a rule, so the check of parameters, and with it the whole query, has the same outcome
before and after optimization.
-/

namespace TopicQuery

open Element

/-- The replacements of single clauses that a factory and the variables to be kept allow. -/
structure Admits (f : Factory) (one : List String → Clause → Clause → Prop) : Prop where
  usual : f.IsUsual
  narrowed : ∀ keep name hints left arguments, left.Sublist hints → left ≠ [] →
    one keep (.builtin name hints arguments) (.builtin name left arguments)
  replaces : ∀ keep, InternalPredicates.Replaces f (one keep) keep
  rule : ∀ {name parameters xs ys}, Reduces (one parameters) xs ys →
    Agree (Rule.Reduces one) (f.rule name parameters xs) (f.rule name parameters ys)
  forget : ∀ {keep x y}, one keep x y → one [] x y

/-- A built-in predicate with some of its kinds, but not without any. -/
inductive Narrows : Clause → Clause → Prop
  | builtin (name : String) {hints left : List Hint} (arguments : List Term) :
      left.Sublist hints → left ≠ [] →
      Narrows (.builtin name hints arguments) (.builtin name left arguments)

theorem Narrows.occurrences_eq {x y : Clause} (h : Narrows x y) : x.occurrences = y.occurrences := by
  cases h
  rfl

section Admits

variable {f : Factory} {one : List String → Clause → Clause → Prop} (h : Admits f one)

/-! ## Changes of rules and statements -/

/-- Reads variables only. -/
def Element.readVariable : Leaf → Except Failure Operand
  | .atom .var v => .ok (.term (.var v))
  | _ => .error (.builder .incomplete)

theorem Element.reads_readVariable : Reads readVariable where
  var _ := rfl
  term item _ o ho := by
    unfold readVariable at ho
    split at ho
    · exact ⟨_, (Except.ok.inj ho).symm⟩
    · cases ho

theorem Element.Scoped.not_list {e : Element} (he : e.Scoped) : e.isClauseList = false := by
  have hnames : ∀ name ∈ "rule" :: statementTags.map Tag.name,
      ["where", "body", "branch", "not"].contains name = false := by decide
  exact hnames e.name (List.mem_cons.mpr he.name)

theorem Element.IsHeader.not_list {e : Element} (he : e.IsHeader) : e.isClauseList = false := by
  obtain hname | hname := he.1 <;> simp [isClauseList, hname]

include h

/-- What improves the children of rules and statements is sound. -/
theorem sound_of_children {change : Element → Element} (inner : Element → Element → Element)
    (hheader : ∀ {e : Element}, e.IsHeader → change e = e)
    (hscope : ∀ {e : Element}, e.Scoped → change e = { e with children := e.children.map (inner e) })
    (hflat : ∀ {e c : Element}, c.Flat → inner e c = c)
    (hname : ∀ e c, (inner e c).name = c.name)
    (himproves : ∀ {read}, Reads read → ∀ {e : Element}, e.Scoped → ∀ c ∈ e.children, c.Layered →
      Improves f read (one e.ownVariables) c (inner e c)) : Sound f one change where
  header := hheader
  settled he := by
    rw [hscope he]
    exact scoped_map he (fun c _ hc => hflat hc) (hname _)
      fun c hc hlayered => (himproves reads_readVariable he c hc hlayered).layered
  agree he read hread := by
    rw [hscope he]
    exact scoped_agree h.usual hread h.rule h.forget he (fun c _ hc => hflat hc)
      (himproves hread he)

/-- What goes on to the children where no list is and improves every layer is sound. -/
theorem sound_of_lists {change : Element → Element}
    (hlist : ∀ {e : Element}, e.isClauseList = false →
      change e = { e with children := e.children.map change })
    (hname : ∀ e, (change e).name = e.name)
    (himproves : ∀ {read keep} {c : Element}, c.Layered → Improves f read (one keep) c (change c)) :
    Sound f one change := by
  refine sound_of_children h (fun _ => change) (fun he => ?_) (fun he => hlist he.not_list)
    (fun hc => hc.unchanged hlist) (fun _ => hname) fun _ _ _ c _ hc => himproves hc
  exact (hlist he.not_list).trans (map_children_eq fun c hc => by simp [he.2] at hc)

theorem sound_changeLists {pass : String} {change : List Element → Option (List Element)}
    (hchange : ∀ {read keep}, Shortens f read (one keep) change) :
    Sound f one (changeLists pass change) :=
  sound_of_lists h changeLists_of_not_list name_changeLists fun hc =>
    changeLists_improves h.usual hchange hc

theorem sound_narrowBelow : Sound f one (NarrowHints.narrowBelow []) :=
  sound_of_lists h (NarrowHints.narrowBelow_of_not_list []) (NarrowHints.name_narrowBelow [])
    fun hc => NarrowHints.narrowBelow_improves h.usual (h.narrowed _) hc []

/-- Parameters and other variables of a rule or statement are never the only mention of themselves. -/
theorem sound_replaceScope : Sound f one InternalPredicates.replaceScope := by
  refine sound_of_children h (fun e => InternalPredicates.replaceBelow (InternalPredicates.mentions e))
    (fun he => ?_) (fun he => ?_)
    (fun hc => hc.unchanged InternalPredicates.replaceBelow_of_not_list)
    (fun _ => InternalPredicates.name_replaceBelow) fun {read} hread e he c hc hlayered => ?_
  · obtain hname | hname := he.1 <;> simp [InternalPredicates.replaceScope, hname]
  · have hnames : ∀ name ∈ "rule" :: statementTags.map Tag.name,
        (name == "base" || name == "namespace") = false := by decide
    rw [InternalPredicates.replaceScope, hnames _ (List.mem_cons.mpr he.name)]
    exact InternalPredicates.replaceBelow_of_not_list he.not_list
  · obtain hflat | ⟨hname, -⟩ := he.children c hc
    · rw [hflat.unchanged InternalPredicates.replaceBelow_of_not_list]
      exact .refl hlayered
    · refine InternalPredicates.replaceBelow_improves h.usual hread (h.replaces _) hlayered ?_
      intro v hv hmentioned
      obtain ⟨d, hd, hdv⟩ := List.mem_filterMap.mp hv
      have hdname : d.name = "variable" := by
        unfold variableName? at hdv
        split at hdv
        · next hd => simpa using hd
        · cases hdv
      refine InternalPredicates.count_mentions_ne_one hd hc ?_
        (InternalPredicates.mem_mentions_of_mentioned ?_) hmentioned
      · rintro rfl
        obtain hname | hname := hname <;> rw [hdname] at hname <;> exact absurd hname (by decide)
      · unfold variableName? at hdv
        simp only [hdname, beq_self_eq_true, if_true] at hdv
        simp [InternalPredicates.mentioned, hdname, hdv]

/-! ## Passes -/

/-- A pass changes the children of a document soundly. -/
theorem Pass.exists_sound (pass : Pass) {tree : Element} (hname : tree.name = "tolog") :
    ∃ change, Sound f one change ∧
      pass.apply tree = { tree with children := tree.children.map change } := by
  have hlist : tree.isClauseList = false := by simp [isClauseList, hname]
  cases pass with
  | removeDuplicates =>
      exact ⟨_, sound_changeLists h RemoveDuplicates.shortens, changeLists_of_not_list hlist⟩
  | narrowHints =>
      exact ⟨_, sound_narrowBelow h, by rw [Pass.apply, NarrowHints.apply, NarrowHints.narrowEach_eq_map]⟩
  | internalPredicates => exact ⟨_, sound_replaceScope h, rfl⟩
  | filtersLast => exact ⟨_, sound_changeLists h FiltersLast.shortens, changeLists_of_not_list hlist⟩

/-- A settled tree and the optimized one stand for queries alike. -/
theorem optimize_agree {tree : Element} (htree : tree.Settled) (passes : List Pass) (document : Iri) :
    Agree (Query.Reduces one) (tree.toQuery f document)
      ((optimize passes tree).toQuery f document) := by
  induction passes generalizing tree with
  | nil => exact .refl .refl _
  | cons pass passes ih =>
      obtain ⟨change, hchange, happly⟩ := pass.exists_sound h htree.name
      rw [optimize, List.foldl_cons, happly]
      exact (toQuery_agree htree hchange document).trans (ih (htree.map hchange)) .trans

omit h in
theorem Pass.ofNames_map_name (passes : List Pass) :
    Pass.ofNames (some (passes.map Pass.name)) = .ok passes := by
  rw [ofNames]
  induction passes with
  | nil => rfl
  | cons pass passes ih =>
      rw [List.map_cons, List.mapM_cons, ih, named, ofName?_name]
      rfl

omit h in
theorem Query.ofSource_passes (plus : Bool) (passes : List Pass) (source : Source) :
    Query.ofSource f ⟨plus, some (passes.map Pass.name)⟩ source =
      (source.read >>= fun text => Element.ofText plus text >>= fun tree =>
        (optimize passes tree).toQuery f source.base) := by
  rw [Query.ofSource, Element.ofSource, Pass.ofNames_map_name, ok_bind]
  cases source.read with
  | error failure => rfl
  | ok text =>
      rw [ok_bind, ok_bind]
      cases Element.ofText plus text <;> rfl

/-- The queries of a source before and after any passes. -/
theorem Query.ofSource_agree (plus : Bool) (passes : List Pass) (source : Source) :
    Agree (Query.Reduces one) (Query.ofSource f ⟨plus, some []⟩ source)
      (Query.ofSource f ⟨plus, some (passes.map Pass.name)⟩ source) := by
  rw [show some [] = some (([] : List Pass).map Pass.name) from rfl, Query.ofSource_passes,
    Query.ofSource_passes]
  refine .bind_same _ fun text => ?_
  cases htree : Element.ofText plus text with
  | error failure => trivial
  | ok tree => exact optimize_agree h (settled_of_ofText htree) passes source.base

end Admits

/-! ## Parameters of rules -/

/-- An internal predicate in the place of a built-in one, without a variable that is not kept. -/
inductive LeavesOut (keep : List String) : Clause → Clause → Prop
  | internal (builtin name : String) (hints : List Hint) {n : Nat} {arguments : List Term}
      {v : String} : arguments[n]? = some (.var v) → v ∉ keep →
      LeavesOut keep (.builtin builtin hints arguments)
        (.internal name hints [v] (arguments.eraseIdx n))

/-- What may happen to a single clause where internal predicates are kept. -/
def Keeps (keep : List String) (x y : Clause) : Prop := Narrows x y ∨ LeavesOut keep x y

theorem mem_eraseIdx_of_ne {α : Type} {xs : List α} {n : Nat} {x y : α} (hx : xs[n]? = some x)
    (hy : y ∈ xs) (hne : y ≠ x) : y ∈ xs.eraseIdx n := by
  induction xs generalizing n with
  | nil => simp at hy
  | cons z xs ih =>
      cases n with
      | zero =>
          obtain rfl : z = x := by simpa using hx
          exact (List.mem_cons.mp hy).resolve_left hne
      | succ n =>
          rw [List.eraseIdx_cons_succ]
          obtain rfl | hy := List.mem_cons.mp hy
          · exact List.mem_cons_self
          · exact List.mem_cons_of_mem _ (ih (by simpa using hx) hy)

/-- The variables to be kept occur in an internal predicate if they did in the built-in one. -/
theorem LeavesOut.mem_occurrences_iff {keep : List String} {x y : Clause} (h : LeavesOut keep x y)
    {p : String} (hp : p ∈ keep) : p ∈ x.occurrences ↔ p ∈ y.occurrences := by
  cases h with
  | @internal builtin name hints n arguments v hv hkeep =>
      simp only [Clause.occurrences, List.mem_filterMap]
      constructor
      · rintro ⟨t, ht, hname⟩
        refine ⟨t, mem_eraseIdx_of_ne hv ht ?_, hname⟩
        rintro rfl
        obtain rfl : v = p := by simpa [Term.variableName?] using hname
        exact hkeep hp
      · rintro ⟨t, ht, hname⟩
        exact ⟨t, List.mem_of_mem_eraseIdx ht, hname⟩

theorem Keeps.mem_occurrences_iff {keep : List String} {x y : Clause} (h : Keeps keep x y) :
    ∀ p ∈ keep, (p ∈ x.occurrences ↔ p ∈ y.occurrences) := by
  intro p hp
  obtain h | h := h
  · rw [h.occurrences_eq]
  · exact h.mem_occurrences_iff hp

theorem Keeps.forget {keep : List String} {x y : Clause} (h : Keeps keep x y) : Keeps [] x y := by
  obtain h | h := h
  · exact .inl h
  · cases h with
    | internal builtin name hints hv _ => exact .inr (.internal builtin name hints hv (by simp))

/-- Parameters are used in what is left of a body if they were used in the body. -/
theorem mem_variablesOf_iff {parameters : List String} {xs ys : List Clause}
    (h : Reduces (Keeps parameters) xs ys) :
    ∀ p ∈ parameters, (p ∈ variablesOf xs ↔ p ∈ variablesOf ys) := by
  intro p hp
  rw [mem_variablesOf, mem_variablesOf]
  exact h.mem_occurrencesIn_iff fun hxy => hxy.mem_occurrences_iff p hp

/-! ## Factories that keep internal predicates -/

/-- The plain factory, with IRIs had in some other way. -/
def Factory.plainWith (createIri : String → Except Failure Iri)
    (resolveIri : Iri → String → Except Failure Iri) : Factory :=
  { Factory.plain with createIri := createIri, resolveIri := resolveIri }

/-- The factory without the check of parameters. -/
def Factory.unchecked (f : Factory) : Factory :=
  { f with rule := fun name parameters body => .ok ⟨name, parameters, body⟩ }

/-- The rules have the same parameters and use the same of them, and both or neither pass the check. -/
structure Rule.KeepsParameters (r r' : Rule) : Prop where
  name : r.name = r'.name
  parameters : r.parameters = r'.parameters
  uses : ∀ p ∈ r.parameters, (p ∈ variablesOf r.body ↔ p ∈ variablesOf r'.body)
  check : (∃ rule, Rule.create r.name r.parameters r.body = .ok rule) ↔
    ∃ rule, Rule.create r'.name r'.parameters r'.body = .ok rule

theorem Rule.Reduces.keepsParameters {r r' : Rule} (h : r.Reduces Keeps r') :
    r.KeepsParameters r' where
  name := h.name
  parameters := h.parameters
  uses := mem_variablesOf_iff h.body
  check := by
    rw [← h.name, ← h.parameters]
    exact (Rule.create_agree Keeps.mem_occurrences_iff h.body).isOk_iff

/-- A factory that keeps internal predicates admits any passes if it makes alike rules of what is left. -/
theorem Factory.admits_of_plain {f : Factory} (husual : f.IsUsual)
    (hinternal : f.internal = Factory.plain.internal)
    (hrule : ∀ {name parameters xs ys}, TopicQuery.Reduces (Keeps parameters) xs ys →
      Agree (Rule.Reduces Keeps) (f.rule name parameters xs) (f.rule name parameters ys)) :
    Admits f Keeps where
  usual := husual
  narrowed _ name _ _ arguments hsub hne := .inl (.builtin name arguments hsub hne)
  replaces keep := by
    intro builtin n internal hfor v hv hints arguments hargument
    obtain ⟨hfind, -, -⟩ := InternalPredicates.find?_of_findFor? hfor
    refine ⟨.internal internal.name hints [v] (arguments.eraseIdx n), ?_,
      .replace (.inr (.internal builtin internal.name hints hargument hv))⟩
    simp only [hinternal, Factory.plain, hfind]
  rule := hrule
  forget := Keeps.forget

section Plain

variable (createIri : String → Except Failure Iri) (resolveIri : Iri → String → Except Failure Iri)

theorem Factory.admits_plainWith : Admits (plainWith createIri resolveIri) Keeps :=
  admits_of_plain ⟨_, _, _, _, rfl⟩ rfl (Rule.create_agree Keeps.mem_occurrences_iff)

theorem Factory.admits_unchecked : Admits (plainWith createIri resolveIri).unchecked Keeps :=
  admits_of_plain ⟨_, _, _, _, rfl⟩ rfl fun h => ⟨rfl, rfl, h⟩

/--
Optimization by any passes does not change which queries are accepted. In
particular a parameter that the body of a rule uses is still used in what is left
of the body, whether parameters are checked or not.
-/
theorem Query.optimized_accepted_iff (plus : Bool) (passes : List Pass) (source : Source) :
    ((∃ q, Query.ofSource (.plainWith createIri resolveIri) ⟨plus, some []⟩ source = .ok q) ↔
      ∃ q, Query.ofSource (.plainWith createIri resolveIri)
        ⟨plus, some (passes.map Pass.name)⟩ source = .ok q) ∧
    Agree (fun q q' => List.Forall₂ Rule.KeepsParameters q.rules q'.rules)
      (Query.ofSource (Factory.unchecked (.plainWith createIri resolveIri)) ⟨plus, some []⟩ source)
      (Query.ofSource (Factory.unchecked (.plainWith createIri resolveIri))
        ⟨plus, some (passes.map Pass.name)⟩ source) := by
  have hchecked := Factory.admits_plainWith createIri resolveIri
  have hunchecked := Factory.admits_unchecked createIri resolveIri
  refine ⟨(Query.ofSource_agree hchecked plus passes source).isOk_iff, ?_⟩
  exact (Query.ofSource_agree hunchecked plus passes source).imp fun h =>
    h.rules.imp fun _ _ hr => hr.keepsParameters

end Plain

end TopicQuery
