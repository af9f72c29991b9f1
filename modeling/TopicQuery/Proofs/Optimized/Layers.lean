import TopicQuery.Pass.ClauseList
import TopicQuery.Proofs.Optimized.Meaning
import TopicQuery.Proofs.Replayed

/-!
Layers of clause lists. Below a condition or a body, lists of clauses stand in
negations and in branches; whatever else stands there holds no list. A change of
such a tree is an improvement if what the tree means is reduced by it.
-/

namespace TopicQuery

/-- Only IRIs, internal predicates and rules are made in a way of its own. -/
def Factory.IsUsual (f : Factory) : Prop :=
  ∃ createIri resolveIri internal rule,
    f = { createIri := createIri, resolveIri := resolveIri, internal := internal, rule := rule }

/-! ## Terms -/

/-- The leaf is a term. -/
def Leaf.IsTerm : Leaf → Prop
  | .atom _ _ => True
  | .curie _ _ => True
  | .qname _ _ => True
  | .literal _ _ => True
  | _ => False

/-- The names of the elements of terms. -/
def argumentNames : List String := AtomKind.all.map AtomKind.name ++ ["curie", "qname", "literal"]

namespace Leaf.IsTerm

variable {item : Leaf} (h : item.IsTerm)

include h

theorem name_mem : item.element.name ∈ argumentNames := by
  cases item with
  | atom kind value => cases kind <;> exact List.mem_of_elem_eq_true rfl
  | curie kind name => exact List.mem_of_elem_eq_true rfl
  | qname kind name => exact List.mem_of_elem_eq_true rfl
  | literal value datatype => exact List.mem_of_elem_eq_true rfl
  | _ => exact absurd h id

/-- The element of a term means what the term is read as. -/
theorem meaning_element {f : Factory} {read : Leaf → Except Failure Operand} :
    item.element.meaning f read = read item := by
  have htag : ∀ name ∈ argumentNames, Tag.ofName? name = none := by decide +kernel
  rw [Element.meaning_of_leaf (htag _ h.name_mem), Element.leaf_element item]
  rfl

theorem name_ne : item.element.name ≠ "name" := by
  have hname : ∀ name ∈ argumentNames, name ≠ "name" := by decide
  exact hname _ h.name_mem

end Leaf.IsTerm

namespace Element

/-- The element of a term; the name of a variable is one word. -/
def IsTerm (e : Element) : Prop :=
  ∃ item : Leaf, item.IsTerm ∧ e = item.element ∧ ∀ v, item = .atom .var v → Text.wordsOf v = [v]

/-- Term leaves are read as terms, and variables as themselves. -/
structure Reads (read : Leaf → Except Failure Operand) : Prop where
  var : ∀ v, read (.atom .var v) = .ok (.term (.var v))
  term : ∀ item : Leaf, item.IsTerm → ∀ o, read item = .ok o → ∃ t, o = .term t

/-! ## Trees of clauses -/

/-- No list of clauses and no directive is or lies in the element, and built-in predicates hold terms. -/
inductive Flat : Element → Prop
  | intro {e : Element} (base : e.name ≠ "base") (binding : e.name ≠ "namespace")
      (list : e.isClauseList = false)
      (arguments : e.name = "builtin-predicate" → ∀ c ∈ e.children, c.IsTerm)
      (children : ∀ c ∈ e.children, Flat c) : Flat e

/-- The element holds lists of clauses, or branches, or no list at all. -/
inductive Layered : Element → Prop
  | flat {e : Element} (h : Flat e) : Layered e
  | list {e : Element} (hlist : e.isClauseList = true ∨ e.name = "or")
      (children : ∀ c ∈ e.children, Layered c) : Layered e

/-- A change of children that changes none leaves the element as it is. -/
theorem map_children_eq {e : Element} {change : Element → Element}
    (h : ∀ c ∈ e.children, change c = c) : { e with children := e.children.map change } = e := by
  obtain ⟨name, attributes, text, children⟩ := e
  exact congrArg (Element.mk name attributes text)
    ((List.map_congr_left (g := id) h).trans (List.map_id _))

theorem isClauseList_iff (e : Element) :
    e.isClauseList = true ↔ e.name = "where" ∨ e.name = "body" ∨ e.name = "branch" ∨ e.name = "not" := by
  simp [isClauseList]

theorem Flat.not_list {e : Element} (h : e.Flat) : e.isClauseList = false := by
  cases h with
  | intro _ _ hlist _ _ => exact hlist

theorem Flat.members {e : Element} (h : e.Flat) : ∀ c ∈ e.children, c.Flat := by
  cases h with
  | intro _ _ _ _ hchildren => exact hchildren

theorem Flat.terms {e : Element} (h : e.Flat) (hname : e.name = "builtin-predicate") :
    ∀ c ∈ e.children, c.IsTerm := by
  cases h with
  | intro _ _ _ harguments _ => exact harguments hname

/-- A change that only goes on to the children where no list is leaves the element as it is. -/
theorem Flat.unchanged {change : Element → Element}
    (hchange : ∀ {e : Element}, e.isClauseList = false →
      change e = { e with children := e.children.map change }) {e : Element} (h : e.Flat) :
    change e = e := by
  induction h with
  | intro _ _ hlist _ _ ih => exact (hchange hlist).trans (map_children_eq ih)

theorem Flat.congr {a b : Element} (h : a.Flat) (hname : b.name = a.name)
    (hchildren : b.children = a.children) : b.Flat := by
  obtain ⟨hbase, hbinding, hlist, harguments, hflat⟩ := h
  refine ⟨hname ▸ hbase, hname ▸ hbinding, ?_, ?_, hchildren ▸ hflat⟩
  · rw [isClauseList, hname]
    exact hlist
  · rw [hname, hchildren]
    exact harguments

theorem Layered.congr {a b : Element} (h : a.Layered) (hname : b.name = a.name)
    (hchildren : b.children = a.children) : b.Layered := by
  cases h with
  | flat h => exact .flat (h.congr hname hchildren)
  | list hlist hlayered =>
      refine .list ?_ (hchildren ▸ hlayered)
      rw [isClauseList, hname]
      exact hlist

theorem Layered.annotate {e : Element} (h : e.Layered) (pass : String) : (e.annotate pass).Layered :=
  h.congr (by simp) (by simp)

theorem Layered.members {e : Element} (h : e.Layered) (hlist : e.isClauseList = true) :
    ∀ c ∈ e.children, c.Layered := by
  cases h with
  | flat h => exact absurd hlist (by simp [h.not_list])
  | list _ hchildren => exact hchildren

/-- A built-in predicate holds no list. -/
theorem Layered.flat_of_name {e : Element} (h : e.Layered) (hname : e.name = "builtin-predicate") :
    e.Flat := by
  cases h with
  | flat h => exact h
  | list hlist _ => simp [isClauseList, hname] at hlist

end Element

/-! ## Putting lists together -/

/-- The container is a list of clauses. -/
def Container.IsList : Container → Prop
  | .condition => True
  | .body => True
  | .negation => True
  | .branch _ => True
  | _ => False

section Complete

variable {f : Factory} {one : Clause → Clause → Prop} {os os' : List Operand}

namespace Operands

/-- A list of clauses is reduced if its clauses are. -/
theorem complete_list (hf : f.IsUsual) {c : Container} (hc : c.IsList)
    (h : Reduces one (clauses os) (clauses os')) :
    Agree (Operand.Reduces one) (complete f c os) (complete f c os') := by
  obtain ⟨_, _, _, _, rfl⟩ := hf
  cases c with
  | condition => exact .condition h
  | body => exact .body h
  | negation => exact .clause h.negation
  | branch shortCircuit => exact .branch (.mk shortCircuit h)
  | _ => exact absurd hc id

/-- Alternatives are reduced if their branches are. -/
theorem complete_alternatives (hf : f.IsUsual) (h : List.Forall₂ (Operand.Reduces one) os os') :
    Agree (Operand.Reduces one) (complete f .alternatives os) (complete f .alternatives os') := by
  obtain ⟨_, _, _, _, rfl⟩ := hf
  have hbranches := Operand.Reduces.branches h
  simp only [complete]
  generalize os.filterMap Operand.branch? = bs, os'.filterMap Operand.branch? = bs' at hbranches
  cases hbranches with
  | nil => trivial
  | cons hfirst hrest => exact .clause (Reduces.alternatives (.cons hfirst hrest))

end Operands

namespace Element

variable {read : Leaf → Except Failure Operand} {a b c : Element} {cs cs' : List Element}

/-- What a list of clauses means is put together from what its members mean. -/
theorem exists_container_of_list (h : a.isClauseList = true) :
    ∃ c : Container, c.IsList ∧ ∀ cs, ({ a with children := cs } : Element).meaning f read =
      (cs.mapM (meaning f read) >>= Operands.complete f c) := by
  have htag : ∀ (tag : Tag) {c : Container}, a.name = tag.name → c ≠ .document →
      (∀ cs, ({ a with children := cs } : Element).container tag = .ok c) →
      ∀ cs, ({ a with children := cs } : Element).meaning f read =
        (cs.mapM (meaning f read) >>= Operands.complete f c) := by
    intro tag c hname hc hcontainer cs
    exact meaning_of_container tag (by simp [hname]) (hcontainer cs) hc
  obtain h | h | h | h := (isClauseList_iff a).mp h
  · exact ⟨.condition, trivial, htag .condition h (by decide) fun _ => rfl⟩
  · exact ⟨.body, trivial, htag .body h (by decide) fun _ => rfl⟩
  · exact ⟨.branch (a.attr? "short-circuit" == some "true"), trivial,
      htag .branch h (by simp) fun _ => rfl⟩
  · exact ⟨.negation, trivial, htag .negation h (by decide) fun _ => rfl⟩

theorem meaning_alternatives (h : a.name = "or") (cs : List Element) :
    ({ a with children := cs } : Element).meaning f read =
      (cs.mapM (meaning f read) >>= Operands.complete f .alternatives) :=
  meaning_of_container .alternatives (by simp only [h]; rfl) rfl (by decide)

/-- What a built-in predicate means, once its kinds are known. -/
theorem meaning_builtin (hf : f.IsUsual) (hname : a.name = "builtin-predicate") {hints : List Hint}
    (hhints : a.hints = .ok hints) : a.meaning f read =
      (Except.orFailure Failure.ofTree (a.required "name") >>= fun name =>
        a.children.mapM (meaning f read) >>= fun os =>
          Operands.terms os >>= fun ts => .ok (.clause (.builtin name hints ts))) := by
  obtain ⟨_, _, _, _, rfl⟩ := hf
  rw [meaning_of_tag .builtin (by simp only [hname]; rfl), Element.container, hhints]
  cases a.required "name" <;> rfl

/-! ## Improvements -/

/-- What the second tree means is what the first one means, reduced. -/
structure Improves (f : Factory) (read : Leaf → Except Failure Operand)
    (one : Clause → Clause → Prop) (a b : Element) : Prop where
  layered : b.Layered
  agree : Agree (Operand.Reduces one) (a.meaning f read) (b.meaning f read)

namespace Improves

theorem refl (h : a.Layered) : Improves f read one a a := ⟨h, .refl .same _⟩

theorem trans (h : Improves f read one a b) (h' : Improves f read one b c) :
    Improves f read one a c := ⟨h'.layered, h.agree.trans h'.agree .trans⟩

/-- Marks are left on a tree by improvements. -/
theorem annotate (h : Improves f read one a b) (pass : String) :
    Improves f read one a (b.annotate pass) :=
  ⟨h.layered.annotate pass, by rw [meaning_annotate]; exact h.agree⟩

/-- A list is improved by other members that mean fewer clauses. -/
theorem of_clauses (hf : f.IsUsual) (hlist : a.isClauseList = true)
    (hlayered : ∀ c ∈ cs, c.Layered)
    (h : Agree (fun os os' => Reduces one (Operands.clauses os) (Operands.clauses os'))
      (a.children.mapM (meaning f read)) (cs.mapM (meaning f read))) :
    Improves f read one a { a with children := cs } := by
  refine ⟨.list (.inl hlist) hlayered, ?_⟩
  obtain ⟨c, hc, hmeaning⟩ := @exists_container_of_list f read a hlist
  obtain ⟨name, attributes, text, children⟩ := a
  rw [hmeaning cs, hmeaning children]
  exact h.bind fun os os' hos => Operands.complete_list hf hc hos

/-- A layer is improved by improving what lies in it. -/
theorem of_children (hf : f.IsUsual) (hlist : a.isClauseList = true ∨ a.name = "or")
    (h : List.Forall₂ (Improves f read one) a.children cs) :
    Improves f read one a { a with children := cs } := by
  have hlayered : ∀ c ∈ cs, c.Layered :=
    ((List.forall₂_and_left cs a.children).mp (h.flip.imp fun c b hbc => ⟨hbc.layered, hbc⟩)).1
  have hoperands := Agree.mapM (h.imp fun b c hbc => hbc.agree)
  obtain hlist | hname := hlist
  · exact of_clauses hf hlist hlayered (hoperands.imp Operand.Reduces.clauses)
  · refine ⟨.list (.inr hname) hlayered, ?_⟩
    obtain ⟨name, attributes, text, children⟩ := a
    have hmeaning := @meaning_alternatives f read ⟨name, attributes, text, children⟩ hname
    rw [hmeaning cs, hmeaning children]
    exact hoperands.bind fun os os' hos => Operands.complete_alternatives hf hos

end Improves

end Element

end Complete

end TopicQuery
