import Mathlib.Data.List.Perm.Basic
import TopicQuery.Conversion
import TopicQuery.Proofs.Agree

/-!
What an element means to the builder: the operand that its container is handed
when the events of the element have been taken in. Below the directives of a
document the operand of an element depends on the element alone and on what
leaves are read as, and never on marks of passes. Of lists of clauses it is told what is
left when they are put in another order, repetitions are dropped and single clauses are
replaced.
-/

namespace TopicQuery

/-! ## The operand of an element -/

namespace Element

mutual

/-- The operand of an element that lies in a container, where leaves are read as told. -/
def meaning (f : Factory) (read : Leaf → Except Failure Operand) :
    Element → Except Failure Operand
  | ⟨name, attributes, text, children⟩ =>
    let e : Element := ⟨name, attributes, text, children⟩
    match Tag.ofName? name with
    | some tag =>
      Except.orFailure Failure.ofTree (e.container tag) >>= fun c =>
        if c = .document then .error (.builder .nestedStart)
        else meanings f read children >>= Operands.complete f c
    | none =>
      Except.orFailure Failure.ofTree e.leaf >>= fun l =>
        if children.isEmpty then read l else .error (.ofTree (.leafWithChildren name))

/-- The operands of some elements. -/
def meanings (f : Factory) (read : Leaf → Except Failure Operand) :
    List Element → Except Failure (List Operand)
  | [] => .ok []
  | e :: es => do
    let first ← meaning f read e
    return first :: (← meanings f read es)

end

variable {f : Factory} {read : Leaf → Except Failure Operand}

theorem meanings_eq_mapM (es : List Element) : meanings f read es = es.mapM (meaning f read) := by
  induction es with
  | nil => rfl
  | cons e es ih => rw [meanings, ih, List.mapM_cons]

theorem meaning_of_tag {e : Element} (tag : Tag) (h : Tag.ofName? e.name = some tag) :
    e.meaning f read = (Except.orFailure Failure.ofTree (e.container tag) >>= fun c =>
      if c = .document then .error (.builder .nestedStart)
      else e.children.mapM (meaning f read) >>= Operands.complete f c) := by
  obtain ⟨name, attributes, text, children⟩ := e
  have h' : Tag.ofName? name = some tag := h
  rw [meaning]
  simp only [h', meanings_eq_mapM]

theorem meaning_of_container {e : Element} (tag : Tag) {c : Container}
    (h : Tag.ofName? e.name = some tag) (hcontainer : e.container tag = .ok c)
    (hc : c ≠ .document) :
    e.meaning f read = (e.children.mapM (meaning f read) >>= Operands.complete f c) := by
  rw [meaning_of_tag tag h, hcontainer, Except.orFailure, ok_bind, if_neg hc]

theorem meaning_of_leaf {e : Element} (h : Tag.ofName? e.name = none) :
    e.meaning f read = (Except.orFailure Failure.ofTree e.leaf >>= fun l =>
      if e.children.isEmpty then read l else .error (.ofTree (.leafWithChildren e.name))) := by
  obtain ⟨name, attributes, text, children⟩ := e
  have h' : Tag.ofName? name = none := h
  rw [meaning]
  simp only [h']

/-! ## Marks -/

/-- An attribute that is kept has the value it had. -/
theorem get?_filter (keep : String → Bool) {name : String} (hname : keep name = true)
    (attributes : List (String × String)) :
    Attributes.get? name (attributes.filter (keep ·.1)) = Attributes.get? name attributes := by
  induction attributes with
  | nil => rfl
  | cons a rest ih =>
      obtain ⟨n, v⟩ := a
      by_cases hn : n = name
      · subst hn
        simp [hname, Attributes.get?]
      · by_cases hkeep : keep n = true
        · simp [hkeep, Attributes.get?, hn, ih]
        · simp [hkeep, Attributes.get?, hn, ih]

/-- Two elements look the same to the builder, apart from their children. -/
structure LooksLike (a b : Element) : Prop where
  name : a.name = b.name
  text : a.text = b.text
  attr? : ∀ attr, attr ≠ optimizedByName → a.attr? attr = b.attr? attr

namespace LooksLike

variable {a b : Element} (h : LooksLike a b)

include h

theorem required {attr : String} (hattr : attr ≠ optimizedByName) :
    a.required attr = b.required attr := by
  rw [Element.required, Element.required, h.name, h.attr? attr hattr]

theorem container (tag : Tag) : a.container tag = b.container tag := by
  have hname : a.required "name" = b.required "name" := h.required (by decide)
  have hhints := h.attr? "hints" (by decide)
  have hremoved := h.attr? "removed-variables" (by decide)
  have hcut := h.attr? "short-circuit" (by decide)
  cases tag <;>
    simp only [Element.container, Element.hints, Element.comparison, hname, hhints, hremoved, hcut]

theorem leaf : a.leaf = b.leaf := by
  have hrequired : ∀ attr ∈ ["iri", "identifier", "kind", "value", "prefix", "localpart",
      "datatype-prefix", "datatype-localpart"], a.required attr = b.required attr := by
    intro attr hattr
    refine h.required ?_
    rintro rfl
    exact absurd hattr (by decide)
  have hdatatype := h.attr? "datatype-iri" (by decide)
  simp only [List.forall_mem_cons] at hrequired
  obtain ⟨hiri, hidentifier, hkind, hvalue, hprefix, hlocal, hdprefix, hdlocal, -⟩ := hrequired
  simp only [Element.leaf, Element.otherLeaf, Element.referenceKind, Element.reference,
    Element.datatype, Element.number, h.name, h.text, hiri, hidentifier, hkind, hvalue, hprefix,
    hlocal, hdprefix, hdlocal, hdatatype]

/-- What looks the same and has children that mean the same means the same. -/
theorem meaning_eq (hchildren : a.children.mapM (meaning f read) = b.children.mapM (meaning f read))
    (hempty : a.children.isEmpty = b.children.isEmpty) : a.meaning f read = b.meaning f read := by
  cases htag : Tag.ofName? b.name with
  | some tag =>
      rw [meaning_of_tag tag htag, meaning_of_tag tag (h.name ▸ htag), h.container, hchildren]
  | none =>
      rw [meaning_of_leaf htag, meaning_of_leaf (h.name ▸ htag), h.leaf, hempty, h.name]

end LooksLike

theorem looksLike_annotate (e : Element) (pass : String) : LooksLike (e.annotate pass) e := by
  have hset : ∀ value, LooksLike (e.setAttr optimizedByName value) e := fun value =>
    ⟨rfl, rfl, fun attr hattr => Attributes.get?_put_ne hattr⟩
  unfold Element.annotate
  split
  · exact hset pass
  · split
    · exact ⟨rfl, rfl, fun _ _ => rfl⟩
    · exact hset _

@[simp] theorem children_annotate (e : Element) (pass : String) :
    (e.annotate pass).children = e.children := by
  unfold Element.annotate
  split
  · rfl
  · split <;> rfl

@[simp] theorem name_annotate (e : Element) (pass : String) : (e.annotate pass).name = e.name :=
  (looksLike_annotate e pass).name

/-- Marks mean nothing. -/
@[simp] theorem meaning_annotate (e : Element) (pass : String) :
    (e.annotate pass).meaning f read = e.meaning f read :=
  (looksLike_annotate e pass).meaning_eq (by simp) (by simp)

mutual

theorem meaning_restrict (e : Element) :
    (e.restrict (· != optimizedByName)).meaning f read = e.meaning f read := by
  match e with
  | ⟨name, attributes, text, children⟩ =>
      have hlooks : LooksLike (restrict (· != optimizedByName) ⟨name, attributes, text, children⟩)
          ⟨name, attributes, text, children⟩ :=
        ⟨rfl, rfl, fun attr hattr => get?_filter (· != optimizedByName) (by simp [hattr]) _⟩
      have hempty : (restrictAll (· != optimizedByName) children).isEmpty = children.isEmpty := by
        cases children <;> rfl
      exact hlooks.meaning_eq (meaning_restrictAll children) hempty

theorem meaning_restrictAll (es : List Element) :
    (restrictAll (· != optimizedByName) es).mapM (meaning f read) = es.mapM (meaning f read) := by
  match es with
  | [] => rfl
  | e :: es =>
      rw [restrictAll, List.mapM_cons, List.mapM_cons, meaning_restrict e, meaning_restrictAll es]

end

/-- Elements that are the same but for marks mean the same. -/
theorem meaning_eq_of_sameAs {a b : Element} (h : a.sameAs b = true) :
    a.meaning f read = b.meaning f read := by
  rw [← meaning_restrict a, (agree_iff _ a b).mp h, meaning_restrict]

end Element

/-! ## Reduced lists of clauses -/

/-- What is left of a list of clauses; `one` says which clause may take the place of another. -/
inductive Reduces (one : Clause → Clause → Prop) : List Clause → List Clause → Prop
  | refl (xs : List Clause) : Reduces one xs xs
  | trans {xs ys zs : List Clause} : Reduces one xs ys → Reduces one ys zs → Reduces one xs zs
  | append {xs xs' ys ys' : List Clause} : Reduces one xs ys → Reduces one xs' ys' →
      Reduces one (xs ++ xs') (ys ++ ys')
  | reorder {xs ys : List Clause} : xs.Perm ys → Reduces one xs ys
  | repeated {xs ys : List Clause} : ys.Sublist xs → xs ⊆ ys → Reduces one xs ys
  | replace {x y : Clause} : one x y → Reduces one [x] [y]
  | negation {xs ys : List Clause} : Reduces one xs ys → Reduces one [.negation xs] [.negation ys]
  | branch {xs ys : List Clause} (front behind : List Branch) (shortCircuit : Bool) :
      Reduces one xs ys →
      Reduces one [.alternatives (front ++ .mk shortCircuit xs :: behind)]
        [.alternatives (front ++ .mk shortCircuit ys :: behind)]

namespace Reduces

variable {one two : Clause → Clause → Prop} {xs ys : List Clause}

theorem mono (h : Reduces one xs ys) (hone : ∀ {x y}, one x y → two x y) : Reduces two xs ys := by
  induction h with
  | refl xs => exact .refl xs
  | trans _ _ ih ih' => exact ih.trans ih'
  | append _ _ ih ih' => exact ih.append ih'
  | reorder h => exact .reorder h
  | repeated h h' => exact .repeated h h'
  | replace h => exact .replace (hone h)
  | negation _ ih => exact ih.negation
  | branch front behind shortCircuit _ ih => exact ih.branch front behind shortCircuit

/-- Of clauses something is left, and of none nothing. -/
theorem eq_nil_iff (h : Reduces one xs ys) : xs = [] ↔ ys = [] := by
  induction h with
  | refl xs => rfl
  | trans _ _ ih ih' => exact ih.trans ih'
  | append _ _ ih ih' => simp [ih, ih']
  | reorder h =>
      constructor
      · rintro rfl
        exact h.nil_eq.symm
      · rintro rfl
        exact h.eq_nil
  | repeated h h' =>
      constructor
      · rintro rfl
        exact List.sublist_nil.mp h
      · rintro rfl
        exact List.eq_nil_of_subset_nil h'
  | replace _ => simp
  | negation _ _ => simp
  | branch _ _ _ _ _ => simp

theorem cons {x y : Clause} (h : Reduces one [x] [y]) (h' : Reduces one xs ys) :
    Reduces one (x :: xs) (y :: ys) := h.append h'

/-! ## Variables -/

theorem occurrencesIn_append (xs ys : List Clause) :
    occurrencesIn (xs ++ ys) = occurrencesIn xs ++ occurrencesIn ys := by
  induction xs with
  | nil => rfl
  | cons x xs ih => simp [occurrencesIn, ih]

theorem mem_occurrencesIn {v : String} : v ∈ occurrencesIn xs ↔ ∃ x ∈ xs, v ∈ x.occurrences := by
  induction xs with
  | nil => simp [occurrencesIn]
  | cons x xs ih => simp [occurrencesIn, ih]

theorem occurrencesInBranches_append (bs bs' : List Branch) :
    occurrencesInBranches (bs ++ bs') = occurrencesInBranches bs ++ occurrencesInBranches bs' := by
  induction bs with
  | nil => rfl
  | cons b bs ih =>
      obtain ⟨shortCircuit, clauses⟩ := b
      simp [occurrencesInBranches, ih]

/-- A variable that no replacement takes away or brings in occurs after if it did before. -/
theorem mem_occurrencesIn_iff {v : String}
    (hone : ∀ {x y}, one x y → (v ∈ x.occurrences ↔ v ∈ y.occurrences)) (h : Reduces one xs ys) :
    v ∈ occurrencesIn xs ↔ v ∈ occurrencesIn ys := by
  induction h with
  | refl xs => rfl
  | trans _ _ ih ih' => exact ih.trans ih'
  | append _ _ ih ih' => simp [occurrencesIn_append, ih, ih']
  | reorder h => simp [mem_occurrencesIn, h.mem_iff]
  | repeated h h' =>
      rw [mem_occurrencesIn, mem_occurrencesIn]
      exact ⟨fun ⟨x, hx, hv⟩ => ⟨x, h' hx, hv⟩, fun ⟨x, hx, hv⟩ => ⟨x, h.subset hx, hv⟩⟩
  | replace h => simpa [occurrencesIn] using hone h
  | negation _ ih => simpa [occurrencesIn, Clause.occurrences] using ih
  | branch front behind shortCircuit _ ih =>
      simp [occurrencesIn, Clause.occurrences, occurrencesInBranches_append, occurrencesInBranches,
        ih]

end Reduces

/-! ## Branches -/

/-- A branch with what is left of its clauses. -/
inductive Branch.Reduces (one : Clause → Clause → Prop) : Branch → Branch → Prop
  | mk (shortCircuit : Bool) {xs ys : List Clause} : TopicQuery.Reduces one xs ys →
      Branch.Reduces one (.mk shortCircuit xs) (.mk shortCircuit ys)

/-- All branches of alternatives may be reduced at once. -/
theorem Reduces.alternatives {one : Clause → Clause → Prop} {bs bs' : List Branch}
    (h : List.Forall₂ (Branch.Reduces one) bs bs') :
    Reduces one [.alternatives bs] [.alternatives bs'] := by
  have hfront : ∀ front : List Branch,
      Reduces one [.alternatives (front ++ bs)] [.alternatives (front ++ bs')] := by
    induction h with
    | nil => exact fun front => .refl _
    | @cons b b' bs bs' hfirst _ ih =>
        intro front
        cases hfirst with
        | @mk shortCircuit xs ys hlist =>
            refine (hlist.branch front bs shortCircuit).trans ?_
            have hrest := ih (front ++ [Branch.mk shortCircuit ys])
            rw [List.append_assoc, List.append_assoc] at hrest
            exact hrest
  exact hfront []

/-! ## Operands -/

/-- An operand of a clause list or of alternatives with what is left of its clauses. -/
inductive Operand.Reduces (one : Clause → Clause → Prop) : Operand → Operand → Prop
  | same (o : Operand) : Operand.Reduces one o o
  | clause {x y : Clause} : TopicQuery.Reduces one [x] [y] →
      Operand.Reduces one (.clause x) (.clause y)
  | condition {xs ys : List Clause} : TopicQuery.Reduces one xs ys →
      Operand.Reduces one (.condition xs) (.condition ys)
  | body {xs ys : List Clause} : TopicQuery.Reduces one xs ys →
      Operand.Reduces one (.body xs) (.body ys)
  | branch {b b' : Branch} : b.Reduces one b' → Operand.Reduces one (.branch b) (.branch b')

namespace Operand.Reduces

variable {one : Clause → Clause → Prop} {os os' : List Operand}

theorem trans {o o' o'' : Operand} (h : o.Reduces one o') (h' : o'.Reduces one o'') :
    o.Reduces one o'' := by
  cases h with
  | same o => exact h'
  | clause h =>
      cases h' with
      | same o => exact .clause h
      | clause h' => exact .clause (h.trans h')
  | condition h =>
      cases h' with
      | same o => exact .condition h
      | condition h' => exact .condition (h.trans h')
  | body h =>
      cases h' with
      | same o => exact .body h
      | body h' => exact .body (h.trans h')
  | branch h =>
      cases h' with
      | same o => exact .branch h
      | branch h' =>
          obtain ⟨shortCircuit, h⟩ := h
          cases h' with
          | mk _ h' => exact .branch (.mk shortCircuit (h.trans h'))

/-- The clauses among the operands are reduced one by one. -/
theorem clauses (h : List.Forall₂ (Operand.Reduces one) os os') :
    TopicQuery.Reduces one (Operands.clauses os) (Operands.clauses os') := by
  induction h with
  | nil => exact .refl _
  | @cons o o' os os' hfirst _ ih =>
      cases hfirst with
      | same =>
          cases o with
          | clause x => exact (TopicQuery.Reduces.refl [x]).cons ih
          | _ => exact ih
      | clause h => exact h.cons ih
      | condition _ => exact ih
      | body _ => exact ih
      | branch _ => exact ih

/-- The branches among the operands are reduced one by one. -/
theorem branches (h : List.Forall₂ (Operand.Reduces one) os os') :
    List.Forall₂ (Branch.Reduces one) (os.filterMap Operand.branch?)
      (os'.filterMap Operand.branch?) := by
  induction h with
  | nil => exact .nil
  | @cons o o' os os' hfirst _ ih =>
      cases hfirst with
      | same =>
          cases o with
          | branch b =>
              obtain ⟨shortCircuit, xs⟩ := b
              exact .cons (.mk shortCircuit (.refl xs)) ih
          | _ => exact ih
      | branch h => exact .cons h ih
      | clause _ => exact ih
      | condition _ => exact ih
      | body _ => exact ih

end Operand.Reduces

end TopicQuery
