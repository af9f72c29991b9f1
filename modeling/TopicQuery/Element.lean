import TopicQuery.Text.Blank

/-!
Elements: a query as a tree of named nodes with attributes, the form in which it
is optimized and written out. Elements can be compared as they are, or without
the marks that passes leave on them.
-/

namespace TopicQuery

/-- A node of the tree. Attributes and children keep their order. -/
structure Element where
  name : String
  attributes : List (String × String)
  text : Option String
  children : List Element
  deriving Repr, Inhabited

/-! ## Attributes -/

namespace Attributes

/-- The value of the first attribute with the given name. -/
def get? (name : String) : List (String × String) → Option String
  | [] => none
  | (n, v) :: rest => if n = name then some v else get? name rest

/-- Gives an attribute a value: the first one with that name, or else a new last one. -/
def put (name value : String) : List (String × String) → List (String × String)
  | [] => [(name, value)]
  | (n, v) :: rest => if n = name then (n, value) :: rest else (n, v) :: put name value rest

@[simp] theorem get?_put_self {name value : String} {attributes : List (String × String)} :
    get? name (put name value attributes) = some value := by
  induction attributes with
  | nil => simp [put, get?]
  | cons a rest ih =>
      obtain ⟨n, v⟩ := a
      by_cases h : n = name <;> simp [put, get?, h, ih]

@[simp] theorem get?_put_ne {name other value : String} {attributes : List (String × String)}
    (h : other ≠ name) : get? other (put name value attributes) = get? other attributes := by
  induction attributes with
  | nil => simp [put, get?, h.symm]
  | cons a rest ih =>
      obtain ⟨n, v⟩ := a
      by_cases hn : n = name
      · subst hn
        simp [put, get?, h.symm]
      · by_cases ho : n = other
        · subst ho
          simp [put, get?, hn]
        · simp [put, get?, hn, ho, ih]

end Attributes

namespace Element

/-- The value of an attribute. -/
def attr? (e : Element) (name : String) : Option String := Attributes.get? name e.attributes

/-- The element with an attribute given a value. -/
def setAttr (e : Element) (name value : String) : Element :=
  { e with attributes := Attributes.put name value e.attributes }

/-- The first child with the given name. -/
def child? (e : Element) (name : String) : Option Element := e.children.find? (·.name == name)

/-- The element stands for the variable with the given name. -/
def isVariable (e : Element) (name : String) : Bool :=
  e.name == "variable" && e.attr? "value" == some name

/-! ## Marks of passes -/

/-- The attribute that lists the passes that changed an element. -/
def optimizedByName : String := "optimized-by"

/-- The passes that changed an element, in order. -/
def optimizedBy (e : Element) : List String :=
  ((e.attr? optimizedByName).map Text.wordsOf).getD []

/-- Notes that a pass changed an element, unless that is noted already. -/
def annotate (e : Element) (pass : String) : Element :=
  match e.attr? optimizedByName with
  | none => e.setAttr optimizedByName pass
  | some passes =>
    if pass ∈ Text.wordsOf passes then e else e.setAttr optimizedByName (passes ++ " " ++ pass)

/-! ## Comparison -/

mutual

/-- The element with only those attributes, at every depth, whose names are kept. -/
def restrict (keep : String → Bool) : Element → Element
  | ⟨name, attributes, text, children⟩ =>
    ⟨name, attributes.filter (keep ·.1), text, restrictAll keep children⟩

/-- Each of some elements with only the attributes whose names are kept. -/
def restrictAll (keep : String → Bool) : List Element → List Element
  | [] => []
  | e :: es => restrict keep e :: restrictAll keep es

end

mutual

/-- The elements agree in everything but attributes whose names are not kept. -/
def agree (keep : String → Bool) : Element → Element → Bool
  | ⟨n₁, a₁, t₁, c₁⟩, ⟨n₂, a₂, t₂, c₂⟩ =>
    decide (n₁ = n₂) && decide (t₁ = t₂) && decide (a₁.filter (keep ·.1) = a₂.filter (keep ·.1)) &&
      agreeAll keep c₁ c₂

/-- The elements of two lists agree one by one. -/
def agreeAll (keep : String → Bool) : List Element → List Element → Bool
  | [], [] => true
  | e₁ :: es₁, e₂ :: es₂ => agree keep e₁ e₂ && agreeAll keep es₁ es₂
  | [], _ :: _ => false
  | _ :: _, [] => false

end

mutual

theorem agree_iff (keep : String → Bool) :
    ∀ a b : Element, agree keep a b = true ↔ restrict keep a = restrict keep b
  | ⟨_, _, _, c₁⟩, ⟨_, _, _, c₂⟩ => by
    simp only [agree, restrict, Bool.and_eq_true, decide_eq_true_eq, agreeAll_iff keep c₁ c₂,
      Element.mk.injEq]
    exact ⟨fun ⟨⟨⟨h₁, h₂⟩, h₃⟩, h₄⟩ => ⟨h₁, h₃, h₂, h₄⟩, fun ⟨h₁, h₃, h₂, h₄⟩ => ⟨⟨⟨h₁, h₂⟩, h₃⟩, h₄⟩⟩

theorem agreeAll_iff (keep : String → Bool) :
    ∀ a b : List Element, agreeAll keep a b = true ↔ restrictAll keep a = restrictAll keep b
  | [], [] => by simp [agreeAll, restrictAll]
  | e₁ :: es₁, e₂ :: es₂ => by
    simp [agreeAll, restrictAll, agree_iff keep e₁ e₂, agreeAll_iff keep es₁ es₂]
  | [], _ :: _ => by simp [agreeAll, restrictAll]
  | _ :: _, [] => by simp [agreeAll, restrictAll]

end

mutual

theorem restrict_true : ∀ e : Element, restrict (fun _ => true) e = e
  | ⟨_, _, _, children⟩ => by simp [restrict, restrictAll_true children]

theorem restrictAll_true : ∀ es : List Element, restrictAll (fun _ => true) es = es
  | [] => rfl
  | e :: es => by simp [restrictAll, restrict_true e, restrictAll_true es]

end

theorem agree_true_iff (a b : Element) : agree (fun _ => true) a b = true ↔ a = b := by
  simp [agree_iff, restrict_true]

instance : DecidableEq Element := fun a b =>
  decidable_of_iff (agree (fun _ => true) a b = true) (agree_true_iff a b)

/-- The elements agree but for the marks that passes leave. -/
def sameAs (a b : Element) : Bool := agree (· != optimizedByName) a b

/-! ## Traversal -/

mutual

/-- How many elements a tree has. -/
def size : Element → Nat
  | ⟨_, _, _, children⟩ => 1 + sizeAll children

/-- How many elements some trees have. -/
def sizeAll : List Element → Nat
  | [] => 0
  | e :: es => e.size + sizeAll es

end

theorem sizeAll_append (as bs : List Element) :
    sizeAll (as ++ bs) = sizeAll as + sizeAll bs := by
  induction as with
  | nil => simp [sizeAll]
  | cons a as ih => simp [sizeAll, ih, Nat.add_assoc]

/-- The waiting elements and all below them; children wait behind everything that waits already. -/
def visit : List Element → List Element
  | [] => []
  | e :: waiting => e :: visit (waiting ++ e.children)
termination_by waiting => sizeAll waiting
decreasing_by
  obtain ⟨_, _, _, children⟩ := e
  simp only [sizeAll_append, sizeAll, size]
  omega

/-- Every element of a tree, those nearer to the root first. -/
def descendants (e : Element) : List Element := visit [e]

end Element

end TopicQuery
