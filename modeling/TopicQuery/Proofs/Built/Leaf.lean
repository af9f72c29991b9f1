import TopicQuery.Proofs.Built.Number
import TopicQuery.Proofs.Built.Translation
import TopicQuery.Proofs.Optimized.Layers

/-!
What leaves stand for. A term leaf is read as a term of its kind, and where its
prefix is bound and its number is one, it can only fail to be read because an IRI is
not resolved or a prefixed name not expanded.
-/

namespace TopicQuery

/-! ## IRIs and prefixed names of a leaf -/

/-- The kind of reference that a one-token term is. -/
def AtomKind.reference? : AtomKind → Option ReferenceKind
  | .subjectIdentifier => some .subjectIdentifier
  | .subjectLocator => some .subjectLocator
  | .itemIdentifier => some .itemIdentifier
  | .iri => some .subjectIdentifier
  | _ => none

/-- The IRI of a leaf that is resolved against the base. -/
def Leaf.iri? : Leaf → Option String
  | .binding _ iri _ => some iri
  | .atom kind value => kind.reference?.map fun _ => value
  | .literal _ (.iri iri) => some iri
  | _ => none

/-- The prefixed name of a leaf that is expanded; a part of a module is only looked up. -/
def Leaf.expanded? : Leaf → Option QualifiedName
  | .curie _ name => some name
  | .qname .module _ => none
  | .qname _ name => some name
  | .literal _ (.qname name) => some name
  | _ => none

/-- The prefix that a leaf makes use of. -/
def Leaf.qualifier? : Leaf → Option String
  | .curie _ name => some name.qualifier
  | .qname _ name => some name.qualifier
  | .literal _ (.qname name) => some name.qualifier
  | _ => none

/-- If the leaf is a number, it is one that is read. -/
def Leaf.HasNumeral : Leaf → Prop
  | .atom kind value => Numeral kind value
  | _ => True

namespace Builder

variable {f : Factory} {b : Builder} {item : Leaf}

/-! ## Reading term leaves -/

/-- A leaf that is read by one step as a term. -/
theorem operand_of_step {α : Type} {r : Except Failure α} {g : α → Term}
    (h : b.operand? f item = (r >>= fun a => .ok (some (.term (g a))))) :
    b.operand f item = r.map fun a => .term (g a) := by
  rw [operand, h]
  cases r <;> rfl

theorem operand_atom (kind : AtomKind) (value : String) :
    b.operand f (.atom kind value) = (b.atom f kind value).map .term :=
  operand_of_step (g := id) rfl

theorem qualified_eq (kind : ReferenceKind) (name : QualifiedName) :
    b.qualified f kind name = (b.expand f name).map (.reference kind) := by
  rw [qualified]
  cases b.expand f name <;> rfl

theorem operand_curie (kind : ReferenceKind) (name : QualifiedName) :
    b.operand f (.curie kind name) =
      (b.expand f name).map fun iri => .term (.reference kind iri) := by
  apply operand_of_step
  rw [operand?, qualified_eq]
  cases b.expand f name <;> rfl

theorem operand_qname {kind : ReferenceKind} (hkind : kind ≠ .module) (name : QualifiedName) :
    b.operand f (.qname kind name) =
      (b.expand f name).map fun iri => .term (.reference kind iri) := by
  cases kind with
  | module => exact absurd rfl hkind
  | _ => exact operand_curie _ name

theorem operand_module (name : QualifiedName) :
    b.operand f (.qname .module name) =
      (b.binding name.qualifier).map fun found => .term (.module found.iri name.localPart) :=
  operand_of_step rfl

theorem operand_literal_iri (value iri : String) :
    b.operand f (.literal value (.iri iri)) =
      (f.resolveIri b.base iri).map fun iri => .term (.literal value iri) := by
  apply operand_of_step
  rw [operand?]
  cases f.resolveIri b.base iri <;> rfl

theorem operand_literal_qname (value : String) (name : QualifiedName) :
    b.operand f (.literal value (.qname name)) =
      (b.expand f name).map fun iri => .term (.literal value iri) := by
  apply operand_of_step
  rw [operand?]
  cases b.expand f name <;> rfl

theorem operand_reference {kind : AtomKind} {referred : ReferenceKind}
    (hkind : kind.reference? = some referred) (value : String) :
    b.operand f (.atom kind value) =
      (f.resolveIri b.base value).map fun iri => .term (.reference referred iri) := by
  apply operand_of_step
  cases kind <;> cases hkind <;>
    (rw [operand?, atom, reference]; cases f.resolveIri b.base value <;> rfl)

/-- An atom that is no reference is read if it is no bad number. -/
theorem exists_operand_atom {kind : AtomKind} {value : String} (hkind : kind.reference? = none)
    (hnumeral : Numeral kind value) :
    ∃ t, b.operand f (.atom kind value) = .ok (.term t) := by
  rw [operand_atom]
  cases kind with
  | integer =>
      obtain ⟨n, hn⟩ := hnumeral
      exact ⟨.integer n, by rw [atom, hn]; rfl⟩
  | decimal =>
      obtain ⟨n, hn⟩ := hnumeral
      exact ⟨.decimal n, by rw [atom, hn]; rfl⟩
  | subjectIdentifier => cases hkind
  | subjectLocator => cases hkind
  | itemIdentifier => cases hkind
  | iri => cases hkind
  | _ => exact ⟨_, rfl⟩

/-! ## What is read -/

theorem exists_of_map_ok {α : Type} {r : Except Failure α} {g : α → Operand} {x : Operand}
    (h : r.map g = .ok x) : ∃ a, r = .ok a ∧ x = g a := by
  cases r with
  | error failure => cases h
  | ok a => exact ⟨a, rfl, (Except.ok.inj h).symm⟩

/-- What a term leaf is read as: a variable or a part of a module only if the leaf says so. -/
structure ReadAs (item : Leaf) (t : Term) : Prop where
  variableName : ∀ v, t.variableName? = some v ↔ item = .atom .var v
  isModule : Operands.isModule t = true → ∃ name, item = .qname .module name

theorem readAs_atom {kind : AtomKind} {value : String} {t : Term}
    (h : b.atom f kind value = .ok t) : ReadAs (.atom kind value) t := by
  have hother : kind ≠ .var → t.variableName? = none → Operands.isModule t = false →
      ReadAs (.atom kind value) t := by
    intro hkind hname hmodule
    exact ⟨by simp [hname, hkind], by simp [hmodule]⟩
  have hreference : kind ≠ .var → ∀ referred, b.reference f referred value = .ok t →
      ReadAs (.atom kind value) t := by
    intro hkind referred hread
    obtain ⟨iri, -, hiri⟩ := ok_of_bind hread
    cases hiri
    exact hother hkind rfl rfl
  cases kind with
  | var =>
      cases h
      exact ⟨by simp [Term.variableName?], by simp [Operands.isModule]⟩
  | subjectIdentifier => exact hreference (by simp) _ h
  | subjectLocator => exact hreference (by simp) _ h
  | itemIdentifier => exact hreference (by simp) _ h
  | iri => exact hreference (by simp) _ h
  | integer =>
      rw [atom] at h
      split at h <;> cases h
      exact hother (by simp) rfl rfl
  | decimal =>
      rw [atom] at h
      split at h <;> cases h
      exact hother (by simp) rfl rfl
  | _ =>
      cases h
      exact hother (by simp) rfl rfl

/-- A term leaf is read as a term. -/
theorem operand_term (hitem : item.IsTerm) {x : Operand} (h : b.operand f item = .ok x) :
    ∃ t, x = .term t ∧ ReadAs item t := by
  cases item with
  | atom kind value =>
      rw [operand_atom] at h
      obtain ⟨t, ht, rfl⟩ := exists_of_map_ok h
      exact ⟨t, rfl, readAs_atom ht⟩
  | curie kind name =>
      rw [operand_curie] at h
      obtain ⟨iri, -, rfl⟩ := exists_of_map_ok h
      exact ⟨_, rfl, by simp [Term.variableName?], by simp [Operands.isModule]⟩
  | qname kind name =>
      by_cases hkind : kind = .module
      · subst hkind
        rw [operand_module] at h
        obtain ⟨found, -, rfl⟩ := exists_of_map_ok h
        exact ⟨_, rfl, by simp [Term.variableName?], fun _ => ⟨name, rfl⟩⟩
      · rw [operand_qname hkind] at h
        obtain ⟨iri, -, rfl⟩ := exists_of_map_ok h
        exact ⟨_, rfl, by simp [Term.variableName?], by simp [Operands.isModule]⟩
  | literal value datatype =>
      cases datatype with
      | iri iri =>
          rw [operand_literal_iri] at h
          obtain ⟨iri, -, rfl⟩ := exists_of_map_ok h
          exact ⟨_, rfl, by simp [Term.variableName?], by simp [Operands.isModule]⟩
      | qname name =>
          rw [operand_literal_qname] at h
          obtain ⟨iri, -, rfl⟩ := exists_of_map_ok h
          exact ⟨_, rfl, by simp [Term.variableName?], by simp [Operands.isModule]⟩
  | _ => exact absurd hitem id

/-! ## Why a leaf is not read -/

/-- An IRI of the leaf is not resolved, or its prefixed name is not expanded. -/
def Unread (f : Factory) (b : Builder) (item : Leaf) (failure : Failure) : Prop :=
  (∃ iri, item.iri? = some iri ∧ f.resolveIri b.base iri = .error failure) ∨
    ∃ name found, item.expanded? = some name ∧ b.binding name.qualifier = .ok found ∧
      f.createIri (found.iri.text ++ name.localPart) = .error failure

theorem map_error_iff {α : Type} {r : Except Failure α} {g : α → Operand} {failure : Failure} :
    r.map g = .error failure ↔ r = .error failure := by
  cases r <;> simp [Except.map]

theorem expand_error_iff {name : QualifiedName} {failure : Failure}
    (hbound : ∃ found, b.binding name.qualifier = .ok found) :
    b.expand f name = .error failure ↔ ∃ found, b.binding name.qualifier = .ok found ∧
      f.createIri (found.iri.text ++ name.localPart) = .error failure := by
  obtain ⟨found, hfound⟩ := hbound
  rw [expand, hfound, ok_bind]
  simp

/-- Where its prefix is bound and its number is one, only IRIs keep a leaf from being read. -/
theorem unread_iff (hitem : item.IsTerm) (hnumeral : item.HasNumeral)
    (hbound : ∀ qualifier, item.qualifier? = some qualifier →
      ∃ found, b.binding qualifier = .ok found) (failure : Failure) :
    b.Unread f item failure ↔ b.operand f item = .error failure := by
  cases item with
  | atom kind value =>
      cases hkind : kind.reference? with
      | none =>
          obtain ⟨t, ht⟩ := exists_operand_atom (f := f) (b := b) hkind hnumeral
          simp [Unread, Leaf.iri?, Leaf.expanded?, hkind, ht]
      | some referred =>
          rw [operand_reference hkind, map_error_iff]
          simp [Unread, Leaf.iri?, Leaf.expanded?, hkind]
  | curie kind name =>
      rw [operand_curie, map_error_iff, expand_error_iff (hbound _ rfl)]
      simp [Unread, Leaf.iri?, Leaf.expanded?]
  | qname kind name =>
      by_cases hkind : kind = .module
      · subst hkind
        obtain ⟨found, hfound⟩ := hbound _ rfl
        rw [operand_module, map_error_iff, hfound]
        simp [Unread, Leaf.iri?, Leaf.expanded?]
      · have hexpanded : (Leaf.qname kind name).expanded? = some name := by
          cases kind <;> first | rfl | exact absurd rfl hkind
        rw [operand_qname hkind, map_error_iff, expand_error_iff (hbound _ rfl)]
        simp [Unread, Leaf.iri?, hexpanded]
  | literal value datatype =>
      cases datatype with
      | iri iri =>
          rw [operand_literal_iri, map_error_iff]
          simp [Unread, Leaf.iri?, Leaf.expanded?]
      | qname name =>
          rw [operand_literal_qname, map_error_iff, expand_error_iff (hbound _ rfl)]
          simp [Unread, Leaf.iri?, Leaf.expanded?]
  | _ => exact absurd hitem id

end Builder

end TopicQuery
