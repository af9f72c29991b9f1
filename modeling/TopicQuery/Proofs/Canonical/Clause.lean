import TopicQuery.Proofs.Phrase.Document
import TopicQuery.Rendering.Style

/-!
Canonical phrases: the phrases that a rendered text consists of. A mark that says
what the prefix says already is left out, an IRI behind a mark becomes a quoted
reference, conditions begin with `from`, and numbers are plain numerals.
-/

namespace TopicQuery.Phrase

open Grammar

/-! ## Terms and calls -/

/-- A mark, unless it says what is known without it. -/
def Marker.kept (m : Option Marker) (kind : ReferenceKind) : Option Marker :=
  if m.map Marker.kind = some kind then none else m

theorem Marker.kindOr_kept (m : Option Marker) (kind : ReferenceKind) :
    kindOr (kept m kind) kind = kindOr m kind := by
  unfold kept
  split
  · next h => simp [kindOr, h]
  · rfl

theorem Marker.kept_eq_none_of_none (kind : ReferenceKind) : kept none kind = none := by
  simp [kept]

namespace Term

/-- The canonical form of a term. -/
def canonical (c : Scope) : Term → Term
  | atom kind value => .atom kind value
  | literal value datatype => .literal value datatype
  | qname marker name => .qname (Marker.kept marker (c.kind name.qualifier)) name
  | curie marker name => .curie (Marker.kept marker (bracketKind (c.kind name.qualifier))) name
  | iri marker value => .atom marker.atomKind value

@[simp] theorem leaf_canonical (c : Scope) (t : Term) : (t.canonical c).leaf c = t.leaf c := by
  cases t <;> simp [canonical, leaf, Marker.kindOr_kept]

theorem refers_canonical {c : Scope} {t : Term} (h : t.Refers c) : (t.canonical c).Refers c := by
  cases t with
  | literal value datatype => cases datatype <;> exact h
  | iri marker value => trivial
  | _ => exact h

theorem names_canonical {c : Scope} {t : Term} (h : t.Names c) : (t.canonical c).Names c := by
  cases t with
  | qname marker name =>
      refine ⟨h.1, fun hmodule => ?_⟩
      rw [h.2 hmodule]
      exact Marker.kept_eq_none_of_none _
  | iri marker value => cases marker <;> simp [canonical, Names, Marker.atomKind]
  | _ => exact h

theorem isPlain_canonical {c : Scope} {t : Term} (h : t.IsPlain) : (t.canonical c).IsPlain := by
  cases t with
  | qname marker name =>
      obtain rfl : marker = none := h
      exact Marker.kept_eq_none_of_none _
  | iri marker value => trivial
  | _ => exact h

/-- The mark of the name says what its prefix says already. -/
def MarksTwice (c : Scope) : Term → Prop
  | qname marker name => marker.map Marker.kind = some (c.kind name.qualifier)
  | _ => False

theorem form_canonical {c : Scope} {t : Term} (h : ¬t.MarksTwice c) :
    (t.canonical c).form c = t.form c := by
  cases t with
  | qname marker name =>
      have hkept : Marker.kept marker (c.kind name.qualifier) = marker := if_neg h
      rw [canonical, hkept]
  | iri marker value => cases marker <;> rfl
  | _ => rfl

theorem form_of_marksTwice {c : Scope} {t : Term} (h : t.MarksTwice c) :
    t.form c = .dynamic ∧ (t.canonical c).form c = .reference := by
  cases t with
  | qname marker name =>
      obtain ⟨m, rfl, hkind⟩ := Option.map_eq_some_iff.mp h
      have hkept : Marker.kept (some m) (c.kind name.qualifier) = none := if_pos h
      refine ⟨rfl, ?_⟩
      rw [canonical, hkept]
      cases m <;> simp [form, ← hkind, Marker.kind]
  | _ => exact absurd h id

end Term

/-- The canonical form of a role. -/
def Role.canonical (c : Scope) (r : Role) : Role := ⟨r.player.canonical c, r.type.canonical c⟩

namespace Call

/-- The canonical form of a call. -/
def canonical (c : Scope) : Call → Call
  | plain name arguments => .plain (name.canonical c) (arguments.map (Term.canonical c))
  | association name roles => .association (name.canonical c) (roles.map (Role.canonical c))

/-- Without its mark the call is told apart as something else. -/
def LosesMark (c : Scope) : Call → Prop
  | plain name arguments => name.MarksTwice c ∧ arguments.length ≠ 2
  | association _ _ => False

theorem forall_terms_association {name : Term} {roles : List Role} {p : Term → Prop} :
    (∀ t ∈ (association name roles).terms, p t) ↔ ∀ r ∈ roles, p r.player ∧ p r.type := by
  simp only [terms, List.mem_flatMap, List.mem_cons, List.not_mem_nil, or_false]
  grind

theorem refers_canonical {c : Scope} {call : Call} (h : call.Refers c) :
    (call.canonical c).Refers c := by
  cases call with
  | plain name arguments =>
      refine ⟨Term.names_canonical h.1, fun t ht => ?_, by simp [canonical]⟩
      obtain ⟨a, ha, rfl⟩ := List.mem_map.mp ht
      exact Term.refers_canonical (h.2.1 a ha)
  | association name roles =>
      have hroles := forall_terms_association.mp h.2.1
      refine ⟨Term.names_canonical h.1, forall_terms_association.mpr fun r' hr' => ?_,
        fun other hother => ?_⟩
      · obtain ⟨r, hr, rfl⟩ := List.mem_map.mp hr'
        exact ⟨Term.refers_canonical (hroles r hr).1, Term.refers_canonical (hroles r hr).2⟩
      · simp only [canonical, association.injEq, List.map_eq_nil_iff] at hother
        exact h.2.2 name (by rw [hother.2])

theorem isPlain_canonical {c : Scope} {call : Call} (h : call.IsPlain) :
    (call.canonical c).IsPlain := by
  cases call with
  | plain name arguments =>
      refine ⟨Term.isPlain_canonical h.1, fun t ht => ?_⟩
      obtain ⟨a, ha, rfl⟩ := List.mem_map.mp ht
      exact Term.isPlain_canonical (h.2 a ha)
  | association name roles =>
      have hroles := forall_terms_association.mp h.2
      refine ⟨Term.isPlain_canonical h.1, forall_terms_association.mpr fun r' hr' => ?_⟩
      obtain ⟨r, hr, rfl⟩ := List.mem_map.mp hr'
      exact ⟨Term.isPlain_canonical (hroles r hr).1, Term.isPlain_canonical (hroles r hr).2⟩

/-- A name without a mark cannot lose one. -/
theorem not_losesMark {c : Scope} (call : Call) (h : call.IsPlain) : ¬call.LosesMark c := by
  cases call with
  | association name roles => exact id
  | plain name arguments =>
      rintro ⟨htwice, -⟩
      cases name with
      | qname marker name =>
          obtain rfl : marker = none := h.1
          simp [Term.MarksTwice] at htwice
      | _ => exact htwice

theorem items_canonical (c : Scope) (arguments : List Term) :
    ((arguments.map (Term.canonical c)).map fun a => Outline.leaf (a.leaf c)) =
      arguments.map fun a => .leaf (a.leaf c) := by
  simp [Function.comp_def]

theorem calleeOutline_canonical (c : Scope) (name : Term) :
    calleeOutline c (name.canonical c) = calleeOutline c name := by
  simp [calleeOutline]

/-- A call keeps its outline in canonical form unless it loses its mark. -/
theorem outline_canonical_iff {c : Scope} {call : Call} :
    (call.canonical c).outline c = call.outline c ↔ ¬call.LosesMark c := by
  cases call with
  | association name roles =>
      simp [canonical, outline, LosesMark, calleeOutline, Role.canonical, Role.outline,
        Function.comp_def]
  | plain name arguments =>
      by_cases hmark : name.MarksTwice c
      · obtain ⟨hform, hcanonical⟩ := Term.form_of_marksTwice hmark
        by_cases htwo : arguments.length = 2
        · simp [canonical, outline, LosesMark, hform, hcanonical, callContainer, htwo,
            calleeOutline]
        · simp [canonical, outline, LosesMark, hform, hcanonical, callContainer, htwo, hmark]
      · simp only [canonical, outline, List.length_map, Term.form_canonical hmark, LosesMark, hmark,
          false_and, not_false_eq_true, items_canonical, calleeOutline_canonical]

end Call

/-! ## Clauses -/

mutual

/-- The canonical form of a clause. -/
def Clause.canonical (c : Scope) : Clause → Clause
  | .negation inner => .negation (inner.canonical c)
  | .alternatives branches => .alternatives (branches.canonical c)
  | .comparison operator left right =>
    .comparison operator (left.canonical c) (right.canonical c)
  | .call call => .call (call.canonical c)

/-- The canonical form of clauses. -/
def Clauses.canonical (c : Scope) : Clauses → Clauses
  | .last clause => .last (clause.canonical c)
  | .cons clause rest => .cons (clause.canonical c) (rest.canonical c)

/-- The canonical form of branches. -/
def Branches.canonical (c : Scope) : Branches → Branches
  | .last inner => .last (inner.canonical c)
  | .cons inner shortCircuit rest => .cons (inner.canonical c) shortCircuit (rest.canonical c)

end

mutual

/-- A call in the clause loses its mark. -/
def Clause.LosesMark (c : Scope) : Clause → Prop
  | .negation inner => inner.LosesMark c
  | .alternatives branches => branches.LosesMark c
  | .comparison _ _ _ => False
  | .call call => call.LosesMark c

/-- A call in the clauses loses its mark. -/
def Clauses.LosesMark (c : Scope) : Clauses → Prop
  | .last clause => clause.LosesMark c
  | .cons clause rest => clause.LosesMark c ∨ rest.LosesMark c

/-- A call in the branches loses its mark. -/
def Branches.LosesMark (c : Scope) : Branches → Prop
  | .last inner => inner.LosesMark c
  | .cons inner _ rest => inner.LosesMark c ∨ rest.LosesMark c

end

mutual

theorem Clause.refers_canonical {c : Scope} (x : Clause) (h : x.Refers c) :
    (x.canonical c).Refers c := by
  match x with
  | .negation inner => exact inner.refers_canonical h
  | .alternatives branches => exact branches.refers_canonical h
  | .comparison _ _ _ => exact ⟨Term.refers_canonical h.1, Term.refers_canonical h.2⟩
  | .call _ => exact Call.refers_canonical h

theorem Clauses.refers_canonical {c : Scope} (xs : Clauses) (h : xs.Refers c) :
    (xs.canonical c).Refers c := by
  match xs with
  | .last x => exact x.refers_canonical h
  | .cons x xs => exact ⟨x.refers_canonical h.1, xs.refers_canonical h.2⟩

theorem Branches.refers_canonical {c : Scope} (bs : Branches) (h : bs.Refers c) :
    (bs.canonical c).Refers c := by
  match bs with
  | .last inner => exact inner.refers_canonical h
  | .cons inner _ bs => exact ⟨inner.refers_canonical h.1, bs.refers_canonical h.2⟩

end

mutual

theorem Clause.isPlain_canonical {c : Scope} (x : Clause) (h : x.IsPlain) :
    (x.canonical c).IsPlain := by
  match x with
  | .negation inner => exact inner.isPlain_canonical h
  | .alternatives branches => exact branches.isPlain_canonical h
  | .comparison _ _ _ => exact absurd h id
  | .call _ => exact Call.isPlain_canonical h

theorem Clauses.isPlain_canonical {c : Scope} (xs : Clauses) (h : xs.IsPlain) :
    (xs.canonical c).IsPlain := by
  match xs with
  | .last x => exact x.isPlain_canonical h
  | .cons x xs => exact ⟨x.isPlain_canonical h.1, xs.isPlain_canonical h.2⟩

theorem Branches.isPlain_canonical {c : Scope} (bs : Branches) (h : bs.IsPlain) :
    (bs.canonical c).IsPlain := by
  match bs with
  | .last inner => exact inner.isPlain_canonical h
  | .cons inner _ bs => exact ⟨inner.isPlain_canonical h.1, bs.isPlain_canonical h.2⟩

end

mutual

/-- In plain tolog there are no marks to lose. -/
theorem Clause.not_losesMark {c : Scope} (x : Clause) (h : x.IsPlain) : ¬x.LosesMark c := by
  match x with
  | .negation inner => exact inner.not_losesMark h
  | .alternatives branches => exact branches.not_losesMark h
  | .comparison _ _ _ => exact id
  | .call call => exact call.not_losesMark h

theorem Clauses.not_losesMark {c : Scope} (xs : Clauses) (h : xs.IsPlain) : ¬xs.LosesMark c := by
  match xs with
  | .last x => exact x.not_losesMark h
  | .cons x xs => exact not_or.mpr ⟨x.not_losesMark h.1, xs.not_losesMark h.2⟩

theorem Branches.not_losesMark {c : Scope} (bs : Branches) (h : bs.IsPlain) :
    ¬bs.LosesMark c := by
  match bs with
  | .last inner => exact inner.not_losesMark h
  | .cons inner _ bs => exact not_or.mpr ⟨inner.not_losesMark h.1, bs.not_losesMark h.2⟩

end

mutual

/-- A clause keeps its outline in canonical form unless a call in it loses its mark. -/
theorem Clause.outline_canonical_iff {c : Scope} (x : Clause) :
    (x.canonical c).outline c = x.outline c ↔ ¬x.LosesMark c := by
  match x with
  | .negation inner =>
      simp [Clause.canonical, Clause.outline, Clause.LosesMark, inner.outlines_canonical_iff]
  | .alternatives branches =>
      simp [Clause.canonical, Clause.outline, Clause.LosesMark,
        branches.outlines_canonical_iff false]
  | .comparison operator left right =>
      simp [Clause.canonical, Clause.outline, Clause.LosesMark]
  | .call call =>
      simp only [Clause.canonical, Clause.outline, Clause.LosesMark, Call.outline_canonical_iff]

theorem Clauses.outlines_canonical_iff {c : Scope} (xs : Clauses) :
    (xs.canonical c).outlines c = xs.outlines c ↔ ¬xs.LosesMark c := by
  match xs with
  | .last x => simp [Clauses.canonical, Clauses.outlines, Clauses.LosesMark, x.outline_canonical_iff]
  | .cons x xs =>
      simp [Clauses.canonical, Clauses.outlines, Clauses.LosesMark, x.outline_canonical_iff,
        xs.outlines_canonical_iff]

theorem Branches.outlines_canonical_iff {c : Scope} (bs : Branches) (shortCircuit : Bool) :
    (bs.canonical c).outlines c shortCircuit = bs.outlines c shortCircuit ↔ ¬bs.LosesMark c := by
  match bs with
  | .last inner =>
      simp [Branches.canonical, Branches.outlines, Branches.LosesMark,
        inner.outlines_canonical_iff]
  | .cons inner next bs =>
      simp [Branches.canonical, Branches.outlines, Branches.LosesMark,
        inner.outlines_canonical_iff, bs.outlines_canonical_iff next]

end

end TopicQuery.Phrase
