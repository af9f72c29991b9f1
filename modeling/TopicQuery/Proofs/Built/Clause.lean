import TopicQuery.Proofs.Built.Leaf
import TopicQuery.Proofs.Built.Operands
import TopicQuery.Proofs.Optimized.Parsed

/-!
Clauses of a text are built into what their outlines are translated into, and they
use the variables that are reported in them. Nothing fails in a clause but the
reading of a term.
-/

namespace TopicQuery

open Outline

/-! ## Lists of outlines and of what they are translated into -/

section Lists

variable {α β : Type}

theorem mapM_of_forall₂ {f : α → Option β} {xs : List α} {ys : List β}
    (h : List.Forall₂ (fun x y => f x = some y) xs ys) : xs.mapM f = some ys := by
  induction h with
  | nil => rfl
  | cons hfirst _ ih =>
      rw [List.mapM_cons, hfirst, ih]
      rfl

/-- What members have in common with those that they are related to, some of them have. -/
theorem exists_mem_iff_of_forall₂ {R : α → β → Prop} {p : α → Prop} {q : β → Prop} {xs : List α}
    {ys : List β} (h : List.Forall₂ R xs ys) (hR : ∀ x y, R x y → (p x ↔ q y)) :
    (∃ x ∈ xs, p x) ↔ ∃ y ∈ ys, q y := by
  induction h with
  | nil => simp
  | cons hfirst _ ih =>
      rw [List.exists_mem_cons_iff, List.exists_mem_cons_iff, hR _ _ hfirst, ih]

theorem filterMap_inject (select : Operand → Option α) {inject : α → Operand}
    (h : ∀ a, select (inject a) = some a) (as : List α) :
    (as.map inject).filterMap select = as := by
  rw [List.filterMap_map, show select ∘ inject = some from funext h, List.filterMap_some]

theorem filterMap_other (select : Operand → Option α) {inject : β → Operand}
    (h : ∀ a, select (inject a) = none) (bs : List β) : (bs.map inject).filterMap select = [] := by
  rw [List.filterMap_map, List.filterMap_eq_nil_iff]
  exact fun a _ => h a

end Lists

theorem Operands.clauses_clauses (xs : List Clause) : clauses (xs.map .clause) = xs :=
  filterMap_inject Operand.clause? (fun _ => rfl) xs

/-! ## Terms -/

/-- The leaf is read alike whatever the text settles. -/
def Leaf.IsSure : Leaf → Prop
  | .atom .var _ => True
  | .count _ => True
  | .order _ _ => True
  | .limit _ => True
  | .offset _ => True
  | .content _ => True
  | _ => False

namespace Phrase

/-- The leaf is one that phrases of some tokens are reported as. -/
def Reports (c : Scope) (ts : List Token) (item : Leaf) : Prop :=
  item.IsSure ∨ ∃ t : Term, item = t.leaf c ∧ (t.Refers c ∨ t.Names c) ∧ t.tokens ⊆ ts

/-- The flaws of leaves are what the builder does not read them for. -/
def Explains (f : Factory) (b : Builder) (flaw : Leaf → Failure → Prop) (c : Scope)
    (ts : List Token) : Prop :=
  ∀ item, Reports c ts item → ∀ failure, flaw item failure ↔ b.operand f item = .error failure

theorem Explains.of_subset {f : Factory} {b : Builder} {flaw : Leaf → Failure → Prop} {c : Scope}
    {ts us : List Token} (h : Explains f b flaw c us) (hsub : ts ⊆ us) :
    Explains f b flaw c ts := by
  intro item hitem
  apply h
  obtain hsure | ⟨t, heq, ht, hts⟩ := hitem
  · exact .inl hsure
  · exact .inr ⟨t, heq, ht, List.Subset.trans hts hsub⟩

/-- The outline is a term, and one that can be an argument. -/
structure IsArgument (f : Factory) (b : Builder) (o : Outline) (t : TopicQuery.Term) : Prop where
  translated : o.term? (b.term? f) = some t
  isModule : Operands.isModule t = false
  uses : ∀ v, t.variableName? = some v ↔ .leaf (.atom .var v) ∈ o.events

/-- The outline is a term that names a predicate. -/
structure IsName (f : Factory) (b : Builder) (o : Outline) (t : TopicQuery.Term) : Prop where
  translated : o.term? (b.term? f) = some t
  unused : ∀ v, .leaf (.atom .var v) ∉ o.events

variable {f : Factory} {b : Builder} {flaw : Leaf → Failure → Prop} {c : Scope} {ts : List Token}

theorem Term.leaf_ne_module {t : Term} (ht : t.Refers c) (name : QualifiedName) :
    t.leaf c ≠ .qname .module name := by
  cases t with
  | qname marker other =>
      intro heq
      obtain ⟨hkind, -⟩ := Leaf.qname.inj heq
      cases marker with
      | none => exact ht.2 hkind
      | some marker => cases marker <;> cases hkind
  | iri marker value => cases marker <;> simp [Term.leaf]
  | _ => simp [Term.leaf]

theorem Term.leaf_ne_var {t : Term} (ht : t.Names c) (v : String) : t.leaf c ≠ .atom .var v := by
  cases t with
  | atom kind value =>
      intro heq
      obtain ⟨rfl, -⟩ := Leaf.atom.inj heq
      simp [Term.Names] at ht
  | iri marker value => cases marker <;> simp [Term.leaf, Marker.atomKind]
  | _ => simp [Term.leaf]

theorem term?_of_operand {item : Leaf} {t : TopicQuery.Term}
    (h : b.operand f item = .ok (.term t)) : (Outline.leaf item).term? (b.term? f) = some t := by
  rw [term?, Builder.term?, h]
  rfl

theorem builds_argument {t : Term} (h : Explains f b flaw c ts) (ht : t.Refers c)
    (hts : t.tokens ⊆ ts) :
    Builds f (b.operand f) flaw (Holds .term (IsArgument f b) (.leaf (t.leaf c)))
      (.leaf (t.leaf c)) := by
  refine builds_leaf (h _ (.inr ⟨t, rfl, .inl ht, hts⟩)) fun x hx => ?_
  obtain ⟨read, rfl, hread⟩ := Builder.operand_term (isTerm_term t) hx
  refine ⟨read, rfl, term?_of_operand hx, ?_, fun v => ?_⟩
  · cases hmodule : Operands.isModule read with
    | false => rfl
    | true =>
        obtain ⟨name, heq⟩ := hread.isModule hmodule
        exact absurd heq (Term.leaf_ne_module ht name)
  · rw [hread.variableName v]
    simp [events, eq_comm]

theorem builds_name {t : Term} (h : Explains f b flaw c ts) (ht : t.Names c)
    (hts : t.tokens ⊆ ts) :
    Builds f (b.operand f) flaw (Holds .term (IsName f b) (.leaf (t.leaf c)))
      (.leaf (t.leaf c)) := by
  refine builds_leaf (h _ (.inr ⟨t, rfl, .inr ht, hts⟩)) fun x hx => ?_
  obtain ⟨read, rfl, hread⟩ := Builder.operand_term (isTerm_term t) hx
  refine ⟨read, rfl, term?_of_operand hx, fun v hv => ?_⟩
  exact Term.leaf_ne_var ht v (Event.leaf.inj (List.mem_singleton.mp hv)).symm

/-! ## Lists of terms -/

section Arguments

variable {os : List Outline} {as : List TopicQuery.Term}

theorem mapM_arguments (h : List.Forall₂ (IsArgument f b) os as) :
    os.mapM (Outline.term? (b.term? f)) = some as :=
  mapM_of_forall₂ (h.imp fun _ _ ha => ha.translated)

theorem uses_arguments (h : List.Forall₂ (IsArgument f b) os as) (v : String) :
    v ∈ as.filterMap Term.variableName? ↔ .leaf (.atom .var v) ∈ eventsAll os := by
  rw [List.mem_filterMap, mem_eventsAll]
  exact (exists_mem_iff_of_forall₂ h fun o t ha => (ha.uses v).symm).symm

/-- Arguments are what a container takes for its terms, whatever else is no term. -/
theorem terms_arguments (h : List.Forall₂ (IsArgument f b) os as) (front : List Operand)
    (hfront : front.filterMap Operand.term? = []) :
    Operands.terms (front ++ as.map .term) = .ok as := by
  have hmodules : as.any Operands.isModule = false := by
    rw [List.any_eq_false]
    intro t ht
    obtain ⟨o, -, ho⟩ := exists_of_mem_forall₂ h.flip ht
    simp [ho.isModule]
  have hterms : (as.map Operand.term).filterMap Operand.term? = as :=
    filterMap_inject Operand.term? (fun _ => rfl) as
  rw [Operands.terms, List.filterMap_append, hfront, hterms]
  simp [hmodules]

theorem buildsAll_arguments {arguments : List Term} (h : Explains f b flaw c ts)
    (hrefers : ∀ t ∈ arguments, t.Refers c) (hts : ∀ t ∈ arguments, t.tokens ⊆ ts) :
    BuildsAll f (b.operand f) flaw
      (fun xs => ∃ as, xs = as.map .term ∧
        List.Forall₂ (IsArgument f b) (arguments.map fun t => .leaf (t.leaf c)) as)
      (arguments.map fun t => .leaf (t.leaf c)) := by
  refine (buildsAll_forall fun o ho => ?_).imp fun xs hxs => exists_of_holds hxs
  obtain ⟨t, ht, rfl⟩ := List.mem_map.mp ho
  exact builds_argument h (hrefers t ht) (hts t ht)

end Arguments

/-! ## Roles -/

/-- The outline is a role, which uses the variables that are reported in it. -/
structure IsRole (f : Factory) (b : Builder) (o : Outline) (r : TopicQuery.Role) : Prop where
  translated : o.role? (b.term? f) = some r
  uses : ∀ v, v ∈ [r.player, r.roleType].filterMap Term.variableName? ↔
    .leaf (.atom .var v) ∈ o.events

/-- A container that amounts to the only term in it. -/
theorem builds_part (k : Container) (inject : TopicQuery.Term → Operand) {item : Leaf}
    {law : Outline → TopicQuery.Term → Prop}
    (h : Builds f (b.operand f) flaw (Holds .term law (.leaf item)) (.leaf item))
    (hk : ∀ a, law (.leaf item) a → Operands.complete f k [.term a] = .ok (inject a)) :
    Builds f (b.operand f) flaw (fun x => ∃ a, x = inject a ∧ law (.leaf item) a)
      (.within k [.leaf item]) := by
  have hinner : BuildsAll f (b.operand f) flaw (fun xs => ∃ a, xs = [.term a] ∧ law (.leaf item) a)
      [.leaf item] := by
    refine buildsAll_singleton h ?_
    rintro x ⟨a, rfl, ha⟩
    exact ⟨a, rfl, ha⟩
  refine builds_within hinner ?_
  rintro xs ⟨a, rfl, ha⟩
  exact ⟨inject a, hk a ha, a, rfl, ha⟩

theorem singleTerm_argument {o : Outline} {a : TopicQuery.Term} (h : IsArgument f b o a)
    (tag : Tag) : Operands.singleTerm tag [.term a] = .ok a := by
  simp [Operands.singleTerm, Operands.terms, Operand.term?, h.isModule, bind, Except.bind, pure,
    Except.pure]

/-- Two parts one behind the other, with an argument each. -/
theorem buildsAll_parts {k k' : Container} {inject inject' : TopicQuery.Term → Operand}
    {t t' : Term} (h : Explains f b flaw c ts) (ht : t.Refers c) (ht' : t'.Refers c)
    (hts : t.tokens ⊆ ts) (hts' : t'.tokens ⊆ ts)
    (hk : ∀ a, IsArgument f b (.leaf (t.leaf c)) a →
      Operands.complete f k [.term a] = .ok (inject a))
    (hk' : ∀ a, IsArgument f b (.leaf (t'.leaf c)) a →
      Operands.complete f k' [.term a] = .ok (inject' a)) :
    BuildsAll f (b.operand f) flaw
      (fun xs => ∃ a a', xs = [inject a, inject' a'] ∧ IsArgument f b (.leaf (t.leaf c)) a ∧
        IsArgument f b (.leaf (t'.leaf c)) a')
      [.within k [.leaf (t.leaf c)], .within k' [.leaf (t'.leaf c)]] := by
  have hsecond : BuildsAll f (b.operand f) flaw
      (fun xs => ∃ a', xs = [inject' a'] ∧ IsArgument f b (.leaf (t'.leaf c)) a')
      [.within k' [.leaf (t'.leaf c)]] := by
    refine buildsAll_singleton (builds_part k' inject' (builds_argument h ht' hts') hk') ?_
    rintro x ⟨a', rfl, ha'⟩
    exact ⟨a', rfl, ha'⟩
  refine buildsAll_cons (builds_part k inject (builds_argument h ht hts) hk) hsecond ?_
  rintro x xs ⟨a, rfl, ha⟩ ⟨a', rfl, ha'⟩
  exact ⟨a, a', rfl, ha, ha'⟩

/-- A container with two such parts in it uses what they use. -/
theorem uses_parts {k k' outer : Container} {t t' : Term} {a a' : TopicQuery.Term}
    (ha : IsArgument f b (.leaf (t.leaf c)) a) (ha' : IsArgument f b (.leaf (t'.leaf c)) a')
    (v : String) :
    v ∈ [a, a'].filterMap Term.variableName? ↔
      .leaf (.atom .var v) ∈ (Outline.within outer
        [.within k [.leaf (t.leaf c)], .within k' [.leaf (t'.leaf c)]]).events := by
  rw [uses_arguments (.cons ha (.cons ha' .nil)) v]
  simp [eventsAll, events]

theorem builds_role {r : Role} (h : Explains f b flaw c ts) (hplayer : r.player.Refers c)
    (htype : r.type.Refers c) (hts : r.tokens ⊆ ts) :
    Builds f (b.operand f) flaw (Holds .role (IsRole f b) (r.outline c)) (r.outline c) := by
  have hplayerTokens : r.player.tokens ⊆ ts := fun u hu => hts (by simp [Role.tokens, hu])
  have htypeTokens : r.type.tokens ⊆ ts := fun u hu => hts (by simp [Role.tokens, hu])
  have hparts : BuildsAll f (b.operand f) flaw
      (fun xs => ∃ a a', xs = [.player a, .roleType a'] ∧
        IsArgument f b (.leaf (r.player.leaf c)) a ∧ IsArgument f b (.leaf (r.type.leaf c)) a')
      [.within .player [.leaf (r.player.leaf c)], .within .roleType [.leaf (r.type.leaf c)]] := by
    refine buildsAll_parts h hplayer htype hplayerTokens htypeTokens (fun a ha => ?_) fun a ha => ?_
    · rw [Operands.complete, singleTerm_argument ha]
      rfl
    · rw [Operands.complete, singleTerm_argument ha]
      rfl
  refine builds_within hparts ?_
  rintro xs ⟨player, type, rfl, hp, hq⟩
  refine ⟨.role ⟨player, type⟩, rfl, ⟨player, type⟩, rfl, ?_, uses_parts hp hq⟩
  simp [Role.outline, role?, hp.translated, hq.translated]

/-! ## Calls -/

/-- The outline is a clause, which uses the variables that are reported in it. -/
structure IsClause (f : Factory) (b : Builder) (o : Outline) (x : TopicQuery.Clause) : Prop where
  translated : o.clause? (b.term? f) = some x
  uses : ∀ v, v ∈ x.occurrences ↔ .leaf (.atom .var v) ∈ o.events

theorem builds_callee {name : Term} (h : Explains f b flaw c ts) (hname : name.Names c)
    (hts : name.tokens ⊆ ts) :
    Builds f (b.operand f) flaw (fun x => ∃ a, x = .name a ∧ IsName f b (.leaf (name.leaf c)) a)
      (Call.calleeOutline c name) :=
  builds_part .callee .name (builds_name h hname hts) fun _ _ => rfl

/-- A name has no variable in it. -/
theorem uses_called {k : Container} {name : Term} {a : TopicQuery.Term} {os : List Outline}
    (ha : IsName f b (.leaf (name.leaf c)) a) (v : String) :
    .leaf (.atom .var v) ∈ (Outline.within k (Call.calleeOutline c name :: os)).events ↔
      .leaf (.atom .var v) ∈ eventsAll os := by
  have hunused := ha.unused v
  simp only [events, List.mem_singleton] at hunused
  simp [Call.calleeOutline, eventsAll, events, hunused]

/-- The outline is a branch, which uses the variables that are reported in it. -/
structure IsBranch (f : Factory) (b : Builder) (o : Outline) (x : TopicQuery.Branch) : Prop where
  translated : o.branch? (b.term? f) = some x
  uses : ∀ v, v ∈ occurrencesIn x.clauses ↔ .leaf (.atom .var v) ∈ o.events

/-! ## Lists of clauses -/

section Clauses

variable {os : List Outline} {xs : List TopicQuery.Clause} {bs : List TopicQuery.Branch}

theorem clauses?_forall₂ (h : List.Forall₂ (IsClause f b) os xs) :
    clauses? (b.term? f) os = some xs := by
  rw [clauses?_eq_mapM]
  exact mapM_of_forall₂ (h.imp fun _ _ hx => hx.translated)

theorem branches?_forall₂ (h : List.Forall₂ (IsBranch f b) os bs) :
    branches? (b.term? f) os = some bs := by
  rw [branches?_eq_mapM]
  exact mapM_of_forall₂ (h.imp fun _ _ hx => hx.translated)

/-- Clauses one behind the other use what each of them uses. -/
theorem uses_clauses (h : List.Forall₂ (IsClause f b) os xs) (v : String) :
    v ∈ occurrencesIn xs ↔ .leaf (.atom .var v) ∈ eventsAll os := by
  rw [Reduces.mem_occurrencesIn, mem_eventsAll]
  exact (exists_mem_iff_of_forall₂ h fun o x hx => (hx.uses v).symm).symm

theorem mem_occurrencesInBranches (v : String) :
    v ∈ occurrencesInBranches bs ↔ ∃ x ∈ bs, v ∈ occurrencesIn x.clauses := by
  induction bs with
  | nil => simp [occurrencesInBranches]
  | cons x bs ih =>
      obtain ⟨shortCircuit, clauses⟩ := x
      simp [occurrencesInBranches, ih, Branch.clauses]

theorem uses_branches (h : List.Forall₂ (IsBranch f b) os bs) (v : String) :
    v ∈ occurrencesInBranches bs ↔ .leaf (.atom .var v) ∈ eventsAll os := by
  rw [mem_occurrencesInBranches, mem_eventsAll]
  exact (exists_mem_iff_of_forall₂ h fun o x hx => (hx.uses v).symm).symm

/-- A list of clauses is taken over into a container of its own. -/
theorem builds_list {k : Container} {inject : List TopicQuery.Clause → Operand}
    (hk : ∀ xs, Operands.complete f k (xs.map .clause) = .ok (inject xs))
    (h : BuildsAll f (b.operand f) flaw
      (fun ys => ∃ xs, ys = xs.map .clause ∧ List.Forall₂ (IsClause f b) os xs) os) :
    Builds f (b.operand f) flaw
      (fun y => ∃ xs, y = inject xs ∧ List.Forall₂ (IsClause f b) os xs) (.within k os) := by
  refine builds_within h ?_
  rintro ys ⟨xs, rfl, hxs⟩
  exact ⟨inject xs, hk xs, xs, rfl, hxs⟩

/-- A branch is built into what it is translated into if its clauses are. -/
theorem builds_branch (shortCircuit : Bool)
    (h : BuildsAll f (b.operand f) flaw
      (fun ys => ∃ xs, ys = xs.map .clause ∧ List.Forall₂ (IsClause f b) os xs) os) :
    Builds f (b.operand f) flaw
      (Holds .branch (IsBranch f b) (.within (.branch shortCircuit) os))
      (.within (.branch shortCircuit) os) := by
  have hk : ∀ xs : List TopicQuery.Clause,
      Operands.complete f (.branch shortCircuit) (xs.map .clause) =
        .ok (.branch (.mk shortCircuit xs)) := by
    intro xs
    rw [Operands.complete, Operands.clauses_clauses]
  refine Outcome.imp (builds_list hk h) ?_
  rintro y ⟨xs, rfl, hxs⟩
  refine ⟨_, rfl, ?_, fun v => ?_⟩
  · rw [branch?, clauses?_forall₂ hxs]
    rfl
  · rw [Branch.clauses, uses_clauses hxs]
    simp [events]

end Clauses

end Phrase

/-! ## Putting clauses together -/

namespace Operands

variable {f : Factory} (hf : f.IsUsual)

include hf

theorem complete_builtin {xs : List Operand} {as : List Term} (h : terms xs = .ok as)
    (name : String) (hints : List Hint) :
    complete f (.builtin name hints) xs = .ok (.clause (.builtin name hints as)) := by
  obtain ⟨createIri, resolveIri, internal, rule, rfl⟩ := hf
  rw [complete, h]
  rfl

theorem complete_call {xs : List Operand} {as : List Term} (a : Term)
    (h : terms (.name a :: xs) = .ok as) :
    complete f .call (.name a :: xs) = .ok (.clause (.call a as)) := by
  obtain ⟨createIri, resolveIri, internal, rule, rfl⟩ := hf
  rw [complete, show name (.name a :: xs) = .ok a from rfl, ok_bind, h]
  rfl

theorem complete_dynamic {xs : List Operand} {as : List Term} (a : Term)
    (h : terms (.name a :: xs) = .ok as) :
    complete f .dynamic (.name a :: xs) = .ok (.clause (.dynamic a as)) := by
  obtain ⟨createIri, resolveIri, internal, rule, rfl⟩ := hf
  rw [complete, show name (.name a :: xs) = .ok a from rfl, ok_bind, h]
  rfl

theorem complete_association (a : Term) {rs : List Role} (hne : rs ≠ []) :
    complete f .association (.name a :: rs.map .role) = .ok (.clause (.association a rs)) := by
  obtain ⟨createIri, resolveIri, internal, rule, rfl⟩ := hf
  have hroles : (Operand.name a :: rs.map .role).filterMap Operand.role? = rs :=
    filterMap_inject Operand.role? (fun _ => rfl) rs
  rw [complete, show name (.name a :: rs.map .role) = .ok a from rfl, ok_bind, hroles]
  simp [hne, bind, Except.bind, pure, Except.pure]

theorem complete_comparison (operator : Comparison) (left right : Term) :
    complete f (.comparison operator) [.left left, .right right] =
      .ok (.clause (.comparison operator left right)) := by
  obtain ⟨createIri, resolveIri, internal, rule, rfl⟩ := hf
  rfl

theorem complete_negation (xs : List Clause) :
    complete f .negation (xs.map .clause) = .ok (.clause (.negation xs)) := by
  obtain ⟨createIri, resolveIri, internal, rule, rfl⟩ := hf
  rw [complete, clauses_clauses]
  rfl

theorem complete_alternatives_of_ne {bs : List Branch} (hne : bs ≠ []) :
    complete f .alternatives (bs.map .branch) = .ok (.clause (.alternatives bs)) := by
  obtain ⟨createIri, resolveIri, internal, rule, rfl⟩ := hf
  have hbranches : (bs.map Operand.branch).filterMap Operand.branch? = bs :=
    filterMap_inject Operand.branch? (fun _ => rfl) bs
  rw [complete, hbranches]
  simp [hne, bind, Except.bind, pure, Except.pure]

end Operands

namespace Phrase

variable {f : Factory} {b : Builder} {flaw : Leaf → Failure → Prop} {c : Scope} {ts : List Token}

/-! ## Calls and clauses -/

section Usual

variable (hf : f.IsUsual)

include hf

theorem builds_builtin {name : String} {hints : List Hint} {arguments : List Term}
    (h : Explains f b flaw c ts) (hrefers : ∀ t ∈ arguments, t.Refers c)
    (hts : ∀ t ∈ arguments, t.tokens ⊆ ts) :
    let o := Outline.within (.builtin name hints) (arguments.map fun t => .leaf (t.leaf c))
    Builds f (b.operand f) flaw (Holds .clause (IsClause f b) o) o := by
  refine builds_within (buildsAll_arguments h hrefers hts) ?_
  rintro xs ⟨as, rfl, has⟩
  refine ⟨_, Operands.complete_builtin hf (terms_arguments has [] rfl) name hints, _, rfl, ?_, ?_⟩
  · rw [clause?, mapM_arguments has]
    rfl
  · intro v
    rw [Clause.occurrences, uses_arguments has]
    simp [events]

/-- A predicate with a name and arguments. -/
theorem builds_called {k : Container} (hk : k = .call ∨ k = .dynamic) {name : Term}
    {arguments : List Term} (h : Explains f b flaw c ts) (hname : name.Names c)
    (hnameTokens : name.tokens ⊆ ts) (hrefers : ∀ t ∈ arguments, t.Refers c)
    (hts : ∀ t ∈ arguments, t.tokens ⊆ ts) :
    let o := Outline.within k
      (Call.calleeOutline c name :: arguments.map fun t => .leaf (t.leaf c))
    Builds f (b.operand f) flaw (Holds .clause (IsClause f b) o) o := by
  have hinner : BuildsAll f (b.operand f) flaw
      (fun xs => ∃ a as, xs = .name a :: as.map .term ∧ IsName f b (.leaf (name.leaf c)) a ∧
        List.Forall₂ (IsArgument f b) (arguments.map fun t => .leaf (t.leaf c)) as)
      (Call.calleeOutline c name :: arguments.map fun t => .leaf (t.leaf c)) := by
    refine buildsAll_cons (builds_callee h hname hnameTokens)
      (buildsAll_arguments h hrefers hts) ?_
    rintro x xs ⟨a, rfl, ha⟩ ⟨as, rfl, has⟩
    exact ⟨a, as, rfl, ha, has⟩
  refine builds_within hinner ?_
  rintro xs ⟨a, as, rfl, ha, has⟩
  have hterms := terms_arguments has [.name a] rfl
  have huses : ∀ v, v ∈ as.filterMap Term.variableName? ↔ .leaf (.atom .var v) ∈
      (Outline.within k
        (Call.calleeOutline c name :: arguments.map fun t => .leaf (t.leaf c))).events := by
    intro v
    rw [uses_arguments has, uses_called ha]
  obtain rfl | rfl := hk
  -- a plain and a dynamic call differ in the container only
  · refine ⟨_, Operands.complete_call hf a hterms, _, rfl, ?_, huses⟩
    rw [Call.calleeOutline, clause?, ha.translated, mapM_arguments has]
    rfl
  · refine ⟨_, Operands.complete_dynamic hf a hterms, _, rfl, ?_, huses⟩
    rw [Call.calleeOutline, clause?, ha.translated, mapM_arguments has]
    rfl

theorem builds_association {name : Term} {roles : List Role} (h : Explains f b flaw c ts)
    (hname : name.Names c) (hnameTokens : name.tokens ⊆ ts) (hroles : roles ≠ [])
    (hrefers : ∀ r ∈ roles, r.player.Refers c ∧ r.type.Refers c)
    (hts : ∀ r ∈ roles, r.tokens ⊆ ts) :
    Builds f (b.operand f) flaw
      (Holds .clause (IsClause f b) ((Call.association name roles).outline c))
      ((Call.association name roles).outline c) := by
  have hall : BuildsAll f (b.operand f) flaw
      (fun xs => ∃ rs, xs = rs.map .role ∧
        List.Forall₂ (IsRole f b) (roles.map (Role.outline c)) rs)
      (roles.map (Role.outline c)) := by
    refine (buildsAll_forall fun o ho => ?_).imp fun xs hxs => exists_of_holds hxs
    obtain ⟨r, hr, rfl⟩ := List.mem_map.mp ho
    exact builds_role h (hrefers r hr).1 (hrefers r hr).2 (hts r hr)
  have hinner : BuildsAll f (b.operand f) flaw
      (fun xs => ∃ a rs, xs = .name a :: rs.map .role ∧ IsName f b (.leaf (name.leaf c)) a ∧
        List.Forall₂ (IsRole f b) (roles.map (Role.outline c)) rs)
      (Call.calleeOutline c name :: roles.map (Role.outline c)) := by
    refine buildsAll_cons (builds_callee h hname hnameTokens) hall ?_
    rintro x xs ⟨a, rfl, ha⟩ ⟨rs, rfl, hrs⟩
    exact ⟨a, rs, rfl, ha, hrs⟩
  refine builds_within hinner ?_
  rintro xs ⟨a, rs, rfl, ha, hrs⟩
  have hne : rs ≠ [] := by
    rintro rfl
    exact hroles (List.map_eq_nil_iff.mp (List.forall₂_nil_right_iff.mp hrs))
  refine ⟨_, Operands.complete_association hf a hne, _, rfl, ?_, fun v => ?_⟩
  · rw [Call.outline, Call.calleeOutline, clause?, ha.translated,
      mapM_of_forall₂ (hrs.imp fun _ _ hr => hr.translated)]
    rfl
  · rw [Call.outline, uses_called ha, mem_eventsAll,
      exists_mem_iff_of_forall₂ hrs fun o r hr => (hr.uses v).symm, Clause.occurrences,
      List.filterMap_flatMap, List.mem_flatMap]

/-- A call is built into the clause that it is translated into. -/
theorem builds_call {call : Call} (h : Explains f b flaw c call.tokens) (hrefers : call.Refers c) :
    Builds f (b.operand f) flaw (Holds .clause (IsClause f b) (call.outline c))
      (call.outline c) := by
  obtain ⟨hname, hterms, hroles⟩ := hrefers
  cases call with
  | plain name arguments =>
      have hnameTokens : name.tokens ⊆ (Call.plain name arguments).tokens := by
        simp [Call.tokens]
      have hts : ∀ t ∈ arguments, t.tokens ⊆ (Call.plain name arguments).tokens := by
        intro t ht u hu
        rw [Call.tokens]
        exact List.mem_append_right _ (List.mem_cons_of_mem _
          (List.mem_append_left _ (mem_listed_of_mem ht hu)))
      obtain ⟨builtin, hints, -, hk⟩ | hk | hk :=
        Call.callContainer_cases c.rules (name.form c) arguments.length
      · rw [Call.outline_builtin hk]
        exact builds_builtin hf h hterms hts
      · rw [Call.outline_called (by simp [hk]), hk]
        exact builds_called hf (.inl rfl) h hname hnameTokens hterms hts
      · rw [Call.outline_called (by simp [hk]), hk]
        exact builds_called hf (.inr rfl) h hname hnameTokens hterms hts
  | association name roles =>
      have hnameTokens : name.tokens ⊆ (Call.association name roles).tokens := by
        simp [Call.tokens]
      have hts : ∀ r ∈ roles, r.tokens ⊆ (Call.association name roles).tokens := by
        intro r hr u hu
        rw [Call.tokens]
        exact List.mem_append_right _ (List.mem_cons_of_mem _
          (List.mem_append_left _ (mem_listed_of_mem hr hu)))
      have hne : roles ≠ [] := by
        rintro rfl
        exact hroles name rfl
      refine builds_association hf h hname hnameTokens hne (fun r hr => ?_) hts
      constructor
      · exact hterms _ (List.mem_flatMap.mpr ⟨r, hr, by simp⟩)
      · exact hterms _ (List.mem_flatMap.mpr ⟨r, hr, by simp⟩)

theorem builds_comparison {operator : Comparison} {left right : Term}
    (h : Explains f b flaw c (Clause.comparison operator left right).tokens)
    (hleft : left.Refers c) (hright : right.Refers c) :
    let o := (Clause.comparison operator left right).outline c
    Builds f (b.operand f) flaw (Holds .clause (IsClause f b) o) o := by
  have hparts : BuildsAll f (b.operand f) flaw
      (fun xs => ∃ a a', xs = [.left a, .right a'] ∧
        IsArgument f b (.leaf (left.leaf c)) a ∧ IsArgument f b (.leaf (right.leaf c)) a')
      [.within .left [.leaf (left.leaf c)], .within .right [.leaf (right.leaf c)]] := by
    refine buildsAll_parts h hleft hright (by simp [Clause.tokens]) (by simp [Clause.tokens])
      (fun a ha => ?_) fun a ha => ?_
    · rw [Operands.complete, singleTerm_argument ha]
      rfl
    · rw [Operands.complete, singleTerm_argument ha]
      rfl
  refine builds_within hparts ?_
  rintro xs ⟨a, a', rfl, ha, ha'⟩
  refine ⟨_, Operands.complete_comparison hf operator a a', _, rfl, ?_, uses_parts ha ha'⟩
  rw [Clause.outline, clause?, ha.translated, ha'.translated]
  rfl

end Usual

mutual

/-- A clause is built into what it is translated into. -/
theorem builds_clause (hf : f.IsUsual) (x : Clause) (h : Explains f b flaw c x.tokens)
    (hrefers : x.Refers c) :
    Builds f (b.operand f) flaw (Holds .clause (IsClause f b) (x.outline c)) (x.outline c) := by
  match x with
  | .negation xs =>
      have htokens : xs.tokens ⊆ (Clause.negation xs).tokens := fun u hu => by
        simp [Clause.tokens, hu]
      have hlist := builds_list (Operands.complete_negation hf)
        (buildsAll_clauses hf xs (h.of_subset htokens) hrefers)
      refine Outcome.imp hlist ?_
      rintro y ⟨ys, rfl, hys⟩
      refine ⟨_, rfl, ?_, fun v => ?_⟩
      · rw [Clause.outline, clause?, clauses?_forall₂ hys]
        rfl
      · rw [Clause.occurrences, uses_clauses hys]
        simp [Clause.outline, events]
  | .alternatives bs =>
      have htokens : bs.tokens ⊆ (Clause.alternatives bs).tokens := fun u hu => by
        simp [Clause.tokens, hu]
      refine builds_within (buildsAll_branches hf bs false (h.of_subset htokens) hrefers) ?_
      rintro ys ⟨brs, rfl, hne, hbrs⟩
      refine ⟨_, Operands.complete_alternatives_of_ne hf hne, _, rfl, ?_, fun v => ?_⟩
      · rw [Clause.outline, clause?, branches?_forall₂ hbrs]
        rfl
      · rw [Clause.occurrences, uses_branches hbrs]
        simp [Clause.outline, events]
  | .comparison operator left right => exact builds_comparison hf h hrefers.1 hrefers.2
  | .call call => exact builds_call hf h hrefers

/-- Clauses are built one behind the other. -/
theorem buildsAll_clauses (hf : f.IsUsual) (xs : Clauses) (h : Explains f b flaw c xs.tokens)
    (hrefers : xs.Refers c) :
    BuildsAll f (b.operand f) flaw
      (fun ys => ∃ cls, ys = cls.map .clause ∧ List.Forall₂ (IsClause f b) (xs.outlines c) cls)
      (xs.outlines c) := by
  match xs with
  | .last x =>
      refine buildsAll_singleton (builds_clause hf x h hrefers) ?_
      rintro y ⟨cl, rfl, hcl⟩
      exact ⟨[cl], rfl, .cons hcl .nil⟩
  | .cons x xs =>
      refine buildsAll_cons (builds_clause hf x (h.of_subset (by simp [Clauses.tokens])) hrefers.1)
        (buildsAll_clauses hf xs (h.of_subset (by simp [Clauses.tokens])) hrefers.2) ?_
      rintro y ys ⟨cl, rfl, hcl⟩ ⟨cls, rfl, hcls⟩
      exact ⟨cl :: cls, rfl, .cons hcl hcls⟩

/-- Branches are built one behind the other. -/
theorem buildsAll_branches (hf : f.IsUsual) (bs : Branches) (shortCircuit : Bool)
    (h : Explains f b flaw c bs.tokens) (hrefers : bs.Refers c) :
    BuildsAll f (b.operand f) flaw
      (fun ys => ∃ brs, ys = brs.map .branch ∧ brs ≠ [] ∧
        List.Forall₂ (IsBranch f b) (bs.outlines c shortCircuit) brs)
      (bs.outlines c shortCircuit) := by
  match bs with
  | .last xs =>
      refine buildsAll_singleton (builds_branch shortCircuit (buildsAll_clauses hf xs h hrefers)) ?_
      rintro y ⟨br, rfl, hbr⟩
      exact ⟨[br], rfl, by simp, .cons hbr .nil⟩
  | .cons xs next bs =>
      have hfirst := buildsAll_clauses hf xs (h.of_subset (by simp [Branches.tokens])) hrefers.1
      refine buildsAll_cons (builds_branch shortCircuit hfirst)
        (buildsAll_branches hf bs next (h.of_subset (by simp [Branches.tokens])) hrefers.2) ?_
      rintro y ys ⟨br, rfl, hbr⟩ ⟨brs, rfl, -, hbrs⟩
      exact ⟨br :: brs, rfl, by simp, .cons hbr hbrs⟩

end

end Phrase

end TopicQuery
