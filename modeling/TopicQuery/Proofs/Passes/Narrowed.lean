import Mathlib.Data.List.Infix
import TopicQuery.Proofs.Optimized.Replayed
import TopicQuery.Proofs.Passes.Place

/-!
The kinds that narrowing leaves a built-in predicate. They are those that another clause
implies, of its list or of a list around it, if it implies some. A list counts as negated
only if it is itself a negation: the alternatives inside one are evidence for each other.
-/

namespace TopicQuery

namespace NarrowHints

open Element

variable {tree e c d l : Element} {list : List Nat} {n m : Nat} {v : String} {kind : Hint}
  {evidence outer : List Evidence}

/-! ## Evidence for a clause at a place -/

/-- The clause implies a kind for a variable. -/
def Implies (clause : Element) (v : String) (kind : Hint) : Prop :=
  clause.name = "builtin-predicate" ∧
    ∃ position ∈ positions ((clause.attr? "name").getD ""), position.2 = kind ∧
      clause.arguments[position.1]?.bind variableName? = some v

instance (clause : Element) (v : String) (kind : Hint) : Decidable (Implies clause v kind) :=
  inferInstanceAs (Decidable (_ ∧ _))

/-- The clauses at a place are those of a negation. -/
def isNegation (tree : Element) (list : List Nat) : Bool := (tree.at? list).any (·.name == "not")

/-- The clauses at a place lie in a negation, at any depth. -/
def inNegation (tree : Element) (list : List Nat) : Bool := list.inits.any (isNegation tree)

/--
Another clause implies a kind for a variable: one that stands with the clause in its list, or
in a list around that, and is not negated.
-/
def Backed (negated : Element → List Nat → Bool) (tree : Element) (list : List Nat) (n : Nat)
    (v : String) (kind : Hint) : Prop :=
  ∃ around ∈ list.inits, negated tree around = false ∧
    ∃ l ∈ tree.at? around, l.isClauseList = true ∧
      ∃ other ∈ l.children.zipIdx, (around, other.2) ≠ (list, n) ∧ Implies other.1 v kind

instance (negated : Element → List Nat → Bool) (tree : Element) (list : List Nat) (n : Nat)
    (v : String) (kind : Hint) : Decidable (Backed negated tree list n v kind) :=
  inferInstanceAs (Decidable (∃ _ ∈ _, _ ∧ ∃ _ ∈ _, _ ∧ _))

/-- The kinds with evidence for the variable that a clause ranges over, or all if that is none. -/
def kindsLeft (backed : String → Hint → Prop) [∀ v kind, Decidable (backed v kind)]
    (clause : Element) (hints : List Hint) : List Hint :=
  match clause.arguments.head?.bind variableName? with
  | none => hints
  | some v =>
    let left := hints.filter (backed v)
    if left = [] then hints else left

/-- The clause at a place is a built-in predicate in a list of clauses. -/
def IsBuiltinClause (tree : Element) (list : List Nat) (n : Nat) : Prop :=
  ∃ l ∈ tree.at? list, l.isClauseList = true ∧
    ∃ clause ∈ l.children[n]?, clause.name = "builtin-predicate"

instance (tree : Element) (list : List Nat) (n : Nat) : Decidable (IsBuiltinClause tree list n) :=
  inferInstanceAs (Decidable (∃ _ ∈ _, _ ∧ ∃ _ ∈ _, _))

/-- Narrowing leaves the clause at a place the kinds that are backed. -/
def NarrowedBy (negated : Element → List Nat → Bool) (tree : Element) (list : List Nat) (n : Nat) :
    Prop :=
  ∃ clause hints narrowed, tree.at? (list ++ [n]) = some clause ∧ clause.hints = .ok hints ∧
    (apply tree).at? (list ++ [n]) = some narrowed ∧
      narrowed.hints = .ok (kindsLeft (Backed negated tree list n) clause hints)

theorem mem_implied_iff : (v, kind) ∈ implied e ↔ Implies e v kind := by
  unfold implied Implies
  by_cases hname : e.name = "builtin-predicate"
  · simp only [hname, beq_self_eq_true, if_true, true_and, List.mem_filterMap, Option.map_eq_some_iff,
      Prod.mk.injEq]
    constructor
    · rintro ⟨position, hposition, w, hw, rfl, hkind⟩
      exact ⟨position, hposition, hkind, hw⟩
    · rintro ⟨position, hposition, hkind, hv⟩
      exact ⟨position, hposition, v, hv, rfl, hkind⟩
  · simp [hname]

/-- What is implied in a list is implied by one of its clauses. -/
theorem mem_impliedIn_iff {negated : Bool} {es : List Element} :
    (v, kind) ∈ impliedIn negated es ↔ negated = false ∧ ∃ other ∈ es, Implies other v kind := by
  cases negated with
  | true => simp [impliedIn]
  | false => simp [impliedIn, mem_implied_iff]

theorem backed_iff {negated : Element → List Nat → Bool} :
    Backed negated tree list n v kind ↔ ∃ around m l other, around <+: list ∧
      negated tree around = false ∧ tree.at? around = some l ∧ l.isClauseList = true ∧
      l.children[m]? = some other ∧ (around, m) ≠ (list, n) ∧ Implies other v kind := by
  constructor
  · rintro ⟨around, haround, hnot, l, hl, hlist, ⟨other, m⟩, hother, hne, himplies⟩
    exact ⟨around, m, l, other, (List.mem_inits _ _).mp haround, hnot, hl, hlist,
      List.mk_mem_zipIdx_iff_getElem?.mp hother, hne, himplies⟩
  · rintro ⟨around, m, l, other, haround, hnot, hl, hlist, hother, hne, himplies⟩
    exact ⟨around, (List.mem_inits _ _).mpr haround, hnot, l, hl, hlist, (other, m),
      List.mk_mem_zipIdx_iff_getElem?.mpr hother, hne, himplies⟩

theorem backed_congr {negated negated' : Element → List Nat → Bool}
    (h : ∀ around ∈ list.inits, negated tree around = negated' tree around) :
    Backed negated tree list n v kind ↔ Backed negated' tree list n v kind := by
  refine exists_congr fun around => and_congr_right fun haround => ?_
  rw [h around haround]

theorem isNegation_cons (hc : e.children[m]? = some c) :
    isNegation e (m :: list) = isNegation c list := by
  rw [isNegation, isNegation, at?_of_child hc]

/-- In the list itself the evidence is what the other clauses imply. -/
theorem backed_nil : Backed isNegation e [] n v kind ↔ e.isClauseList = true ∧
    (v, kind) ∈ impliedIn (e.name == "not") (e.children.eraseIdx n) := by
  rw [backed_iff, mem_impliedIn_iff]
  simp only [List.prefix_nil]
  constructor
  · rintro ⟨_, m, l, other, rfl, hnot, hl, hlist, hother, hne, himplies⟩
    obtain rfl : e = l := Option.some.inj hl
    refine ⟨hlist, hnot, other, List.mem_eraseIdx_iff_getElem?.mpr ⟨m, ?_, hother⟩, himplies⟩
    rintro rfl
    exact hne rfl
  · rintro ⟨hlist, hnot, other, hother, himplies⟩
    obtain ⟨m, hm, hother⟩ := List.mem_eraseIdx_iff_getElem?.mp hother
    exact ⟨[], m, e, other, rfl, hnot, rfl, hlist, hother, by simpa using hm, himplies⟩

/-- Evidence further in is what all clauses of a list around imply, or comes from behind the step. -/
theorem backed_cons (hc : e.children[m]? = some c) :
    Backed isNegation e (m :: list) n v kind ↔
      e.isClauseList = true ∧ (v, kind) ∈ impliedIn (e.name == "not") e.children ∨
        Backed isNegation c list n v kind := by
  rw [backed_iff, backed_iff, mem_impliedIn_iff]
  constructor
  · rintro ⟨_ | ⟨m', around⟩, k, l, other, haround, hnot, hl, hlist, hother, hne, himplies⟩
    · obtain rfl : e = l := Option.some.inj hl
      exact .inl ⟨hlist, hnot, other, List.mem_of_getElem? hother, himplies⟩
    · obtain ⟨rfl, hinner⟩ := List.cons_prefix_cons.mp haround
      rw [at?_of_child hc] at hl
      rw [isNegation_cons hc] at hnot
      refine .inr ⟨around, k, l, other, hinner, hnot, hl, hlist, hother, ?_, himplies⟩
      simpa using hne
  · rintro (⟨hlist, hnot, other, hother, himplies⟩ |
      ⟨around, k, l, other, haround, hnot, hl, hlist, hother, hne, himplies⟩)
    · obtain ⟨k, hk⟩ := List.mem_iff_getElem?.mp hother
      exact ⟨[], k, e, other, List.nil_prefix, hnot, rfl, hlist, hk, by simp, himplies⟩
    · refine ⟨m :: around, k, l, other, List.cons_prefix_cons.mpr ⟨rfl, haround⟩,
        (isNegation_cons hc).trans hnot, (at?_of_child hc).trans hl, hlist, hother, ?_, himplies⟩
      simpa using hne

/-! ## Narrowing at a place -/

/-- A clause in a list has evidence of the lists around and of the others in its list. -/
theorem narrowBelow_at? (outer : List Evidence) (hl : e.at? list = some l) (hlist : l.isClauseList = true)
    (hc : l.children[n]? = some c) : ∃ evidence inner,
      (narrowBelow outer e).at? (list ++ [n]) = some (narrow evidence (narrowBelow inner c)) ∧
        ∀ v kind, (v, kind) ∈ evidence ↔ (v, kind) ∈ outer ∨ Backed isNegation e list n v kind := by
  induction list generalizing e outer with
  | nil =>
      obtain rfl : e = l := Option.some.inj hl
      refine ⟨outer ++ impliedIn (e.name == "not") (e.children.erase c),
        outer ++ impliedIn (e.name == "not") e.children, ?_, fun v kind => ?_⟩
      · rw [narrowBelow_of_list outer hlist, List.nil_append, at?_cons, List.getElem?_map, hc]
        rfl
      · have hothers : (e.children.erase c).Perm (e.children.eraseIdx n) := by
          obtain ⟨hn, rfl⟩ := List.getElem?_eq_some_iff.mp hc
          exact ((List.perm_cons_erase (List.getElem_mem hn)).symm.trans
            (List.getElem_cons_eraseIdx_perm hn).symm).cons_inv
        rw [List.mem_append, mem_impliedIn_perm _ hothers, backed_nil, and_iff_right hlist]
  | cons m list ih =>
      obtain ⟨d, hd, hdl⟩ := exists_child_of_at? hl
      rw [List.cons_append]
      by_cases hinner : e.isClauseList = true
      · obtain ⟨evidence, inner, hat, hmem⟩ := ih
          (outer ++ impliedIn (e.name == "not") e.children) hdl
        refine ⟨evidence, inner, ?_, fun v kind => ?_⟩
        · rw [narrowBelow_of_list outer hinner, at?_of_child (by rw [List.getElem?_map, hd]; rfl), ← hat]
          exact at?_congr (children_narrow _ _) (by simp)
        · rw [hmem, backed_cons hd, List.mem_append, and_iff_right hinner, or_assoc]
      · obtain ⟨evidence, inner, hat, hmem⟩ := ih outer hdl
        rw [Bool.not_eq_true] at hinner
        refine ⟨evidence, inner, ?_, fun v kind => ?_⟩
        · rw [narrowBelow_of_not_list outer hinner, at?_of_child (by rw [List.getElem?_map, hd]; rfl), hat]
        · rw [hmem, backed_cons hd]
          simp [hinner]

theorem apply_eq_narrowBelow (h : tree.isClauseList = false) : apply tree = narrowBelow [] tree := by
  rw [apply, narrowBelow_of_not_list [] h, narrowEach_eq_map]

/-! ## The kinds left -/

theorem kindsLeft_congr {backed backed' : String → Hint → Prop} [∀ v kind, Decidable (backed v kind)]
    [∀ v kind, Decidable (backed' v kind)] (h : ∀ v kind, backed v kind ↔ backed' v kind)
    (clause : Element) (hints : List Hint) :
    kindsLeft backed clause hints = kindsLeft backed' clause hints := by
  unfold kindsLeft
  simp only [h]

/-- A narrowed clause has the kinds that there is evidence for. -/
theorem hints_narrow (hname : e.name = "builtin-predicate") {hints : List Hint}
    (hhints : e.hints = .ok hints) (evidence : List Evidence) :
    (narrow evidence e).hints = .ok (kindsLeft (fun v kind => (v, kind) ∈ evidence) e hints) := by
  have hread : Hint.ofListText? ((e.attr? "hints").getD "") = some hints := by
    unfold Element.hints at hhints
    dsimp only at hhints
    split at hhints
    · next h => rw [h, Except.ok.inj hhints]
    · cases hhints
  cases hattr : e.attr? "hints" with
  | none =>
      -- a clause without kinds has none to be narrowed
      have hsame : narrow evidence e = e := by simp [narrow, hattr]
      rw [hattr] at hread
      obtain rfl : [] = hints := Option.some.inj hread
      rw [hsame, hhints, kindsLeft]
      split <;> simp
  | some text =>
      rw [hattr] at hread
      have hkinds : (e.attr? "hints").bind Hint.ofListText? = some hints := by rw [hattr]; exact hread
      cases hv : e.arguments.head?.bind variableName? with
      | none =>
          have hsame : narrow evidence e = e := by simp [narrow, hkinds, hv]
          rw [hsame, hhints, kindsLeft, hv]
      | some v =>
          set left := hints.filter fun kind => evidence.contains (v, kind) with hleft
          have hspec : kindsLeft (fun v kind => (v, kind) ∈ evidence) e hints =
              if left = [] then hints else left := by
            simp only [kindsLeft, hv, hleft, List.contains_eq_mem]
          have hnarrow : narrow evidence e = if !left.isEmpty && left.length < hints.length then
              (e.setAttr "hints" (Hint.listText left)).annotate name else e := by
            simp only [narrow, hname, hkinds, hv, bne_self_eq_false, Bool.false_eq_true, if_false]
            rfl
          rw [hspec, hnarrow]
          by_cases hnone : left = []
          · simp [hnone, hhints]
          by_cases hshorter : left.length < hints.length
          · rw [if_neg hnone, if_pos (by simp [hnone, hshorter])]
            have hput : ((e.setAttr "hints" (Hint.listText left)).annotate name).attr? "hints" =
                some (Hint.listText left) :=
              ((looksLike_annotate _ _).attr? "hints" (by decide)).trans Attributes.get?_put_self
            simp [Element.hints, hput]
          · have hall : left = hints := List.filter_sublist.eq_of_length_le (not_lt.mp hshorter)
            rw [if_neg (by simp [hshorter]), if_neg hnone, hall, hhints]

/-- Narrowing leaves the variable a clause ranges over. -/
theorem kindsLeft_children {g : Element → Element} (hg : Descends g)
    (backed : String → Hint → Prop) [∀ v kind, Decidable (backed v kind)] (clause : Element)
    (hints : List Hint) :
    kindsLeft backed { clause with children := clause.children.map g } hints =
      kindsLeft backed clause hints := by
  have hfirst := hg.argument_map clause 0
  rw [← List.head?_eq_getElem?, ← List.head?_eq_getElem?] at hfirst
  rw [kindsLeft, kindsLeft, hfirst]

/-- In a tree of a text a built-in predicate tells its kinds. -/
theorem exists_hints (h : e.Stands) (hname : e.name = "builtin-predicate") :
    ∃ hints, e.hints = .ok hints := by
  obtain ⟨name, hints, hunmarked, -⟩ := h.builtin hname
  refine ⟨hints, hints_of_attr? ?_⟩
  rw [← attr?_unmarked e (by decide), hunmarked]
  cases hints <;> rfl

/-- A built-in predicate in a list is left the kinds that clauses around it imply. -/
theorem narrowedBy_isNegation (hroot : tree.isClauseList = false) (hstands : tree.Every Stands)
    (h : IsBuiltinClause tree list n) : NarrowedBy isNegation tree list n := by
  obtain ⟨l, hl, hlist, clause, hclause, hname⟩ := h
  obtain ⟨evidence, inner, hat, hmem⟩ := narrowBelow_at? [] hl hlist hclause
  have hplace : tree.at? (list ++ [n]) = some clause := (at?_concat hl).trans hclause
  obtain ⟨hints, hhints⟩ := exists_hints (every_iff.mp (hstands.at? hplace)).1 hname
  refine ⟨clause, hints, _, hplace, hhints, (apply_eq_narrowBelow hroot ▸ hat), ?_⟩
  rw [narrowBelow_of_not_list inner (not_list_of_builtin hname),
    hints_narrow (e := { clause with children := _ }) hname hhints,
    kindsLeft_children (descends_narrowBelow inner)]
  exact congrArg _ (kindsLeft_congr (fun v kind => by simp [hmem]) clause hints)

end NarrowHints

/-! ## Trees of texts -/

open NarrowHints

/--
Narrowing leaves every built-in predicate in a list exactly those of its kinds that another
clause implies for its first argument, one of its list or of a list around that, or all of its
kinds if that is none. Lists that are negations give no evidence; where every list around the
clause that lies in a negation is one, no list in a negation does.
-/
theorem narrowHints_backed {plus : Bool} {text : String} (hparses : (parse text plus).fault = none) :
    ∃ tree, Element.ofText plus text = .ok tree ∧ ∀ list n, IsBuiltinClause tree list n →
      NarrowedBy isNegation tree list n ∧
        ((∀ around ∈ list.inits, isNegation tree around = inNegation tree around) →
          NarrowedBy inNegation tree list n) := by
  obtain ⟨d, hd⟩ := Phrase.exists_document hparses
  refine ⟨_, hd.tree, fun list n hclause => ?_⟩
  have hnarrowed := narrowedBy_isNegation rfl
    (Element.stands_outline (Phrase.settingOf plus text) hd.proper) hclause
  refine ⟨hnarrowed, fun hnegations => ?_⟩
  obtain ⟨clause, hints, narrowed, hplace, hhints, hbehind, hleft⟩ := hnarrowed
  refine ⟨clause, hints, narrowed, hplace, hhints, hbehind, hleft.trans (congrArg _ ?_)⟩
  exact kindsLeft_congr (fun v kind => backed_congr hnegations) clause hints

/-- A clause of a branch with evidence in the list around, and a negation beside it. -/
theorem narrowHints_backed_branch :
    ∃ tree, Element.ofText false
        "occurrence($T, $O), { value($O, $X) | topic($T) }, not(topic-name($T, $O))?" = .ok tree ∧
      IsBuiltinClause tree [0, 0, 1, 0] 0 ∧ NarrowedBy isNegation tree [0, 0, 1, 0] 0 ∧
        NarrowedBy inNegation tree [0, 0, 1, 0] 0 := by
  obtain ⟨hparses, hplace⟩ : (parse
      "occurrence($T, $O), { value($O, $X) | topic($T) }, not(topic-name($T, $O))?" false).fault =
        none ∧
      (Element.ofText false
        "occurrence($T, $O), { value($O, $X) | topic($T) }, not(topic-name($T, $O))?").toOption.all
          (fun tree => IsBuiltinClause tree [0, 0, 1, 0] 0 ∧
            (List.inits [0, 0, 1, 0]).all fun around =>
              isNegation tree around = inNegation tree around) = true := by
    decide +kernel
  obtain ⟨tree, htree, hnarrowed⟩ := narrowHints_backed hparses
  rw [htree] at hplace
  obtain ⟨hclause, hnegations⟩ := of_decide_eq_true hplace
  obtain ⟨hhere, hin⟩ := hnarrowed _ _ hclause
  refine ⟨tree, htree, hclause, hhere, hin fun around haround => ?_⟩
  exact of_decide_eq_true (List.all_eq_true.mp hnegations around haround)

/-- In a branch inside a negation a clause is narrowed by the clause beside it. -/
theorem not_narrowedBy_inNegation :
    (parse "not(\x7b topic-name($t, $n), value($n, \"x\") \x7d)?" false).fault = none ∧
      ∃ tree, Element.ofText false "not(\x7b topic-name($t, $n), value($n, \"x\") \x7d)?" = .ok tree ∧
        IsBuiltinClause tree [0, 0, 0, 0, 0] 1 ∧ ¬NarrowedBy inNegation tree [0, 0, 0, 0, 0] 1 := by
  obtain ⟨hparses, hdiffers⟩ :
      (parse "not(\x7b topic-name($t, $n), value($n, \"x\") \x7d)?" false).fault = none ∧
      (Element.ofText false
        "not(\x7b topic-name($t, $n), value($n, \"x\") \x7d)?").toOption.all (fun tree =>
          IsBuiltinClause tree [0, 0, 0, 0, 0] 1 ∧
            ((tree.at? [0, 0, 0, 0, 0, 1]).all fun clause => clause.hints.toOption.all fun hints =>
              ((apply tree).at? [0, 0, 0, 0, 0, 1]).all fun narrowed =>
                narrowed.hints.toOption.all fun left =>
                  left ≠ kindsLeft (Backed inNegation tree [0, 0, 0, 0, 0] 1) clause hints) =
              true) = true := by
    decide +kernel
  obtain ⟨d, hd⟩ := Phrase.exists_document hparses
  refine ⟨hparses, _, hd.tree, ?_⟩
  rw [hd.tree] at hdiffers
  obtain ⟨hclause, hleft⟩ := of_decide_eq_true hdiffers
  refine ⟨hclause, ?_⟩
  rintro ⟨clause, hints, narrowed, hplace, hhints, hbehind, hsame⟩
  rw [List.cons_append, List.cons_append, List.cons_append, List.cons_append, List.cons_append,
    List.nil_append] at hplace hbehind
  simp [hplace, hhints, hbehind, hsame, Except.toOption] at hleft

end TopicQuery
