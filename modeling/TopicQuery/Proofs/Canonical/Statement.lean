import TopicQuery.Proofs.Canonical.Clause
import TopicQuery.Proofs.Canonical.Number

/-!
Canonical statements and rules. Order and extent are written out the short way,
and conditions stand behind `from`.
-/

namespace TopicQuery.Phrase

open Grammar

variable {c : Scope}

/-! ## Order and extent -/

/-- The canonical form of a variable to sort by. -/
def SortKey.canonical (k : SortKey) : SortKey :=
  ⟨k.name, if k.direction = .descending then .descending else .bare⟩

theorem SortKey.outlines_canonical (k : SortKey) :
    Category.sortKey.outlines c k.canonical = Category.sortKey.outlines c k := by
  obtain ⟨name, direction⟩ := k
  cases direction <;> rfl

namespace Tail

/-- The canonical form of order and extent. -/
def canonical (t : Tail) : Tail :=
  ⟨t.order.map SortKey.canonical, t.limit.map Bound.canonical, t.offset.map Bound.canonical⟩

theorem outlines_canonical (t : Tail) : t.canonical.outlines c = t.outlines c := by
  obtain ⟨order, limit, offset⟩ := t
  have horder : orderOutlines c (order.map SortKey.canonical) = orderOutlines c order := by
    cases order with
    | nil => rfl
    | cons k order =>
        simp [orderOutlines, Category.list, List.flatMap_map, SortKey.outlines_canonical]
  have hextent : extentOutlines (limit.map Bound.canonical) (offset.map Bound.canonical) =
      extentOutlines limit offset := by
    cases limit <;> cases offset <;> rfl
  simp only [outlines, canonical, horder, hextent]

theorem reads_canonical (t : Tail) : t.canonical.Reads := by
  refine ⟨fun b hb => ?_, fun b hb => ?_⟩ <;>
    · obtain ⟨b', -, rfl⟩ := Option.map_eq_some_iff.mp hb
      exact b'.reads_canonical

end Tail

/-! ## Conditions -/

/-- The canonical form of a condition. -/
def Condition.canonical (c : Scope) (x : Condition) : Condition :=
  ⟨x.clauses.canonical c, x.tail.canonical⟩

namespace Category

theorem condition_outlines_canonical_iff (x : Condition) :
    condition.outlines c (x.canonical c) = condition.outlines c x ↔ ¬x.clauses.LosesMark c := by
  simp [condition, Condition.canonical, Tail.outlines_canonical, x.clauses.outlines_canonical_iff]

theorem condition_refers_canonical {x : Condition} (h : condition.Refers c x) :
    condition.Refers c (x.canonical c) :=
  ⟨x.clauses.refers_canonical h.1, x.tail.reads_canonical⟩

theorem condition_isPlain_canonical {x : Condition} (h : condition.IsPlain x) :
    condition.IsPlain (x.canonical c) := x.clauses.isPlain_canonical h

end Category

/-- The canonical form of a condition that may be missing. -/
def canonicalCondition (c : Scope) (x : Option (Bool × Condition)) : Option (Bool × Condition) :=
  x.map fun y => (false, y.2.canonical c)

/-! ## Changes -/

/-- A term of one token has a canonical form of one token. -/
theorem Term.tokens_canonical_of_single {t : Term} {u : Token} (h : t.tokens = [u]) :
    ∃ v, (t.canonical c).tokens = [v] := by
  cases t with
  | atom kind value => exact ⟨_, rfl⟩
  | literal value datatype => simp [tokens] at h
  | iri marker value => exact ⟨_, rfl⟩
  | qname marker name =>
      obtain rfl : marker = none := by
        cases marker with
        | none => rfl
        | some m => simp [tokens, Marker.tokens] at h
      exact ⟨.qname name, by simp [canonical, tokens, Marker.kept_eq_none_of_none, Marker.tokens]⟩
  | curie marker name =>
      obtain rfl : marker = none := by
        cases marker with
        | none => rfl
        | some m => simp [tokens, Marker.tokens] at h
      exact ⟨.curie name, by simp [canonical, tokens, Marker.kept_eq_none_of_none, Marker.tokens]⟩

/-- The canonical form of what is deleted. -/
def Target.canonical (c : Scope) : Target → Target
  | .call x => .call (x.canonical c)
  | .term t => .term (t.canonical c)

/-- A name without a mark cannot lose one. -/
theorem Call.not_losesMark_of_unmarked {call : Call} (h : call.Unmarked) : ¬call.LosesMark c := by
  obtain ⟨u, hunmarked⟩ := h
  cases call with
  | association name roles => exact id
  | plain name arguments =>
      rintro ⟨htwice, -⟩
      cases name with
      | qname marker name =>
          obtain ⟨m, rfl, -⟩ := Option.map_eq_some_iff.mp htwice
          simp [Call.name, Term.tokens, Marker.tokens] at hunmarked
      | _ => exact htwice

theorem Target.outlines_canonical {x : Target} (h : Category.target.Refers c x) :
    Category.target.outlines c (x.canonical c) = Category.target.outlines c x := by
  cases x with
  | term t => simp [canonical, Category.target]
  | call call =>
      have hmark : ¬call.LosesMark c := Call.not_losesMark_of_unmarked h.2
      simp [canonical, Category.target, Call.outline_canonical_iff.mpr hmark]

theorem Target.refers_canonical {x : Target} (h : Category.target.Refers c x) :
    Category.target.Refers c (x.canonical c) := by
  cases x with
  | term t => exact Term.refers_canonical h
  | call call =>
      have hname : (call.canonical c).name = call.name.canonical c := by cases call <;> rfl
      refine ⟨Call.refers_canonical h.1, ?_⟩
      obtain ⟨-, u, hu⟩ := h
      rw [Call.Unmarked, hname]
      exact Term.tokens_canonical_of_single hu

theorem Target.isPlain_canonical {x : Target} (h : Category.target.IsPlain x) :
    Category.target.IsPlain (x.canonical c) := by
  cases x with
  | term t => exact Term.isPlain_canonical h
  | call call => exact Call.isPlain_canonical h

namespace Change

/-- The canonical form of a change. -/
def canonical (c : Scope) : Change → Change
  | insert content => .insert content
  | update calls => .update (calls.map (Call.canonical c))
  | delete targets => .delete (targets.map (Target.canonical c))
  | merge first second => .merge (first.canonical c) (second.canonical c)

/-- A changed call loses its mark. -/
def LosesMark (c : Scope) : Change → Prop
  | update calls => ∃ call ∈ calls, call.LosesMark c
  | _ => False

@[simp] theorem container_canonical (x : Change) : (x.canonical c).container = x.container := by
  cases x <;> rfl

theorem outlines_canonical_iff {x : Change} (h : x.Refers c) :
    (x.canonical c).outlines c = x.outlines c ↔ ¬x.LosesMark c := by
  cases x with
  | insert content => simp [canonical, LosesMark]
  | update calls =>
      simp only [canonical, outlines, Category.list, Category.call, LosesMark,
        ← List.map_eq_flatMap, List.map_map, List.map_inj_left, Function.comp_apply,
        Call.outline_canonical_iff, not_exists, not_and]
  | delete targets =>
      have htargets : ∀ x ∈ targets, Category.target.outlines c (x.canonical c) =
          Category.target.outlines c x := fun x hx => x.outlines_canonical (h.2 x hx)
      simp only [canonical, outlines, Category.list, List.flatMap_map, LosesMark, not_false_eq_true,
        iff_true]
      exact congrArg List.flatten (List.map_congr_left htargets)
  | merge first second => simp [canonical, outlines, LosesMark]

theorem refers_canonical {x : Change} (h : x.Refers c) : (x.canonical c).Refers c := by
  cases x with
  | insert content => trivial
  | update calls =>
      refine ⟨by simpa using h.1, fun y hy => ?_⟩
      obtain ⟨call, hcall, rfl⟩ := List.mem_map.mp hy
      exact Call.refers_canonical (h.2 call hcall)
  | delete targets =>
      refine ⟨by simpa using h.1, fun y hy => ?_⟩
      obtain ⟨x, hx, rfl⟩ := List.mem_map.mp hy
      exact x.refers_canonical (h.2 x hx)
  | merge first second => exact ⟨Term.refers_canonical h.1, Term.refers_canonical h.2⟩

theorem isPlain_canonical {x : Change} (h : x.IsPlain) : (x.canonical c).IsPlain := by
  cases x with
  | insert content => trivial
  | update calls =>
      intro y hy
      obtain ⟨call, hcall, rfl⟩ := List.mem_map.mp hy
      exact Call.isPlain_canonical (h call hcall)
  | delete targets =>
      intro y hy
      obtain ⟨x, hx, rfl⟩ := List.mem_map.mp hy
      exact x.isPlain_canonical (h x hx)
  | merge first second => exact ⟨Term.isPlain_canonical h.1, Term.isPlain_canonical h.2⟩

end Change

/-! ## Statements -/

namespace Statement

/-- The canonical form of a statement. -/
def canonical (c : Scope) : Statement → Statement
  | select projections _ x => .select projections false (x.canonical c)
  | bare x => .bare (x.canonical c)
  | change x condition => .change (x.canonical c) (canonicalCondition c condition)
  | x => x

/-- A call in the statement loses its mark. -/
def LosesMark (c : Scope) : Statement → Prop
  | select _ _ x => x.clauses.LosesMark c
  | bare x => x.clauses.LosesMark c
  | change x condition => x.LosesMark c ∨ ∃ y ∈ condition, y.2.clauses.LosesMark c
  | _ => False

/-- The statement is a query. -/
def asks : Statement → Bool
  | select _ _ _ => true
  | bare _ => true
  | _ => false

theorem outlines_canonical_iff {x : Statement} (h : Category.statement.Refers c x) :
    Category.statement.outlines c (x.canonical c) = Category.statement.outlines c x ↔
      ¬x.LosesMark c := by
  cases x with
  | select projections isWhere x =>
      simp only [Category.statement, canonical, LosesMark, List.cons.injEq, and_true,
        Outline.within.injEq, true_and, List.append_cancel_left_eq,
        Category.condition_outlines_canonical_iff]
  | bare x =>
      simp only [Category.statement, canonical, LosesMark, List.cons.injEq, and_true,
        Outline.within.injEq, true_and, Category.condition_outlines_canonical_iff]
  | change x condition =>
      have hchange := Change.outlines_canonical_iff h.1
      cases condition with
      | none =>
          simp [Category.statement, canonical, LosesMark, Category.optionalCondition,
            canonicalCondition, hchange]
      | some y =>
          have hcondition := Category.condition_outlines_canonical_iff (c := c) y.2
          have hlength : (Category.condition.outlines c (y.2.canonical c)).length =
              (Category.condition.outlines c y.2).length := by
            simp [Category.condition, Condition.canonical, Tail.outlines_canonical]
          have happend : (x.canonical c).outlines c ++ Category.condition.outlines c (y.2.canonical c) =
              x.outlines c ++ Category.condition.outlines c y.2 ↔
                (x.canonical c).outlines c = x.outlines c ∧
                  Category.condition.outlines c (y.2.canonical c) =
                    Category.condition.outlines c y.2 :=
            ⟨fun h => List.append_inj' h hlength, fun ⟨h, h'⟩ => by rw [h, h']⟩
          simp only [Category.statement, canonical, LosesMark, Category.optionalCondition,
            canonicalCondition, Option.map_some, Option.getD_some, List.cons.injEq, and_true,
            Outline.within.injEq, Change.container_canonical, true_and, happend, hchange,
            hcondition, Option.mem_some, exists_eq_left', not_or]
  | load source targets => simp [canonical, LosesMark]
  | drop source => simp [canonical, LosesMark]
  | create source => simp [canonical, LosesMark]

theorem refers_canonical {x : Statement} (h : Category.statement.Refers c x) :
    Category.statement.Refers c (x.canonical c) := by
  cases x with
  | select projections isWhere x => exact ⟨h.1, Category.condition_refers_canonical h.2⟩
  | bare x => exact Category.condition_refers_canonical h
  | change x condition =>
      refine ⟨Change.refers_canonical h.1, fun y hy => ?_⟩
      obtain ⟨z, hz, rfl⟩ := Option.map_eq_some_iff.mp hy
      exact Category.condition_refers_canonical (h.2 z hz)
  | load source targets => exact h
  | drop source => exact h
  | create source => exact h

theorem isPlain_canonical {x : Statement} (h : Category.statement.IsPlain x) :
    Category.statement.IsPlain (x.canonical c) := by
  cases x with
  | select projections isWhere x => exact Category.condition_isPlain_canonical h
  | bare x => exact Category.condition_isPlain_canonical h
  | change x condition =>
      refine ⟨Change.isPlain_canonical h.1, fun y hy => ?_⟩
      obtain ⟨z, hz, rfl⟩ := Option.map_eq_some_iff.mp hy
      exact Category.condition_isPlain_canonical (h.2 z hz)
  | load source targets => exact h
  | drop source => exact h
  | create source => exact h

end Statement

theorem Statement.not_losesMark {x : Statement} (h : Category.statement.IsPlain x) :
    ¬x.LosesMark c := by
  cases x with
  | select projections isWhere x => exact x.clauses.not_losesMark h
  | bare x => exact x.clauses.not_losesMark h
  | change x condition =>
      rintro (hchange | ⟨y, hy, hloses⟩)
      · cases x with
        | update calls =>
            obtain ⟨call, hcall, hloses⟩ := hchange
            exact call.not_losesMark (h.1 call hcall) hloses
        | _ => exact hchange
      · exact y.2.clauses.not_losesMark (h.2 y hy) hloses
  | _ => exact id

/-! ## Rules -/

namespace Rule

/-- The canonical form of a rule. -/
def canonical (c : Scope) (r : Rule) : Rule := ⟨r.name, r.parameters, r.body.canonical c⟩

/-- A call in the rule loses its mark. -/
def LosesMark (c : Scope) (r : Rule) : Prop := r.body.LosesMark c

theorem outlines_canonical_iff {r : Rule} :
    Category.rule.outlines c (r.canonical c) = Category.rule.outlines c r ↔ ¬r.LosesMark c := by
  simp [Category.rule, canonical, LosesMark, r.body.outlines_canonical_iff]

end Rule

end TopicQuery.Phrase
