import TopicQuery.Proofs.Reparsed
import TopicQuery.Proofs.Reported
import TopicQuery.Proofs.Words

/-!
Variables that are reported are written. Every variable among the events of a phrase
stands among its tokens, but for those that inserted topic map content mentions; each of
either kind is one word.
-/

namespace TopicQuery

open Outline

/-! ## Mentioned in content -/

namespace Fragment

theorem isUnbroken_of_mem_occurrences {cs name : List Char} (h : name ∈ occurrences cs) :
    Text.IsUnbroken name := by
  induction cs using occurrences.induct with
  | case1 => simp [occurrences] at h
  | case2 c rest hstart ih =>
      rw [occurrences, if_pos hstart] at h
      obtain rfl | h := List.mem_cons.mp h
      · refine ⟨List.cons_ne_nil _ _, fun d hd => Text.not_isBlank_of_name ?_⟩
        obtain rfl | hd := List.mem_cons.mp hd
        · exact .inl hstart
        · right
          have hrun : d ∈ Text.nameRun rest := by
            rw [variableTail, withoutFinalDots, List.mem_reverse] at hd
            exact List.mem_reverse.mp ((List.dropWhile_sublist _).subset hd)
          exact List.all_eq_true.mp List.all_takeWhile d hrun
      · exact ih h
  | case3 c rest hstart ih =>
      rw [occurrences, if_neg hstart] at h
      exact ih h
  | case4 c rest hother ih =>
      rw [occurrences] at h
      · exact ih h
      · exact hother

theorem isUnbroken_of_mem_mentioned {content name : String} (h : name ∈ mentioned content) :
    Text.IsUnbroken name.toList := by
  obtain ⟨cs, hcs, rfl⟩ := List.mem_map.mp (mem_distinct.mp h)
  rw [String.toList_ofList]
  exact isUnbroken_of_mem_occurrences hcs

end Fragment

namespace Phrase

variable {c : Scope} {ts us : List Token} {os ps : List Outline}

/-! ## Phrases -/

/-- The variable stands among the tokens, or content that does mentions it. -/
def Says (ts : List Token) (v : String) : Prop :=
  .atom .var v ∈ ts ∨ ∃ content, .fragment content ∈ ts ∧ v ∈ Fragment.mentioned content

/-- Every variable that the outlines report is one that the tokens say. -/
def Spoken (ts : List Token) (os : List Outline) : Prop :=
  ∀ v, .leaf (.atom .var v) ∈ eventsAll os → Says ts v

namespace Spoken

theorem mono (h : Spoken ts os) (hsub : ts ⊆ us) : Spoken us os := by
  intro v hv
  obtain hv | ⟨content, hcontent, hv⟩ := h v hv
  · exact .inl (hsub hv)
  · exact .inr ⟨content, hsub hcontent, hv⟩

theorem nil : Spoken ts [] := by
  intro v hv
  cases hv

theorem append (h : Spoken ts os) (h' : Spoken ts ps) : Spoken ts (os ++ ps) := by
  intro v hv
  rw [eventsAll_append] at hv
  exact (List.mem_append.mp hv).elim (h v) (h' v)

theorem cons {o : Outline} (h : Spoken ts [o]) (h' : Spoken ts os) : Spoken ts (o :: os) :=
  h.append h'

theorem within (k : Container) (h : Spoken ts os) : Spoken ts [.within k os] := by
  intro v hv
  apply h
  simpa [eventsAll, events] using hv

theorem leaf {item : Leaf} (h : ∀ v, item = .atom .var v → Says ts v) :
    Spoken ts [.leaf item] := by
  intro v hv
  apply h
  simpa [eventsAll, events, eq_comm] using hv

theorem flatMap {α : Type} {f : α → List Outline} {xs : List α} (h : ∀ x ∈ xs, Spoken ts (f x)) :
    Spoken ts (xs.flatMap f) := by
  intro v hv
  obtain ⟨o, ho, hv⟩ := mem_eventsAll.mp hv
  obtain ⟨x, hx, ho⟩ := List.mem_flatMap.mp ho
  exact h x hx v (mem_eventsAll.mpr ⟨o, ho, hv⟩)

theorem list {α : Type} {k : Category α} {xs : List α}
    (h : ∀ x ∈ xs, Spoken (k.tokens x) (k.outlines c x)) :
    Spoken (k.list.tokens xs) (k.list.outlines c xs) :=
  flatMap fun x hx => (h x hx).mono fun _ ht => mem_listed_of_mem hx ht

end Spoken

theorem spoken_term (t : Term) : Spoken t.tokens [.leaf (t.leaf c)] := by
  apply Spoken.leaf
  intro v hv
  cases t with
  | atom kind value =>
      obtain ⟨rfl, rfl⟩ := Leaf.atom.inj hv
      exact .inl (List.mem_singleton_self _)
  | iri marker value => cases marker <;> cases hv
  | _ => cases hv

theorem spoken_within (k : Container) (t : Term) (h : t.tokens ⊆ ts) :
    Spoken ts [.within k [.leaf (t.leaf c)]] :=
  ((spoken_term t).mono h).within k

theorem spoken_role (r : Role) : Spoken r.tokens [r.outline c] :=
  .within _ (.cons (spoken_within _ r.player fun _ ht => by simp [Role.tokens, ht])
    (spoken_within _ r.type fun _ ht => by simp [Role.tokens, ht]))

theorem spoken_call (call : Call) : Spoken call.tokens [call.outline c] := by
  cases call with
  | plain name arguments =>
      have hname : Spoken (Call.plain name arguments).tokens [Call.calleeOutline c name] :=
        spoken_within _ name fun _ ht => by simp [Call.tokens, ht]
      have harguments : Spoken (Call.plain name arguments).tokens
          (arguments.map fun t => .leaf (t.leaf c)) := by
        rw [List.map_eq_flatMap]
        exact (Spoken.list (k := Category.term) fun t _ => spoken_term t).mono fun _ ht => by
          simp only [Category.list, Category.term] at ht
          simp [Call.tokens, ht]
      unfold Call.outline
      dsimp only
      split
      · exact harguments.within _
      · exact (hname.cons harguments).within _
  | association name roles =>
      have hname : Spoken (Call.association name roles).tokens [Call.calleeOutline c name] :=
        spoken_within _ name fun _ ht => by simp [Call.tokens, ht]
      have hroles : Spoken (Call.association name roles).tokens (roles.map (Role.outline c)) := by
        rw [List.map_eq_flatMap]
        exact (Spoken.list (k := Category.role) fun r _ => spoken_role r).mono fun _ ht => by
          simp only [Category.list, Category.role] at ht
          simp [Call.tokens, ht]
      exact (hname.cons hroles).within _

mutual

theorem Clause.spoken (x : Clause) : Spoken x.tokens [x.outline c] := by
  match x with
  | .negation xs => exact (xs.spoken.mono fun _ ht => by simp [Clause.tokens, ht]).within _
  | .alternatives bs =>
      exact ((bs.spoken false).mono fun _ ht => by simp [Clause.tokens, ht]).within _
  | .comparison operator left right =>
      exact .within _ (.cons (spoken_within _ left fun _ ht => by simp [Clause.tokens, ht])
        (spoken_within _ right fun _ ht => by simp [Clause.tokens, ht]))
  | .call call => exact spoken_call call

theorem Clauses.spoken (xs : Clauses) : Spoken xs.tokens (xs.outlines c) := by
  match xs with
  | .last x => exact x.spoken
  | .cons x xs =>
      exact .cons (x.spoken.mono fun _ ht => by simp [Clauses.tokens, ht])
        (xs.spoken.mono fun _ ht => by simp [Clauses.tokens, ht])

theorem Branches.spoken (bs : Branches) (shortCircuit : Bool) :
    Spoken bs.tokens (bs.outlines c shortCircuit) := by
  match bs with
  | .last xs => exact xs.spoken.within _
  | .cons xs next bs =>
      exact .cons ((xs.spoken.mono fun _ ht => by simp [Branches.tokens, ht]).within _)
        ((bs.spoken next).mono fun _ ht => by simp [Branches.tokens, ht])

end

theorem spoken_bound {item : UInt64 → Leaf} (b : Option Bound) (h : ∀ n v, item n ≠ .atom .var v) :
    Spoken ts (Bound.outlines item b) := by
  cases b with
  | none => exact .nil
  | some b => exact .leaf fun v hv => absurd hv (h b.number v)

theorem Tail.spoken (t : Tail) : Spoken ts (t.outlines c) := by
  obtain ⟨order, limit, offset⟩ := t
  refine .append ?_ ?_
  · cases order with
    | nil => exact .nil
    | cons k ks => exact .within _ (.flatMap fun k _ => .leaf fun v hv => nomatch hv)
  · have hlimit : Spoken ts (Bound.outlines .limit limit) := spoken_bound limit fun _ _ h => nomatch h
    have hoffset : Spoken ts (Bound.outlines .offset offset) :=
      spoken_bound offset fun _ _ h => nomatch h
    have hbounds := hlimit.append hoffset
    cases limit <;> cases offset
    · exact .nil
    all_goals exact hbounds.within _

theorem spoken_condition (x : Condition) :
    Spoken (Category.condition.tokens x) (Category.condition.outlines c x) :=
  .cons ((x.clauses.spoken.mono fun _ ht => by simp [Category.condition, ht]).within _) x.tail.spoken

/-! ## Statements and texts -/

theorem spoken_projections (projections : List Projection) :
    Spoken (Category.projection.list.tokens projections)
      (Category.projection.list.outlines c projections) := by
  apply Spoken.list
  rintro (name | name) -
  · refine .leaf fun v hv => ?_
    obtain ⟨-, rfl⟩ := Leaf.atom.inj hv
    exact .inl (List.mem_singleton_self _)
  · exact .leaf fun v hv => nomatch hv

theorem Change.spoken (x : Change) : Spoken x.tokens (x.outlines c) := by
  cases x with
  | insert content =>
      refine .within _ (.append ?_ (.leaf fun v hv => nomatch hv))
      rw [List.map_eq_flatMap]
      refine .flatMap fun name hname => .leaf fun v hv => ?_
      obtain ⟨-, rfl⟩ := Leaf.atom.inj hv
      exact .inr ⟨content, by simp [Change.tokens], hname⟩
  | update calls =>
      exact (Spoken.list (k := Category.call) fun call _ => spoken_call call).mono
        (List.subset_cons_self _ _)
  | delete targets =>
      refine (Spoken.list (k := Category.target) fun x _ => ?_).mono (List.subset_cons_self _ _)
      cases x with
      | call call => exact spoken_call call
      | term t => exact spoken_term t
  | merge first second =>
      exact .cons ((spoken_term first).mono fun _ ht => by simp [Change.tokens, ht])
        ((spoken_term second).mono fun _ ht => by simp [Change.tokens, ht])

theorem Statement.spoken (x : Statement) :
    Spoken (Category.statement.tokens x) (Category.statement.outlines c x) := by
  cases x with
  | select projections isWhere x =>
      exact .within _ (.append
        ((spoken_projections projections).mono fun _ ht => by simp [Category.statement, ht])
        ((spoken_condition x).mono fun _ ht => by simp [Category.statement, ht]))
  | bare x => exact (spoken_condition x).within _
  | change x y =>
      refine .within _ (.append (x.spoken.mono fun _ ht => by simp [Category.statement, ht]) ?_)
      cases y with
      | none => exact .nil
      | some y =>
          exact (spoken_condition y.2).mono fun _ ht => by
            simp [Category.statement, Category.optionalCondition, ht]
  | load source targets =>
      refine .within _ (.cons ((spoken_term source).mono fun _ ht => by
        simp [Category.statement, ht]) ?_)
      cases targets with
      | nil => exact .nil
      | cons t ts =>
          refine .within _ ((Spoken.list (k := Category.iri) fun t _ => spoken_term t).mono
            fun _ ht => ?_)
          simp [Category.statement, Category.intoTokens, ht]
  | drop source =>
      exact ((spoken_term source).mono fun _ ht => by simp [Category.statement, ht]).within _
  | create source =>
      exact ((spoken_term source).mono fun _ ht => by simp [Category.statement, ht]).within _

theorem Rule.spoken (r : Rule) : Spoken (Category.rule.tokens r) (Category.rule.outlines c r) := by
  have hparameters : Spoken (Category.parameter.list.tokens r.parameters)
      (Category.parameter.list.outlines c r.parameters) := by
    refine .list fun name _ => .leaf fun v hv => ?_
    obtain ⟨-, rfl⟩ := Leaf.atom.inj hv
    exact .inl (List.mem_singleton_self _)
  exact .within _ (.append (hparameters.mono fun _ ht => by simp [Category.rule, ht])
    ((r.body.spoken.mono fun _ ht => by simp [Category.rule, ht]).within _))

/-- Every variable that a text reports is one that it says. -/
theorem Document.spoken (d : Document) (c : Grammar.Setting) : Spoken d.tokens [d.outline c] := by
  refine .within _ (.append ?_ (.append ?_ ?_))
  · intro v hv
    obtain ⟨o, ho, hv⟩ := mem_eventsAll.mp hv
    obtain ⟨item, hitem, rfl⟩ := List.mem_map.mp ho
    obtain rfl : Leaf.atom .var v = item := by simpa [events] using hv
    obtain ⟨iri, heq⟩ | ⟨identifier, iri, kind, heq⟩ := Directive.mem_leavesAll hitem <;> cases heq
  · refine .flatMap fun r hr => r.spoken.mono fun t ht => ?_
    simp only [Document.tokens, List.mem_append, List.mem_flatMap]
    exact .inr (.inl ⟨r, hr, ht⟩)
  · refine .flatMap fun x hx => x.spoken.mono fun t ht => ?_
    simp only [Document.tokens, List.mem_append, List.mem_flatMap]
    exact .inr (.inr (.inl ⟨x, hx, ht⟩))

/-! ## Words -/

theorem isUnbroken_of_proper {v : String} (h : (Token.atom .var v).Proper) :
    Text.IsUnbroken v.toList := by
  obtain ⟨first, more, hname, hfirst, hmore⟩ := h
  refine ⟨by simp [hname], fun d hd => Text.not_isBlank_of_name ?_⟩
  rw [hname] at hd
  obtain rfl | hd := List.mem_cons.mp hd
  · exact .inl hfirst
  · exact .inr (hmore d hd)

/-- Each variable that a text reports is one word. -/
theorem Document.isUnbroken_of_mem {d : Document} {c : Grammar.Setting} {v : String}
    (hproper : ∀ t ∈ d.tokens, t.Proper) (h : .leaf (.atom .var v) ∈ (d.outline c).events) :
    Text.IsUnbroken v.toList := by
  obtain hv | ⟨content, -, hv⟩ := d.spoken c v (by simpa [eventsAll] using h)
  · exact isUnbroken_of_proper (hproper _ hv)
  · exact Fragment.isUnbroken_of_mem_mentioned hv

end Phrase

end TopicQuery
