import TopicQuery.Proofs.Optimized.Layers

/-!
Rules and statements whose clauses are reduced. Everything in them but their
clauses stays, so they can be made from what is left if they could be made before.
-/

namespace TopicQuery

variable {one : List String → Clause → Clause → Prop}

/-! ## Reduced rules and statements -/

/-- A rule with what is left of its body; `one` knows the parameters. -/
structure Rule.Reduces (one : List String → Clause → Clause → Prop) (r r' : Rule) : Prop where
  name : r.name = r'.name
  parameters : r.parameters = r'.parameters
  body : TopicQuery.Reduces (one r.parameters) r.body r'.body

theorem Rule.Reduces.trans {r r' r'' : Rule} (h : r.Reduces one r') (h' : r'.Reduces one r'') :
    r.Reduces one r'' :=
  ⟨h.name.trans h'.name, h.parameters.trans h'.parameters,
    h.body.trans (h.parameters ▸ h'.body)⟩

/-- The statement with other conditions, if it is of a kind that has any. -/
def Statement.withClauses : Statement → List Clause → Statement
  | .select projection _ modifiers, xs => .select projection xs modifiers
  | .insert content _ modifiers, xs => .insert content xs modifiers
  | .update changes _ modifiers, xs => .update changes xs modifiers
  | .delete targets _ modifiers, xs => .delete targets xs modifiers
  | .merge first second _ modifiers, xs => .merge first second xs modifiers
  | .load source into, _ => .load source into
  | .drop target, _ => .drop target
  | .create target, _ => .create target

@[simp] theorem Statement.withClauses_clauses (s : Statement) : s.withClauses s.clauses = s := by
  cases s <;> rfl

@[simp] theorem Statement.withClauses_withClauses (s : Statement) (xs ys : List Clause) :
    (s.withClauses xs).withClauses ys = s.withClauses ys := by
  cases s <;> rfl

/-- A statement with what is left of its conditions. -/
structure Statement.Reduces (one : Clause → Clause → Prop) (s s' : Statement) : Prop where
  rest : s' = s.withClauses s'.clauses
  clauses : TopicQuery.Reduces one s.clauses s'.clauses

theorem Statement.Reduces.refl {one : Clause → Clause → Prop} (s : Statement) : s.Reduces one s :=
  ⟨by simp, .refl _⟩

theorem Statement.Reduces.trans {one : Clause → Clause → Prop} {s s' s'' : Statement}
    (h : s.Reduces one s') (h' : s'.Reduces one s'') : s.Reduces one s'' := by
  refine ⟨?_, h.clauses.trans h'.clauses⟩
  calc s'' = s'.withClauses s''.clauses := h'.rest
    _ = (s.withClauses s'.clauses).withClauses s''.clauses := by rw [← h.rest]
    _ = s.withClauses s''.clauses := by simp

/-! ## Operands -/

/-- An operand of a rule or statement, with what is left of it if it is a body or a condition. -/
inductive Operand.Keeps (one : Clause → Clause → Prop) : Operand → Operand → Prop
  | same (o : Operand) : Operand.Keeps one o o
  | condition {xs ys : List Clause} : TopicQuery.Reduces one xs ys →
      Operand.Keeps one (.condition xs) (.condition ys)
  | body {xs ys : List Clause} : TopicQuery.Reduces one xs ys →
      Operand.Keeps one (.body xs) (.body ys)

/-- A rule or a statement with what is left of its clauses. -/
inductive Operand.ReducesScope (one : List String → Clause → Clause → Prop) :
    Operand → Operand → Prop
  | rule {r r' : Rule} : r.Reduces one r' → Operand.ReducesScope one (.rule r) (.rule r')
  | statement {s s' : Statement} : s.Reduces (one []) s' →
      Operand.ReducesScope one (.statement s) (.statement s')

namespace Operand.Keeps

variable {one : Clause → Clause → Prop} {os os' : List Operand}

theorem mono {two : Clause → Clause → Prop} {o o' : Operand} (h : o.Keeps one o')
    (hone : ∀ {x y}, one x y → two x y) : o.Keeps two o' := by
  cases h with
  | same => exact .same _
  | condition h => exact .condition (h.mono hone)
  | body h => exact .body (h.mono hone)

/-- A selection that takes no clauses takes the same from both. -/
theorem filterMap_eq {α : Type} (select : Operand → Option α)
    (hcondition : ∀ xs, select (.condition xs) = none) (hbody : ∀ xs, select (.body xs) = none)
    (h : List.Forall₂ (Operand.Keeps one) os os') : os.filterMap select = os'.filterMap select := by
  induction h with
  | nil => rfl
  | cons hfirst _ ih =>
      cases hfirst with
      | same => rw [List.filterMap_cons, List.filterMap_cons, ih]
      | condition _ => simp [hcondition, ih]
      | body _ => simp [hbody, ih]

theorem first?_eq {α : Type} (select : Operand → Option α)
    (hcondition : ∀ xs, select (.condition xs) = none) (hbody : ∀ xs, select (.body xs) = none)
    (h : List.Forall₂ (Operand.Keeps one) os os') :
    Operands.first? select os = Operands.first? select os' := by
  rw [Operands.first?, Operands.first?, ← List.head?_filterMap, ← List.head?_filterMap,
    filterMap_eq select hcondition hbody h]

theorem mapM_eq {α : Type} (g : Operand → Except Failure α)
    (hcondition : ∀ xs ys, g (.condition xs) = g (.condition ys))
    (hbody : ∀ xs ys, g (.body xs) = g (.body ys))
    (h : List.Forall₂ (Operand.Keeps one) os os') : os.mapM g = os'.mapM g := by
  induction h with
  | nil => rfl
  | cons hfirst _ ih =>
      rw [List.mapM_cons, List.mapM_cons, ih]
      cases hfirst with
      | same => rfl
      | condition _ => rw [hcondition]
      | body _ => rw [hbody]

theorem modifiers_eq (h : List.Forall₂ (Operand.Keeps one) os os') :
    Operands.modifiers os = Operands.modifiers os' := by
  rw [Operands.modifiers, Operands.modifiers, Operands.last?, Operands.last?, Operands.last?,
    Operands.last?, filterMap_eq Operand.pagination? (fun _ => rfl) (fun _ => rfl) h,
    filterMap_eq Operand.orderBy? (fun _ => rfl) (fun _ => rfl) h]

theorem terms_eq (h : List.Forall₂ (Operand.Keeps one) os os') :
    Operands.terms os = Operands.terms os' := by
  rw [Operands.terms, Operands.terms,
    filterMap_eq Operand.term? (fun _ => rfl) (fun _ => rfl) h]

/-- The conditions that count are those that counted before, reduced. -/
theorem condition_last (h : List.Forall₂ (Operand.Keeps one) os os') :
    TopicQuery.Reduces one (Operands.condition os) (Operands.condition os') := by
  have hlists : List.Forall₂ (TopicQuery.Reduces one) (os.filterMap Operand.condition?)
      (os'.filterMap Operand.condition?) := by
    induction h with
    | nil => exact .nil
    | @cons o o' os os' hfirst _ ih =>
        cases hfirst with
        | same =>
            cases o with
            | condition xs => exact .cons (.refl xs) ih
            | _ => exact ih
        | condition h => exact .cons h ih
        | body _ => exact ih
  rw [Operands.condition, Operands.condition, Operands.last?, Operands.last?]
  generalize os.filterMap Operand.condition? = xss, os'.filterMap Operand.condition? = yss at hlists
  induction hlists with
  | nil => exact .refl _
  | cons hfirst hrest ih =>
      cases hrest with
      | nil => exact hfirst
      | cons _ _ => exact ih

/-- The body of a rule is the one it had, reduced. -/
theorem body_first (h : List.Forall₂ (Operand.Keeps one) os os') :
    TopicQuery.Reduces one ((Operands.first? Operand.body? os).getD [])
      ((Operands.first? Operand.body? os').getD []) := by
  induction h with
  | nil => exact .refl _
  | @cons o o' os os' hfirst _ ih =>
      cases hfirst with
      | same =>
          cases o with
          | body xs => exact .refl xs
          | _ => exact ih
      | condition _ => exact ih
      | body h => exact h

end Operand.Keeps

/-! ## Rules -/

theorem mem_variablesOf {p : String} {xs : List Clause} :
    p ∈ variablesOf xs ↔ p ∈ occurrencesIn xs := mem_distinct

/-- A rule can be made from what is left of its body if and only if it can be made from all of it. -/
theorem Rule.create_agree {name : String} {parameters : List String} {xs ys : List Clause}
    (hone : ∀ {x y}, one parameters x y → ∀ p ∈ parameters, (p ∈ x.occurrences ↔ p ∈ y.occurrences))
    (h : TopicQuery.Reduces (one parameters) xs ys) :
    Agree (Rule.Reduces one) (Rule.create name parameters xs) (Rule.create name parameters ys) := by
  have hvariables : ∀ p ∈ parameters, (p ∈ variablesOf xs ↔ p ∈ variablesOf ys) := by
    intro p hp
    rw [mem_variablesOf, mem_variablesOf]
    exact Reduces.mem_occurrencesIn_iff (fun hxy => hone hxy p hp) h
  have hunused : (parameters.find? fun p => p ∉ variablesOf xs) =
      parameters.find? fun p => p ∉ variablesOf ys := by
    rw [← List.head?_filter, ← List.head?_filter]
    exact congrArg List.head? (List.filter_congr fun p hp => by simp [hvariables p hp])
  unfold Rule.create
  rw [hunused]
  split
  · trivial
  · split
    · trivial
    · exact ⟨rfl, rfl, h⟩

/-! ## Statements -/

/-- The container is a statement. -/
def Container.IsStatement : Container → Prop
  | .select => True
  | .insert => True
  | .update => True
  | .delete => True
  | .merge => True
  | .load => True
  | .drop => True
  | .create => True
  | _ => False

/-- A statement can be made with what is left of its conditions if it can be made with all. -/
theorem Operands.complete_statement {f : Factory} (hf : f.IsUsual) {c : Container}
    (hc : c.IsStatement) {os os' : List Operand}
    (h : List.Forall₂ (Operand.Keeps (one [])) os os') :
    Agree (Operand.ReducesScope one) (complete f c os) (complete f c os') := by
  obtain ⟨_, _, _, _, rfl⟩ := hf
  have hcondition := Operand.Keeps.condition_last h
  have hempty : (condition os).isEmpty = (condition os').isEmpty := by
    rw [Bool.eq_iff_iff, List.isEmpty_iff, List.isEmpty_iff, hcondition.eq_nil_iff]
  have hmodifiers := Operand.Keeps.modifiers_eq h
  have hterms := Operand.Keeps.terms_eq h
  have hmade : ∀ {r r' : Except Failure Statement}, Agree (Statement.Reduces (one [])) r r' →
      Agree (Operand.ReducesScope one) (r >>= fun s => .ok (.statement s))
        (r' >>= fun s => .ok (.statement s)) := fun hr => hr.map fun _ _ hs => .statement hs
  cases c with
  | select =>
      rw [complete, complete, projection, projection,
        Operand.Keeps.mapM_eq projected (fun _ _ => rfl) (fun _ _ => rfl) h, hmodifiers]
      refine .bind_same _ fun projection => hmade ?_
      dsimp only
      rw [hempty]
      split
      · trivial
      · exact ⟨rfl, hcondition⟩
  | insert =>
      rw [complete, complete,
        Operand.Keeps.first?_eq Operand.content? (fun _ => rfl) (fun _ => rfl) h, hmodifiers]
      split
      · trivial
      · exact .statement ⟨rfl, hcondition⟩
  | update =>
      rw [complete, complete, hmodifiers, clauses, clauses,
        Operand.Keeps.filterMap_eq Operand.clause? (fun _ => rfl) (fun _ => rfl) h]
      refine hmade ?_
      dsimp only
      split
      · trivial
      · exact ⟨rfl, hcondition⟩
  | delete =>
      rw [complete, complete, deletions, deletions,
        Operand.Keeps.mapM_eq deleted (fun _ _ => rfl) (fun _ _ => rfl) h, hmodifiers]
      refine .bind_same _ fun targets => hmade ?_
      dsimp only
      split
      · trivial
      · exact ⟨rfl, hcondition⟩
  | merge =>
      rw [complete, complete, hterms, hmodifiers]
      refine .bind_same _ fun ts => hmade ?_
      dsimp only
      split
      · exact ⟨rfl, hcondition⟩
      · trivial
  | load =>
      rw [complete, complete, hterms,
        Operand.Keeps.first?_eq Operand.into? (fun _ => rfl) (fun _ => rfl) h]
      exact .bind_same _ fun ts => .bind_same _ fun source => .bind_same _ fun into =>
        hmade (.refl .refl _)
  | drop =>
      rw [complete, complete, hterms]
      exact .bind_same _ fun ts => .bind_same _ fun target => hmade (.refl .refl _)
  | create =>
      rw [complete, complete, hterms]
      exact .bind_same _ fun ts => .bind_same _ fun target => hmade (.refl .refl _)
  | _ => exact absurd hc id

/-! ## Elements of rules and statements -/

namespace Element

/-- The tags of statements. -/
def statementTags : List Tag := [.select, .insert, .update, .delete, .merge, .load, .drop, .create]

/-- The element of a rule or statement: at most its conditions or its body hold lists of clauses. -/
structure Scoped (e : Element) : Prop where
  name : e.name = "rule" ∨ e.name ∈ statementTags.map Tag.name
  children : ∀ c ∈ e.children, c.Flat ∨ (c.name = "where" ∨ c.name = "body") ∧ c.Layered
  parameters : e.name = "rule" → ∀ c ∈ e.children, c.Flat → ∃ v, c = (Leaf.atom .var v).element

/-- The variables that stand in a rule or statement itself, such as parameters. -/
def ownVariables (e : Element) : List String := e.children.filterMap variableName?

section Scoped

variable {f : Factory} {read : Leaf → Except Failure Operand} {e c : Element}

theorem operand_of_list (hname : c.name = "where" ∨ c.name = "body") {o : Operand}
    (h : c.meaning f read = .ok o) : ∃ xs, o = .condition xs ∨ o = .body xs := by
  obtain hname | hname := hname
  · rw [meaning_of_container .condition (by simp only [hname]; rfl) rfl (by decide)] at h
    obtain ⟨os, -, ho⟩ := ok_of_bind h
    exact ⟨_, .inl (Except.ok.inj ho).symm⟩
  · rw [meaning_of_container .body (by simp only [hname]; rfl) rfl (by decide)] at h
    obtain ⟨os, -, ho⟩ := ok_of_bind h
    exact ⟨_, .inr (Except.ok.inj ho).symm⟩

/-- An improved child is an operand of the same kind. -/
theorem keeps_of_improves {one : Clause → Clause → Prop} {d : Element}
    (hname : c.name = "where" ∨ c.name = "body") (h : Improves f read one c d) :
    Agree (Operand.Keeps one) (c.meaning f read) (d.meaning f read) := by
  refine h.agree.imp_of_ok fun hok hreduces => ?_
  obtain ⟨xs, rfl | rfl⟩ := operand_of_list hname hok
  · cases hreduces with
    | same => exact .same _
    | condition h => exact .condition h
  · cases hreduces with
    | same => exact .same _
    | body h => exact .body h

/-- The parameters of a rule are the variables that stand in it. -/
theorem variableNames_of_rule (he : e.Scoped) (hname : e.name = "rule") (hread : Reads read)
    {os : List Operand} (hos : e.children.mapM (meaning f read) = .ok os) {ps : List String}
    (hps : Operands.variableNames os = .ok ps) : ps = e.ownVariables := by
  have hterms : os.filterMap Operand.term? = e.ownVariables.map .var := by
    have hchildren : ∀ c ∈ e.children, (∃ v, c = (Leaf.atom .var v).element) ∨
        c.name = "where" ∨ c.name = "body" := fun c hc =>
      (he.children c hc).imp (he.parameters hname c hc) And.left
    have hall := mapM_eq_ok_iff.mp hos
    rw [ownVariables]
    clear hos hps
    generalize e.children = cs at hchildren hall
    induction hall with
    | nil => rfl
    | @cons c o cs os hfirst _ ih =>
        have hrest := ih fun d hd => hchildren d (by simp [hd])
        obtain ⟨v, rfl⟩ | hlist := hchildren c (by simp)
        · have hterm : (Leaf.atom .var v).IsTerm := trivial
          rw [hterm.meaning_element, hread.var] at hfirst
          cases hfirst
          exact congrArg (Term.var v :: ·) hrest
        · have hother : c.variableName? = none := by
            obtain hlist | hlist := hlist <;> simp [variableName?, hlist]
          rw [List.filterMap_cons_none hother, ← hrest]
          obtain ⟨xs, rfl | rfl⟩ := operand_of_list hlist hfirst <;> rfl
  have hnames : ∀ vs : List String, (vs.map Term.var).mapM Operands.variableName = .ok vs := by
    intro vs
    induction vs with
    | nil => rfl
    | cons v vs ih => rw [List.map_cons, List.mapM_cons, ih]; rfl
  have hmodule : (e.ownVariables.map Term.var).any Operands.isModule = false := by
    simp [Operands.isModule]
  rw [Operands.variableNames, Operands.terms, hterms, hmodule] at hps
  exact (Except.ok.inj ((hnames _).symm.trans hps)).symm

theorem exists_container_of_statement {tag : Tag} (h : tag ∈ statementTags) :
    ∃ k : Container, k.IsStatement ∧ k ≠ .document ∧ ∀ e : Element, e.container tag = .ok k := by
  simp only [statementTags, List.mem_cons, List.not_mem_nil, or_false] at h
  obtain rfl | rfl | rfl | rfl | rfl | rfl | rfl | rfl := h
  · exact ⟨.select, trivial, by decide, fun _ => rfl⟩
  · exact ⟨.insert, trivial, by decide, fun _ => rfl⟩
  · exact ⟨.update, trivial, by decide, fun _ => rfl⟩
  · exact ⟨.delete, trivial, by decide, fun _ => rfl⟩
  · exact ⟨.merge, trivial, by decide, fun _ => rfl⟩
  · exact ⟨.load, trivial, by decide, fun _ => rfl⟩
  · exact ⟨.drop, trivial, by decide, fun _ => rfl⟩
  · exact ⟨.create, trivial, by decide, fun _ => rfl⟩

/-- The children of a rule or statement may be improved, each by itself. -/
theorem scoped_map (he : e.Scoped) {change : Element → Element}
    (hflat : ∀ c ∈ e.children, c.Flat → change c = c) (hname : ∀ c, (change c).name = c.name)
    (hlayered : ∀ c ∈ e.children, c.Layered → (change c).Layered) :
    Scoped { e with children := e.children.map change } := by
  refine ⟨he.name, ?_, ?_⟩
  · rintro _ hmem
    obtain ⟨c, hc, rfl⟩ := List.mem_map.mp hmem
    obtain h | ⟨hlist, h⟩ := he.children c hc
    · exact .inl (by rwa [hflat c hc h])
    · exact .inr ⟨by rwa [hname], hlayered c hc h⟩
  · rintro hrule _ hmem hcflat
    obtain ⟨c, hc, rfl⟩ := List.mem_map.mp hmem
    obtain h | ⟨hlist, h⟩ := he.children c hc
    · rw [hflat c hc h]
      exact he.parameters hrule c hc h
    · have hcname := hname c
      have hnot := hcflat.not_list
      obtain hlist | hlist := hlist <;> simp [isClauseList, hcname, hlist] at hnot

/-- What a rule or statement means is reduced when its conditions or its body are improved. -/
theorem scoped_agree (hf : f.IsUsual) (hread : Reads read)
    (hrule : ∀ {name parameters xs ys}, TopicQuery.Reduces (one parameters) xs ys →
      Agree (Rule.Reduces one) (f.rule name parameters xs) (f.rule name parameters ys))
    (hforget : ∀ {keep x y}, one keep x y → one [] x y) (he : e.Scoped)
    {change : Element → Element} (hflat : ∀ c ∈ e.children, c.Flat → change c = c)
    (himproves : ∀ c ∈ e.children, c.Layered → Improves f read (one e.ownVariables) c (change c)) :
    Agree (Operand.ReducesScope one) (e.meaning f read)
      (({ e with children := e.children.map change } : Element).meaning f read) := by
  have hoperands : Agree (List.Forall₂ (Operand.Keeps (one e.ownVariables)))
      (e.children.mapM (meaning f read)) ((e.children.map change).mapM (meaning f read)) := by
    refine Agree.mapM (List.forall₂_map_right_iff.mpr (List.forall₂_same.mpr fun c hc => ?_))
    obtain h | ⟨hlist, h⟩ := he.children c hc
    · rw [hflat c hc h]
      exact .refl .same _
    · exact keeps_of_improves hlist (himproves c hc h)
  have hlooks : LooksLike { e with children := e.children.map change } e := ⟨rfl, rfl, fun _ _ => rfl⟩
  obtain hname | hstatement := he.name
  · have htag : Tag.ofName? e.name = some .rule := by rw [hname]; rfl
    rw [meaning_of_tag .rule htag,
      @meaning_of_tag f read { e with children := e.children.map change } .rule htag,
      hlooks.container, Element.container]
    cases e.required "name" with
    | error fault => trivial
    | ok name =>
        refine hoperands.bind_of_ok fun os os' hos h => ?_
        have hnames : Operands.variableNames os' = Operands.variableNames os := by
          rw [Operands.variableNames, Operands.variableNames, Operand.Keeps.terms_eq h]
        rw [Operands.complete, Operands.complete, hnames]
        cases hps : Operands.variableNames os with
        | error fault => trivial
        | ok ps =>
            obtain rfl := variableNames_of_rule he hname hread hos hps
            exact (hrule (Operand.Keeps.body_first h)).map fun _ _ hr => .rule hr
  · obtain ⟨tag, htag, hname⟩ := List.mem_map.mp hstatement
    obtain ⟨k, hk, hdocument, hcontainer⟩ := exists_container_of_statement htag
    have htag : Tag.ofName? e.name = some tag := by rw [← hname, Tag.ofName?_name]
    rw [meaning_of_container tag htag (hcontainer e) hdocument,
      @meaning_of_container f read { e with children := e.children.map change } tag k htag
        (hcontainer _) hdocument]
    exact hoperands.bind fun os os' h =>
      Operands.complete_statement hf hk (h.imp fun _ _ ho => ho.mono hforget)

end Scoped

end Element

end TopicQuery
