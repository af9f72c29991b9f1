import TopicQuery.Proofs.Canonical.Statement
import TopicQuery.Proofs.Rendered.Clause
import TopicQuery.Rendering

/-!
Rendered statements. Behind what a statement is about stand its conditions, the
order and the extent of its result, each of them told by the name of its element.
-/

namespace TopicQuery.Phrase

open Grammar Style

variable {s : Style} {c : Scope}

/-! ## Order and extent -/

theorem spelled_variable {name : String} (h : (Token.atom .var name).Proper) :
    Spelled [.atom .var name] ("$" ++ name) := spelled_atom h

/-- The tokens of a phrase that are not said by a canonical numeral are proper. -/
theorem sortKey_gives {k : SortKey} (hproper : (Token.atom .var k.name).Proper) :
    Gives (Style.sortKey (Leaf.order k.name (k.direction = .descending)).element) True
      (Spelled (Category.sortKey.tokens k.canonical)) := by
  obtain ⟨name, direction⟩ := k
  have hdesc : Spelled [.keyword .desc] " desc" := (spelled_keyword .desc (by simp)).behind_blank
  have hname := spelled_variable hproper
  cases direction with
  | bare => exact gives_ok hname
  | ascending => exact gives_ok hname
  | descending => exact gives_ok (hname.append hdesc (by decide))

theorem bound_spelled (word : Keyword) (hword : word ≠ .insert) (b : Bound) :
    Spelled (Bound.tokens word (some b.canonical))
      (" " ++ word.text ++ " " ++ Text.numeral b.number.toNat) := by
  have hnumber : Spelled [.atom .integer (Text.numeral b.number.toNat)]
      (Text.numeral b.number.toNat) := spelled_atom (Lexeme.proper_numeral _)
  exact ((spelled_keyword word hword).behind_blank.blank).append_spelled hnumber

/-- What follows the clauses begins with a blank, if there is anything. -/
def Follows (ts : List Token) (text : String) : Prop := Spelled ts text ∧ Soft text.toList

theorem follows_nil : Follows [] "" := ⟨sealed_nil.spelled, by decide⟩

theorem Follows.append {ts us : List Token} {text text' : String} (h : Follows ts text)
    (h' : Follows us text') : Follows (ts ++ us) (text ++ text') := by
  refine ⟨h.1.append h'.1 h'.2, ?_⟩
  rw [String.toList_append]
  exact h.2.append h'.2

/-- The text of a sort order. -/
def orderText (e : Element) : Except RenderFault String :=
  match e.child? "orderby" with
  | some order => do pure (" order by " ++ commaList (← order.children.mapM Style.sortKey))
  | none => pure ""

/-- The text of a limit or an offset. -/
def extentPart (e : Element) : Except RenderFault String := do
  pure (" " ++ e.name ++ " " ++ (← e.writtenValue))

/-- The text of an extent. -/
def extentTexts (e : Element) : Except RenderFault (List String) :=
  match e.child? "pagination" with
  | some pagination => pagination.children.mapM extentPart
  | none => pure []

theorem order_gives {e : Element} {order : List SortKey}
    (hchild : e.child? "orderby" = (Tail.orderOutlines c order).head?.map Outline.element)
    (hproper : ∀ k ∈ order, (Token.atom .var k.name).Proper) :
    Gives (orderText e) True (Follows (Tail.orderTokens (order.map SortKey.canonical))) := by
  unfold orderText
  cases order with
  | nil =>
      rw [hchild]
      exact gives_ok follows_nil
  | cons k order =>
      have horder : Sealed [.keyword .order, .keyword .byWord] " order by " := by
        have hwords := (spelled_keyword .order (by simp)).behind_blank.append_sealed
          (spelled_keyword .byWord (by simp)).blank.behind_blank (by decide) (by decide)
        simpa [Keyword.text] using hwords
      have hkeys := gives_mapM (f := fun k : SortKey => Style.sortKey
        (Leaf.order k.name (k.direction = .descending)).element)
        fun (k' : SortKey) (hk : k' ∈ k :: order) => sortKey_gives (hproper k' hk)
      have hchildren : (Outline.within .ordering
          (Category.sortKey.list.outlines c (k :: order))).element.children =
            (k :: order).map fun k => (Leaf.order k.name (k.direction = .descending)).element := by
        rw [Outline.element, Outline.elements_eq_map]
        simp only [Category.list, Category.sortKey, ← List.map_eq_flatMap, List.map_map]
        rfl
      rw [hchild]
      simp only [Tail.orderOutlines, List.head?_cons, Option.map_some]
      rw [hchildren, List.mapM_map]
      refine (hkeys.map fun {texts} htexts => ?_).of_iff (by simp)
      have hlist := spelled_commaList htexts
      rw [← listed_map Category.sortKey.tokens SortKey.canonical] at hlist
      exact ⟨horder.append_spelled hlist, by simp [Soft, boundaries]⟩

theorem extent_gives {e : Element} {limit offset : Option Bound}
    (hchild : e.child? "pagination" = (Tail.extentOutlines limit offset).head?.map Outline.element) :
    Gives (extentTexts e) True fun texts =>
      Follows (Bound.tokens .limit (limit.map Bound.canonical) ++
        Bound.tokens .offset (offset.map Bound.canonical)) (String.join texts) := by
  have hlimit : ∀ b : Bound, Gives (extentPart (Leaf.limit b.number).element) True
      (Follows (Bound.tokens .limit (some b.canonical))) := fun b =>
    gives_ok ⟨bound_spelled .limit (by simp) b, by simp [Soft, boundaries]⟩
  have hoffset : ∀ b : Bound, Gives (extentPart (Leaf.offset b.number).element) True
      (Follows (Bound.tokens .offset (some b.canonical))) := fun b =>
    gives_ok ⟨bound_spelled .offset (by simp) b, by simp [Soft, boundaries]⟩
  unfold extentTexts
  rw [hchild]
  cases limit with
  | none =>
      cases offset with
      | none => exact gives_ok follows_nil
      | some b =>
          refine Gives.of_iff ((hoffset b).map (f := fun text => [text]) fun {text} h => ?_) Iff.rfl
          simpa [Bound.tokens] using h
  | some a =>
      cases offset with
      | none =>
          refine Gives.of_iff ((hlimit a).map (f := fun text => [text]) fun {text} h => ?_) Iff.rfl
          simpa [Bound.tokens] using h
      | some b =>
          refine Gives.of_iff ((hlimit a).bind fun text h =>
            (hoffset b).map (f := fun text' => [text, text']) fun {text'} h' => ?_) (by simp)
          simpa using h.append h'

/-- Order and extent are written in canonical form. -/
theorem tail_gives {e : Element} {t : Tail}
    (horder : e.child? "orderby" = (Tail.orderOutlines c t.order).head?.map Outline.element)
    (hextent : e.child? "pagination" =
      (Tail.extentOutlines t.limit t.offset).head?.map Outline.element)
    (hproper : ∀ u ∈ t.tokens, u.Proper) :
    Gives (Style.tail e) True (Follows t.canonical.tokens) := by
  have hnames : ∀ k ∈ t.order, (Token.atom .var k.name).Proper := by
    intro k hk
    refine hproper _ (List.mem_append_left _ ?_)
    have hlisted : Token.atom .var k.name ∈ Category.sortKey.list.tokens t.order :=
      mem_listed_of_mem hk (by simp [Category.sortKey])
    cases horder : t.order with
    | nil => simp [horder] at hk
    | cons k' order =>
        rw [horder] at hlisted
        exact List.mem_cons_of_mem _ (List.mem_cons_of_mem _ hlisted)
  have htail : Style.tail e = (orderText e >>= fun order => extentTexts e >>= fun extent =>
      .ok (order ++ String.join extent)) := by
    unfold Style.tail orderText extentTexts
    cases e.child? "orderby" <;> cases e.child? "pagination" <;> simp <;> rfl
  rw [htail]
  exact ((order_gives horder hnames).bind fun order horder => (extent_gives hextent).map
    fun {texts} htexts => horder.append htexts).of_iff (by simp)

/-! ## Conditions -/

/-- The element of a condition. -/
def conditionElement (c : Scope) (x : Condition) : Element :=
  (Outline.within .condition (x.clauses.outlines c)).element

/-- The elements of a condition and what belongs to it. -/
def conditionElements (c : Scope) (x : Condition) : List Element :=
  Outline.elements (Category.condition.outlines c x)

theorem isTail_conditionElements (x : Condition) : ∀ e ∈ conditionElements c x, isTail e = true := by
  obtain ⟨clauses, order, limit, offset⟩ := x
  cases order <;> cases limit <;> cases offset <;>
    simp [conditionElements, Category.condition, Tail.outlines, Tail.orderOutlines,
      Tail.extentOutlines, Outline.elements, Outline.element, isTail, Container.tag, Tag.name]

/-- A child that belongs to a condition is looked for behind everything else. -/
theorem child?_front {e : Element} {front rest : List Element} {name : String}
    (hname : name ∈ ["where", "orderby", "pagination"]) (hfront : ∀ x ∈ front, isTail x = false)
    (hchildren : e.children = front ++ rest) :
    e.child? name = rest.find? (·.name == name) := by
  have hnone : front.find? (·.name == name) = none := by
    refine List.find?_eq_none.mpr fun x hx hfound => ?_
    have := hfront x hx
    rw [isTail, beq_iff_eq.mp hfound] at this
    simp [hname] at this
  rw [Element.child?, hchildren, List.find?_append, hnone, Option.none_or]

section Conditional

variable {e : Element} {front : List Element} {x : Condition}

theorem child?_where (hfront : ∀ x ∈ front, isTail x = false)
    (hchildren : e.children = front ++ conditionElements c x) :
    e.child? "where" = some (conditionElement c x) :=
  child?_front (by decide) hfront hchildren

theorem child?_orderby (hfront : ∀ x ∈ front, isTail x = false)
    (hchildren : e.children = front ++ conditionElements c x) :
    e.child? "orderby" = (Tail.orderOutlines c x.tail.order).head?.map Outline.element := by
  rw [child?_front (by decide) hfront hchildren]
  obtain ⟨clauses, order, limit, offset⟩ := x
  cases order <;> cases limit <;> cases offset <;> rfl

theorem child?_pagination (hfront : ∀ x ∈ front, isTail x = false)
    (hchildren : e.children = front ++ conditionElements c x) :
    e.child? "pagination" =
      (Tail.extentOutlines x.tail.limit x.tail.offset).head?.map Outline.element := by
  rw [child?_front (by decide) hfront hchildren]
  obtain ⟨clauses, order, limit, offset⟩ := x
  cases order <;> cases limit <;> cases offset <;> rfl

/-- A statement with a condition is written as its head and the clauses, order and extent behind it. -/
theorem conditional_eq (hcomment : s.comment e = "") {condition : Element}
    (hwhere : e.child? "where" = some condition) :
    s.conditional e = (s.head e >>= fun head => s.clauseList condition >>= fun clauses =>
      Style.tail e >>= fun tail =>
        .ok (head ++ clauses ++ tail ++ ((if e.name == "select" then "?" else "") ++ "\n"))) := by
  unfold Style.conditional
  simp only [hwhere, hcomment, pure_bind, String.empty_append, String.append_assoc]
  rfl

/-- Without a condition the final word of the head is left out. -/
theorem conditional_eq_of_none (hcomment : s.comment e = "") (hwhere : e.child? "where" = none) :
    s.conditional e = (s.head e >>= fun head => Style.tail e >>= fun tail =>
      .ok (String.ofList (withoutFinalFrom head.toList) ++ tail ++
        ((if e.name == "select" then "?" else "") ++ "\n"))) := by
  unfold Style.conditional
  simp only [hwhere, hcomment, pure_bind, String.empty_append, String.append_assoc]
  rfl

theorem finishes_ending (question : Bool) :
    Scan.Finishes (Document.questionTokens question)
      ((if question then "?" else "") ++ "\n").toList := by
  cases question with
  | false => exact (Scan.spells_blank (b := '\n') (by decide)).finishes Scan.finishes_nil
  | true => exact @Scan.finishes_question ['\n']

theorem soft_ending (question : Bool) : Soft ((if question then "?" else "") ++ "\n").toList := by
  cases question <;> decide

/-- A statement with a condition ends the text. -/
theorem finishes_conditional {ts us vs : List Token} {head clauses tail : String}
    (hhead : Sealed ts head) (hclauses : Spelled us clauses) (htail : Follows vs tail)
    (question : Bool) :
    Scan.Finishes (ts ++ (us ++ vs ++ Document.questionTokens question))
      (head ++ clauses ++ tail ++ ((if question then "?" else "") ++ "\n")).toList := by
  have hbody := (hhead.append_spelled hclauses).append htail.1 htail.2
  have hall := hbody.finishes (soft_ending question) (finishes_ending question)
  simpa using hall

/-- A statement with a condition is written as its head and the condition in canonical form. -/
theorem conditional_gives (hs : s.Suits c) (hfront : ∀ x ∈ front, isTail x = false)
    (hchildren : e.children = front ++ conditionElements c x)
    (hrefers : Category.condition.Refers c x)
    (hproper : ∀ u ∈ Category.condition.tokens x, u.Proper) {plain : Prop} {ts : List Token}
    (hhead : Gives (s.head e) (s.Allows plain) (Sealed ts)) :
    Gives (s.conditional e) (s.Allows (plain ∧ Category.condition.IsPlain (x.canonical c)))
      fun text => Scan.Finishes
        (ts ++ (Category.condition.tokens (x.canonical c) ++
          Document.questionTokens (e.name == "select"))) text.toList := by
  have hclauses := x.clauses.writes hs hrefers.1 fun u hu => hproper u (List.mem_append_left _ hu)
  have htail := tail_gives (child?_orderby hfront hchildren) (child?_pagination hfront hchildren)
    fun u hu => hproper u (List.mem_append_right _ hu)
  have hlist : Gives (s.clauseList (conditionElement c x))
      (s.Allows (x.clauses.canonical c).IsPlain) (Spelled (x.clauses.canonical c).tokens) :=
    hclauses.map fun {texts} htexts => by simpa [hs.comment] using htexts.2
  rw [conditional_eq (hs.comment e) (child?_where hfront hchildren)]
  refine (hhead.bind fun head hhead => (hlist.bind fun clauses hclauses => htail.map
    fun {tail} htail => ?_)).of_iff ?_
  · exact finishes_conditional hhead hclauses htail _
  · rw [allows_and]
    simp [Category.condition, Condition.canonical]

end Conditional

/-! ## Heads -/

theorem sealed_keyword_blank (k : Keyword) (hk : k ≠ .insert) :
    Sealed [.keyword k] (k.text ++ " ") := (spelled_keyword k hk).blank

theorem sealed_from : Sealed [.keyword .fromWord] " from " :=
  (sealed_keyword_blank .fromWord (by simp)).behind_blank

/-- The element of what is selected. -/
def projectionElement : Projection → Element
  | .variable name => (Leaf.atom .var name).element
  | .count name => (Leaf.count name).element

/-- What is selected, on its own. -/
theorem projection_gives {p : Projection} (hproper : ∀ u ∈ Category.projection.tokens p, u.Proper) :
    Gives (projected (projectionElement p)) True fun texts =>
      ∃ text, texts = [text] ∧ Spelled (Category.projection.tokens p) text := by
  match p with
  | .variable name =>
      exact gives_ok ⟨_, rfl, spelled_variable (hproper _ (by simp [Category.projection]))⟩
  | .count name =>
      have hname := spelled_variable (hproper (.atom .var name) (by simp [Category.projection]))
      have hopen : Sealed [.keyword .count, .symbol .lparen] "count(" := by
        have hwords := (spelled_keyword .count (by simp)).append_sealed sealed_lparen (by decide)
          (by decide)
        simpa [Keyword.text] using hwords
      exact gives_ok ⟨_, rfl, ((hopen.append_spelled hname).append_sealed sealed_rparen (by decide)
        (by decide)).spelled⟩

theorem elements_projections (ps : List Projection) :
    Outline.elements (Category.projection.list.outlines c ps) = ps.map projectionElement := by
  induction ps with
  | nil => rfl
  | cons p ps ih =>
      have hcons : Category.projection.list.outlines c (p :: ps) =
          Category.projection.outlines c p ++ Category.projection.list.outlines c ps := rfl
      rw [hcons, Outline.elements_eq_map, List.map_append, ← Outline.elements_eq_map,
        ← Outline.elements_eq_map, ih]
      cases p <;> rfl

theorem isTail_projectionElement (p : Projection) : isTail (projectionElement p) = false := by
  cases p <;> rfl

theorem projected_of_isTail {e : Element} (h : isTail e = true) : projected e = .ok [] := by
  simp only [isTail, List.contains_eq_mem, List.mem_cons, List.not_mem_nil, or_false,
    decide_eq_true_eq] at h
  unfold projected
  rcases h with h | h | h <;>
    · rw [h]
      rfl

theorem mapM_projected_tail {es : List Element} (h : ∀ e ∈ es, isTail e = true) :
    es.mapM projected = .ok (es.map fun _ => []) := by
  induction es with
  | nil => rfl
  | cons e es ih =>
      rw [List.mapM_cons, projected_of_isTail (h e (by simp)), ih fun x hx => h x (by simp [hx])]
      rfl

theorem flatten_forall₂ {ps : List Projection} {lists : List (List String)}
    (h : List.Forall₂ (fun p texts => ∃ text, texts = [text] ∧
      Spelled (Category.projection.tokens p) text) ps lists) :
    List.Forall₂ (fun p text => Spelled (Category.projection.tokens p) text) ps lists.flatten := by
  induction h with
  | nil => exact .nil
  | cons hfirst hrest ih =>
      obtain ⟨text, rfl, htext⟩ := hfirst
      exact .cons htext ih

/-- The tokens in front of the condition of a query. -/
def selectTokens : List Projection → List Token
  | [] => []
  | ps => .keyword .select :: (Category.projection.list.tokens ps ++ [.keyword .fromWord])

theorem select_head (ps : List Projection) {e : Element} (hname : e.name = "select")
    {rest : List Element} (hrest : ∀ y ∈ rest, isTail y = true)
    (hchildren : e.children = ps.map projectionElement ++ rest)
    (hproper : ∀ p ∈ ps, ∀ u ∈ Category.projection.tokens p, u.Proper) :
    Gives (s.head e) True (Sealed (selectTokens ps)) := by
  have hprojections : Gives ((ps.map projectionElement).mapM projected) True fun lists =>
      List.Forall₂ (fun p text => Spelled (Category.projection.tokens p) text) ps lists.flatten := by
    rw [List.mapM_map]
    exact ((gives_mapM (P := fun _ => True) fun p hp => projection_gives (hproper p hp)).imp
      flatten_forall₂).of_iff (by simp)
  have hall : Gives (e.children.mapM projected) True fun lists =>
      List.Forall₂ (fun p text => Spelled (Category.projection.tokens p) text) ps lists.flatten := by
    rw [hchildren, List.mapM_append, mapM_projected_tail hrest]
    refine hprojections.map fun {lists} h => ?_
    simpa using h
  have hhead : s.head e = (e.children.mapM projected >>= fun lists =>
      .ok (if lists.flatten.isEmpty then ""
        else "select " ++ commaList lists.flatten ++ " from ")) := by
    unfold Style.head
    rw [hname]
    rfl
  rw [hhead]
  refine hall.map fun {lists} h => ?_
  cases ps with
  | nil =>
      have hnil : lists.flatten = [] := by simpa using h
      rw [hnil]
      exact sealed_nil
  | cons p ps =>
      have hne : lists.flatten.isEmpty = false := by
        cases hflatten : lists.flatten with
        | nil => simp [hflatten] at h
        | cons text texts => rfl
      rw [hne]
      have hselect := (sealed_keyword_blank .select (by simp)).append_spelled (spelled_commaList h)
      exact hselect.append_sealed sealed_from (by decide) (by decide)

theorem clauses_eq_mapM (s : Style) (es : List Element) :
    s.clauses es = (es.filter isClause).mapM s.clause := by
  induction es with
  | nil => rw [Style.clauses, List.filter_nil, List.mapM_nil]; rfl
  | cons e es ih =>
      rw [Style.clauses]
      by_cases h : isClause e = true
      · rw [if_pos h, List.filter_cons_of_pos h, List.mapM_cons, ih]
      · rw [if_neg h, List.filter_cons_of_neg h, ih]

/-- The element of what is deleted. -/
def targetElement (c : Scope) : Target → Element
  | .call x => (x.outline c).element
  | .term t => (t.leaf c).element

/-- The elements of what a statement changes. -/
def changeElements (c : Scope) : Change → List Element
  | .insert content => [(Change.contentOutline content).element]
  | .update calls => calls.map fun x => (x.outline c).element
  | .delete targets => targets.map (targetElement c)
  | .merge first second => [(first.leaf c).element, (second.leaf c).element]

theorem elements_change (x : Change) : Outline.elements (x.outlines c) = changeElements c x := by
  cases x with
  | insert content => rfl
  | merge first second => rfl
  | update calls =>
      simp [Change.outlines, Category.list, Category.call, ← List.map_eq_flatMap,
        Outline.elements_eq_map, changeElements, Function.comp_def]
  | delete targets =>
      induction targets with
      | nil => rfl
      | cons x targets ih =>
          rw [Outline.elements_eq_map] at ih ⊢
          have hcons : Change.outlines c (.delete (x :: targets)) =
              Category.target.outlines c x ++ Change.outlines c (.delete targets) := rfl
          rw [hcons, List.map_append, ih]
          cases x <;> rfl

theorem isTail_call (x : Call) : isTail (x.outline c).element = false := by
  have hnames : ∀ n ∈ callNames, (["where", "orderby", "pagination"].contains n) = false := by
    decide
  exact hnames _ (call_name c x)

theorem isTail_term (t : Term) : isTail (t.leaf c).element = false := by
  have hnames : ∀ n ∈ termNames, (["where", "orderby", "pagination"].contains n) = false := by
    decide
  exact hnames _ (term_name c t)

theorem isClause_term (t : Term) : isClause (t.leaf c).element = false := by
  have hnames : ∀ n ∈ termNames, (["predicate", "builtin-predicate", "internal-predicate",
      "infix-predicate", "association-predicate", "dynamic-predicate", "not", "or"].contains n) =
        false := by decide
  exact hnames _ (term_name c t)

theorem isTail_changeElements (x : Change) : ∀ e ∈ changeElements c x, isTail e = false := by
  cases x with
  | insert content => simp [changeElements, Change.contentOutline, Outline.element, isTail,
      Container.tag, Tag.name]
  | update calls =>
      intro e he
      obtain ⟨x, -, rfl⟩ := List.mem_map.mp he
      exact isTail_call x
  | delete targets =>
      intro e he
      obtain ⟨x, -, rfl⟩ := List.mem_map.mp he
      cases x with
      | call x => exact isTail_call x
      | term t => exact isTail_term t
  | merge first second => simp [changeElements, isTail_term]

theorem isClause_of_isTail {e : Element} (h : isTail e = true) : isClause e = false := by
  simp only [isTail, List.contains_eq_mem, List.mem_cons, List.not_mem_nil, or_false,
    decide_eq_true_eq] at h
  rcases h with h | h | h <;> simp [isClause, h]

/-- Every name in what is changed refers to something. -/
def Target.Refers (c : Scope) : Target → Prop
  | .call x => x.Refers c
  | .term t => t.Refers c

/-- What is written for one of the elements that a statement changes. -/
def item (s : Style) (e : Element) : Except RenderFault String :=
  if isClause e then s.clause e else s.term e

theorem target_gives (hs : s.Suits c) {x : Target} (hrefers : x.Refers c)
    (hproper : ∀ u ∈ Category.target.tokens x, u.Proper) :
    s.Writes (item s (targetElement c x)) (Category.target.IsPlain (x.canonical c))
      (Category.target.tokens (x.canonical c)) := by
  cases x with
  | call x =>
      rw [item, targetElement, if_pos (isClause_call c x)]
      exact Clause.writes hs (.call x) hrefers hproper
  | term t =>
      rw [item, targetElement, if_neg (by simp [isClause_term])]
      exact term_writes hs (Term.binds_of_refers hrefers) hproper

namespace Change

/-- The word that a change begins with. -/
def word : Change → Keyword
  | insert _ => .insert
  | update _ => .update
  | delete _ => .delete
  | merge _ _ => .merge

/-- What is changed, one after the other. -/
def targets : Change → List Target
  | insert _ => []
  | update calls => calls.map .call
  | delete targets => targets
  | merge first second => [.term first, .term second]

/-- What is inserted is topic map content, anything else is changed by a list. -/
def Lists (x : Change) : Prop := ∀ content, x ≠ .insert content

variable {x : Change}

theorem tokens_targets (h : x.Lists) :
    x.tokens = .keyword x.word :: listed Category.target.tokens x.targets := by
  cases x with
  | insert content => exact absurd rfl (h content)
  | update calls => rw [targets, listed_map]; rfl
  | delete targets => rfl
  | merge first second => rfl

theorem targets_canonical (x : Change) :
    (x.canonical c).targets = x.targets.map (Target.canonical c) := by
  cases x with
  | update calls => simp [canonical, targets, Target.canonical, Function.comp_def]
  | _ => rfl

theorem elements_targets (h : x.Lists) : changeElements c x = x.targets.map (targetElement c) := by
  cases x with
  | insert content => exact absurd rfl (h content)
  | update calls => simp [changeElements, targets, targetElement, Function.comp_def]
  | delete targets => rfl
  | merge first second => rfl

theorem refers_targets (h : x.Refers c) : ∀ y ∈ x.targets, y.Refers c := by
  intro y hy
  cases x with
  | insert content => cases hy
  | update calls =>
      obtain ⟨call, hcall, rfl⟩ := List.mem_map.mp hy
      exact h.2 call hcall
  | delete targets =>
      have hrefers := h.2 y hy
      cases y with
      | call call => exact hrefers.1
      | term t => exact hrefers
  | merge first second =>
      simp only [targets, List.mem_cons, List.not_mem_nil, or_false] at hy
      rcases hy with rfl | rfl
      · exact h.1
      · exact h.2

theorem targets_ne_nil (hlists : x.Lists) (h : x.Refers c) : x.targets ≠ [] := by
  cases x with
  | insert content => exact absurd rfl (hlists content)
  | update calls => simpa [targets] using h.1
  | delete targets => exact h.1
  | merge first second => simp [targets]

theorem isPlain_targets (h : x.Lists) :
    x.IsPlain ↔ ∀ y ∈ x.targets, Category.target.IsPlain y := by
  cases x with
  | insert content => exact absurd rfl (h content)
  | update calls => simp [IsPlain, targets, Category.list, Category.target, Category.call]
  | delete targets => rfl
  | merge first second => simp [IsPlain, targets, Category.target]

theorem lists_canonical (h : x.Lists) : (x.canonical c).Lists := by
  rintro content heq
  cases x with
  | insert content' => exact h content' rfl
  | _ => cases heq

end Change

/-- What stands in front of `from`. -/
def Heads (ts : List Token) (head : String) : Prop :=
  ∃ text, head = text ++ " from " ∧ Spelled ts text

theorem Heads.sealed {ts : List Token} {head : String} (h : Heads ts head) :
    Sealed (ts ++ [Token.keyword .fromWord]) head := by
  obtain ⟨text, rfl, htext⟩ := h
  exact htext.append_sealed sealed_from (by decide) (by decide)

/-- The head of a statement that changes something lists what it changes. -/
theorem head_change {x : Change} (hlists : x.Lists) {e : Element}
    (hname : e.name = x.container.tag.name) {rest : List Element}
    (hrest : ∀ y ∈ rest, isTail y = true) (hchildren : e.children = changeElements c x ++ rest) :
    s.head e = ((x.targets.map (targetElement c)).mapM (item s) >>= fun texts =>
      .ok (x.word.text ++ " " ++ commaList texts ++ " from ")) := by
  have hbehind : rest.filter (fun y => !isTail y) = [] :=
    List.filter_eq_nil_iff.mpr fun y hy => by simp [hrest y hy]
  have hfront : (changeElements c x).filter (fun y => !isTail y) = changeElements c x :=
    List.filter_eq_self.mpr fun y hy => by simp [isTail_changeElements x y hy]
  have hmapM : ∀ {f : Element → Except RenderFault String} {es : List Element},
      (∀ y ∈ es, item s y = f y) → es.mapM f = es.mapM (item s) := by
    intro f es hes
    induction es with
    | nil => rfl
    | cons y es ih =>
        rw [List.mapM_cons, List.mapM_cons, hes y (by simp), ih fun z hz => hes z (by simp [hz])]
  rw [← Change.elements_targets hlists]
  cases x with
  | insert content => exact absurd rfl (hlists content)
  | update calls =>
      have hclause : ∀ y ∈ changeElements c (.update calls), isClause y = true := by
        intro y hy
        obtain ⟨x, -, rfl⟩ := List.mem_map.mp hy
        exact isClause_call c x
      have hclauses : (changeElements c (.update calls) ++ rest).filter isClause =
          changeElements c (.update calls) := by
        have hnone : rest.filter isClause = [] :=
          List.filter_eq_nil_iff.mpr fun y hy => by simp [isClause_of_isTail (hrest y hy)]
        rw [List.filter_append, hnone, List.append_nil, List.filter_eq_self.mpr hclause]
      have hhead : s.head e = (s.clauses e.children >>= fun texts =>
          .ok ("update " ++ commaList texts ++ " from ")) := by
        unfold Style.head
        rw [hname]
        rfl
      rw [hhead, hchildren, clauses_eq_mapM, hclauses, hmapM fun y hy => if_pos (hclause y hy)]
      rfl
  | delete targets =>
      have hhead : s.head e = ((e.children.filter (fun y => !isTail y)).mapM (item s) >>=
          fun texts => .ok ("delete " ++ commaList texts ++ " from ")) := by
        unfold Style.head
        rw [hname]
        rfl
      rw [hhead, hchildren, List.filter_append, hfront, hbehind, List.append_nil]
      rfl
  | merge first second =>
      have hhead : s.head e = (s.terms (e.children.filter fun y => !isTail y && y.name != "into") >>=
          fun texts => .ok ("merge " ++ commaList texts ++ " from ")) := by
        unfold Style.head
        rw [hname]
        rfl
      have hterm : ∀ y ∈ changeElements c (.merge first second), ∃ t, y = (Term.leaf c t).element := by
        intro y hy
        simp only [changeElements, List.mem_cons, List.not_mem_nil, or_false] at hy
        rcases hy with rfl | rfl <;> exact ⟨_, rfl⟩
      have hinto : e.children.filter (fun y => !isTail y && y.name != "into") =
          changeElements c (.merge first second) := by
        have hnames : ∀ n ∈ termNames, (n != "into") = true := by decide
        have hbehind' : rest.filter (fun y => !isTail y && y.name != "into") = [] :=
          List.filter_eq_nil_iff.mpr fun y hy => by simp [hrest y hy]
        rw [hchildren, List.filter_append, hbehind', List.append_nil]
        refine List.filter_eq_self.mpr fun y hy => ?_
        obtain ⟨t, rfl⟩ := hterm y hy
        rw [isTail_term, show (t.leaf c).element.name = (t.leaf c).name from rfl,
          hnames _ (term_name c t)]
        rfl
      rw [hhead, hinto, Style.terms, hmapM fun y hy => by
        obtain ⟨t, rfl⟩ := hterm y hy
        exact if_neg (by simp [isClause_term])]
      rfl

/-- The head of a statement that changes something is written in canonical form. -/
theorem change_head (hs : s.Suits c) {x : Change} (hlists : x.Lists)
    (hrefers : x.Refers c) (hproper : ∀ u ∈ x.tokens, u.Proper) {e : Element}
    (hname : e.name = x.container.tag.name) {rest : List Element}
    (hrest : ∀ y ∈ rest, isTail y = true) (hchildren : e.children = changeElements c x ++ rest) :
    Gives (s.head e) (s.Allows (x.canonical c).IsPlain) (Heads (x.canonical c).tokens) := by
  have hword : x.word ≠ .insert ∧ (x.canonical c).word = x.word := by
    cases x with
    | insert content => exact absurd rfl (hlists content)
    | _ => exact ⟨by simp [Change.word], rfl⟩
  have htargets := gives_listed (s := s) (g := targetElement c) (f := item s) fun y hy =>
    target_gives hs (Change.refers_targets hrefers y hy) fun u hu => hproper u (by
      rw [Change.tokens_targets hlists]
      exact List.mem_cons_of_mem _ (mem_listed_of_mem hy hu))
  rw [head_change hlists hname hrest hchildren]
  refine (htargets.map fun {texts} htexts => ⟨_, rfl, ?_⟩).of_iff ?_
  · rw [Change.isPlain_targets (Change.lists_canonical hlists), Change.targets_canonical]
    simp
  · rw [Change.tokens_targets (Change.lists_canonical hlists), Change.targets_canonical,
      listed_map, hword.2]
    exact (sealed_keyword_blank x.word hword.1).append_spelled htexts

/-! ## Whole statements -/

/-- The elements of a condition that may be missing. -/
def optionalElements (c : Scope) (x : Option (Bool × Condition)) : List Element :=
  (x.map fun y => conditionElements c y.2).getD []

/-- The elements of where a document is loaded into, if that is said. -/
def intoElements (c : Scope) : List Term → List Element
  | [] => []
  | targets => [⟨"into", [], none, targets.map fun t => (t.leaf c).element⟩]

/-- The element of a statement. -/
def statementElement (c : Scope) : Statement → Element
  | .select projections _ x =>
    ⟨"select", [], none, projections.map projectionElement ++ conditionElements c x⟩
  | .bare x => ⟨"select", [], none, conditionElements c x⟩
  | .change x y => ⟨x.container.tag.name, [], none, changeElements c x ++ optionalElements c y⟩
  | .load source targets =>
    ⟨"load", [], none, (source.leaf c).element :: intoElements c targets⟩
  | .drop source => ⟨"drop", [], none, [(source.leaf c).element]⟩
  | .create source => ⟨"create", [], none, [(source.leaf c).element]⟩

theorem elements_append (os ps : List Outline) :
    Outline.elements (os ++ ps) = Outline.elements os ++ Outline.elements ps := by
  simp [Outline.elements_eq_map]

theorem elements_statement (x : Statement) :
    Outline.elements (Category.statement.outlines c x) = [statementElement c x] := by
  cases x with
  | select projections isWhere x =>
      have hwithin : Outline.elements (Category.statement.outlines c (.select projections isWhere x)) =
          [⟨"select", [], none, Outline.elements
            (Category.projection.list.outlines c projections ++ Category.condition.outlines c x)⟩] :=
        rfl
      rw [hwithin, elements_append, elements_projections]
      rfl
  | bare x => rfl
  | change x y =>
      have hcontainer : x.container.attributes = [] := by cases x <;> rfl
      have hwithin : Outline.elements (Category.statement.outlines c (.change x y)) =
          [⟨x.container.tag.name, x.container.attributes, none, Outline.elements
            (x.outlines c ++ Category.optionalCondition.outlines c y)⟩] := rfl
      rw [hwithin, elements_append, elements_change, hcontainer]
      cases y <;> rfl
  | load source targets =>
      cases targets with
      | nil => rfl
      | cons t targets =>
          have hwithin : Outline.elements
              (Category.statement.outlines c (.load source (t :: targets))) =
                [⟨"load", [], none, [(source.leaf c).element, ⟨"into", [], none, Outline.elements
                  (Category.iri.list.outlines c (t :: targets))⟩]⟩] := rfl
          have hlist : Outline.elements (Category.iri.list.outlines c (t :: targets)) =
              (t :: targets).map fun t => (t.leaf c).element := by
            simp only [Category.list, Category.iri, ← List.map_eq_flatMap, elements_leaves]
          rw [hwithin, hlist]
          rfl
  | drop source => rfl
  | create source => rfl

/-- The content of an insertion is found behind the variables that it mentions. -/
theorem content_fragment (content : String) (rest : List Element) :
    Style.content ⟨"insert", [], none, (Change.contentOutline content).element :: rest⟩ =
      .ok content := by
  have hvariables : (Outline.elements ((Fragment.mentioned content).map fun name =>
      .leaf (.atom .var name))).find? (·.name == "content") = none := by
    simp [Outline.elements_eq_map, Outline.element, Leaf.element, Leaf.name, AtomKind.name]
  have hfound : ((Change.contentOutline content).element).child? "content" =
      some (Leaf.content content).element := by
    rw [Element.child?, Change.contentOutline, Outline.element, elements_append,
      List.find?_append, hvariables]
    rfl
  have hfragment : Element.child? ⟨"insert", [], none,
      (Change.contentOutline content).element :: rest⟩ "fragment" =
        some (Change.contentOutline content).element := rfl
  rw [Style.content, hfragment, Option.bind_some, hfound]
  rfl

theorem content_insert (content : String) (y : Option (Bool × Condition)) :
    Style.content (statementElement c (.change (.insert content) y)) = .ok content :=
  content_fragment content _

/-- The statement says to what it applies, if it changes anything. -/
def Statement.Complete : Statement → Prop
  | .change x y => (∀ content, x ≠ .insert content) ∧ y.isSome = true
  | _ => True

theorem iri_writes (hs : s.Suits c) {t : Term} (h : Category.iri.Refers c t)
    (hproper : ∀ u ∈ t.tokens, u.Proper) : s.Writes (s.term (t.leaf c).element) True t.tokens := by
  have hcanonical : t.canonical c = t ∧ t.IsPlain := by
    obtain ⟨-, hiri⟩ := h
    cases t with
    | atom kind value => exact ⟨rfl, trivial⟩
    | qname marker name =>
        obtain rfl : marker = none := hiri
        exact ⟨by rw [Term.canonical, Marker.kept_eq_none_of_none], rfl⟩
    | _ => exact absurd hiri id
  have hterm := term_writes hs (Term.binds_of_refers h.1) hproper
  rw [hcanonical.1] at hterm
  exact hterm.of_iff (by simp [hcanonical.2])

/-- A statement about one topic map is written as it stands. -/
theorem whole_gives (hs : s.Suits c) {t : Term} (h : Category.iri.Refers c t)
    (hproper : ∀ u ∈ t.tokens, u.Proper) {k : Keyword} (hk : k ≠ .insert)
    (construct : PlusConstruct) :
    Gives (s.whole construct ⟨k.text, [], none, [(t.leaf c).element]⟩) (s.Allows False) fun text =>
      Scan.Finishes (.keyword k :: t.tokens) text.toList := by
  have hterm := (iri_writes hs h hproper).of_iff allows_true
  have hterms : Gives (s.terms [(t.leaf c).element]) True fun texts =>
      Spelled t.tokens (commaList texts) :=
    hterm.map (f := fun text => [text]) fun {text} htext => by simpa [commaList] using htext
  have hwhole : s.whole construct ⟨k.text, [], none, [(t.leaf c).element]⟩ =
      (s.requirePlus construct >>= fun _ => s.terms [(t.leaf c).element] >>= fun texts =>
        .ok (k.text ++ " " ++ commaList texts ++ "\n")) := by
    unfold Style.whole
    simp only [hs.comment, String.empty_append]
    rfl
  rw [hwhole]
  refine ((gives_requirePlus construct).bind fun _ _ => hterms.map fun {texts} htexts => ?_).of_iff
    (by simp)
  have hall := ((sealed_keyword_blank k hk).append_spelled htexts).finishes (soft_ending false)
    (finishes_ending false)
  simpa [Document.questionTokens] using hall

/-- The text of where a document is loaded into. -/
def intoText (s : Style) (e : Element) : Except RenderFault String :=
  match e.child? "into" with
  | some into => do pure (" into " ++ commaList (← s.terms into.children))
  | none => pure ""

theorem child?_into (c : Scope) (source : Term) (targets : List Term) :
    (statementElement c (.load source targets)).child? "into" = (intoElements c targets).head? := by
  have hsource : ∀ n ∈ termNames, (n == "into") = false := by decide
  have hname := hsource _ (term_name c source)
  rw [Element.child?, statementElement, List.find?_cons]
  simp only [Leaf.element, hname]
  cases targets <;> rfl

theorem mem_intoTokens {targets : List Term} {t : Term} (ht : t ∈ targets) {u : Token}
    (hu : u ∈ t.tokens) : u ∈ Category.intoTokens targets := by
  have hlisted : u ∈ Category.iri.list.tokens targets := mem_listed_of_mem ht hu
  cases targets with
  | nil => simp at ht
  | cons t' targets => exact List.mem_cons_of_mem _ hlisted

theorem into_gives (hs : s.Suits c) {source : Term} {targets : List Term}
    (hrefers : ∀ t ∈ targets, Category.iri.Refers c t)
    (hproper : ∀ t ∈ targets, ∀ u ∈ t.tokens, u.Proper) :
    Gives (intoText s (statementElement c (.load source targets))) True
      (Follows (Category.intoTokens targets)) := by
  unfold intoText
  rw [child?_into]
  cases targets with
  | nil => exact gives_ok follows_nil
  | cons t targets =>
      have hterms := gives_listed (s := s) (f := s.term) (g := fun t => (Term.leaf c t).element)
        fun t ht => iri_writes hs (hrefers t ht) (hproper t ht)
      have hinto : Sealed [.keyword .into] " into " :=
        (sealed_keyword_blank .into (by simp)).behind_blank
      refine (Gives.map (f := fun texts => " into " ++ commaList texts) hterms
        fun {texts} htexts => ?_).of_iff (by simp [Allows])
      exact ⟨hinto.append_spelled htexts, by simp [Soft, boundaries]⟩

/-- A document is loaded from where it is into what is said, if anything is. -/
theorem load_eq (s : Style) (c : Scope) (source : Term) (targets : List Term) :
    s.statement (statementElement c (.load source targets)) =
      (s.requirePlus .load >>= fun _ => s.terms [(source.leaf c).element] >>= fun texts =>
        intoText s (statementElement c (.load source targets)) >>= fun target =>
          .ok (s.comment (statementElement c (.load source targets)) ++ "load " ++
            commaList texts ++ target ++ "\n")) := by
  have hfilter : (statementElement c (.load source targets)).children.filter (·.name != "into") =
      [(source.leaf c).element] := by
    have hnames : ∀ n ∈ termNames, (n != "into") = true := by decide
    have hname : ((source.leaf c).element.name != "into") = true := hnames _ (term_name c source)
    cases targets <;> simp [statementElement, intoElements, hname]
  have hname : (statementElement c (.load source targets)).name = "load" := rfl
  rw [← hfilter]
  unfold intoText Style.statement
  rw [hname]
  cases (statementElement c (.load source targets)).child? "into" <;> simp <;> rfl

theorem load_gives (hs : s.Suits c) {source : Term} {targets : List Term}
    (hrefers : Category.statement.Refers c (.load source targets))
    (hproper : ∀ u ∈ Category.statement.tokens (.load source targets), u.Proper) :
    Gives (s.statement (statementElement c (.load source targets))) (s.Allows False) fun text =>
      Scan.Finishes (Category.statement.tokens (.load source targets)) text.toList := by
  have hsource : ∀ u ∈ source.tokens, u.Proper := fun u hu =>
    hproper u (List.mem_cons_of_mem _ (List.mem_append_left _ hu))
  have htargets : ∀ t ∈ targets, ∀ u ∈ t.tokens, u.Proper := fun t ht u hu =>
    hproper u (List.mem_cons_of_mem _ (List.mem_append_right _ (mem_intoTokens ht hu)))
  have hterm := (iri_writes hs hrefers.1 hsource).of_iff allows_true
  have hterms : Gives (s.terms [(source.leaf c).element]) True fun texts =>
      Spelled source.tokens (commaList texts) :=
    hterm.map (f := fun text => [text]) fun {text} htext => by simpa [commaList] using htext
  rw [load_eq, hs.comment, String.empty_append]
  refine ((gives_requirePlus .load).bind fun _ _ => hterms.bind fun texts htexts =>
    (into_gives hs hrefers.2 htargets).map fun {target} htarget => ?_).of_iff (by simp)
  have hall := (((sealed_keyword_blank .load (by simp)).append_spelled htexts).append htarget.1
    htarget.2).finishes (soft_ending false) (finishes_ending false)
  simpa [Document.questionTokens, Category.statement, Keyword.text] using hall

/-- A complete statement is written as its canonical form. -/
theorem statement_gives (hs : s.Suits c) {x : Statement} (hcomplete : x.Complete)
    (hrefers : Category.statement.Refers c x)
    (hproper : ∀ u ∈ Category.statement.tokens x, u.Proper) :
    Gives (s.statement (statementElement c x))
      (s.Allows (Category.statement.IsPlain (x.canonical c))) fun text =>
        Scan.Finishes (Category.statement.tokens (x.canonical c) ++
          Document.questionTokens x.asks) text.toList := by
  cases x with
  | select projections isWhere x =>
      have hprojections : ∀ p ∈ projections, ∀ u ∈ Category.projection.tokens p, u.Proper :=
        fun p hp u hu => hproper u (List.mem_cons_of_mem _ (List.mem_append_left _
          (mem_listed_of_mem hp hu)))
      have hcondition : ∀ u ∈ Category.condition.tokens x, u.Proper := fun u hu =>
        hproper u (List.mem_cons_of_mem _ (List.mem_append_right _ (List.mem_cons_of_mem _ hu)))
      have hfront : ∀ y ∈ projections.map projectionElement, isTail y = false := by
        intro y hy
        obtain ⟨p, -, rfl⟩ := List.mem_map.mp hy
        exact isTail_projectionElement p
      have hhead := (select_head (s := s) projections
        (e := statementElement c (.select projections isWhere x)) rfl (isTail_conditionElements x) rfl
          hprojections).of_iff (allows_true (s := s)).symm
      have hall := conditional_gives hs hfront rfl hrefers.2 hcondition hhead
      have hname : ((statementElement c (.select projections isWhere x)).name == "select") = true :=
        rfl
      rw [hname] at hall
      refine (hall.of_iff ?_).imp fun {text} htext => ?_
      · simp [Category.statement, Statement.canonical]
      · obtain ⟨p, ps, rfl⟩ := List.exists_cons_of_ne_nil hrefers.1
        simpa [Category.statement, Statement.canonical, selectTokens, Statement.asks,
          conditionWord] using htext
  | bare x =>
      have hhead := (select_head (s := s) [] (e := statementElement c (.bare x)) rfl
        (isTail_conditionElements x) rfl (by simp)).of_iff (allows_true (s := s)).symm
      have hall := conditional_gives hs (by simp : ∀ e ∈ ([] : List Element), isTail e = false) rfl
        hrefers hproper hhead
      refine (hall.of_iff ?_).imp fun {text} htext => htext
      simp [Category.statement, Statement.canonical]
  | change x y =>
      obtain ⟨hinsert, hsome⟩ := hcomplete
      obtain ⟨⟨isWhere, y⟩, rfl⟩ := Option.isSome_iff_exists.mp hsome
      have hchange : ∀ u ∈ x.tokens, u.Proper := fun u hu => hproper u (List.mem_append_left _ hu)
      have hcondition : ∀ u ∈ Category.condition.tokens y, u.Proper := fun u hu =>
        hproper u (List.mem_append_right _ (List.mem_cons_of_mem _ hu))
      have hhead := change_head (e := statementElement c (.change x (some (isWhere, y)))) hs
        hinsert hrefers.1 hchange rfl (isTail_conditionElements (c := c) y) rfl
      have hall := conditional_gives hs (isTail_changeElements x) rfl
        (hrefers.2 (isWhere, y) rfl) hcondition (hhead.imp Heads.sealed)
      have hconditional : s.statement (statementElement c (.change x (some (isWhere, y)))) =
          s.conditional (statementElement c (.change x (some (isWhere, y)))) := by
        cases x <;> rfl
      have hname : ((statementElement c (.change x (some (isWhere, y)))).name == "select") =
          false := by
        cases x <;> rfl
      rw [hconditional]
      rw [hname] at hall
      refine (hall.of_iff ?_).imp fun {text} htext => ?_
      · simp [Category.statement, Statement.canonical, Category.optionalCondition,
          canonicalCondition]
      · simpa [Category.statement, Statement.canonical, Category.optionalCondition,
          canonicalCondition, conditionWord, Statement.asks] using htext
  | load source targets =>
      refine (load_gives hs hrefers hproper).imp fun {text} htext => ?_
      simpa [Statement.canonical, Statement.asks, Document.questionTokens] using htext
  | drop source =>
      refine (whole_gives hs hrefers (fun u hu => hproper u (List.mem_cons_of_mem _ hu))
        (k := .drop) (by simp) .drop).imp fun {text} htext => ?_
      simpa [Category.statement, Statement.canonical, Statement.asks, Document.questionTokens]
        using htext
  | create source =>
      refine (whole_gives hs hrefers (fun u hu => hproper u (List.mem_cons_of_mem _ hu))
        (k := .create) (by simp) .create).imp fun {text} htext => ?_
      simpa [Category.statement, Statement.canonical, Statement.asks, Document.questionTokens]
        using htext

end TopicQuery.Phrase
