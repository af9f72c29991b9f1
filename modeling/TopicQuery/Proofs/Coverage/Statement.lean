import TopicQuery.Proofs.Coverage.Clause
import TopicQuery.Proofs.Inserted
import TopicQuery.Proofs.Rendered.Document

/-!
Rules and statements that tolog+ can write, whatever passes have made of them. Passes change
the clauses of bodies and conditions; what stands in front of a condition and behind it stays
as it is.
-/

namespace TopicQuery.Phrase

open Grammar Element Style

variable {s : Style} {c : Scope} {e : Element}

/-! ## Parts of a text -/

/-- The names of the statements that may have conditions. -/
def conditionalNames : List String := ["select", "insert", "update", "delete", "merge"]

/-- Topic map content in the element is content that stood in front of a gap. -/
def HoldsContinued (e : Element) : Prop :=
  e.name = "content" → ∀ content, e.text = some content → Fragment.Continued content.toList

/-- The names of the statements about whole topic maps. -/
def wholeNames : List String := ["load", "drop", "create"]

/-- The elements in front of the conditions of a statement, whatever the conditions are. -/
structure Front (c : Scope) (name : String) (front : List Element) : Prop where
  flat : ∀ d ∈ front, d.Flat
  still : ∀ d ∈ front, isTail d = false
  makes : ∀ {s : Style}, s.Knows c → ∀ {rest : List Element}, (∀ d ∈ rest, isTail d = true) →
    s.Makes (s.head ⟨name, [], none, front ++ rest⟩) (∀ d ∈ front, d.AllPlain c)
  /-- No comments stand in what is written. -/
  bare : ∀ {s : Style} {rest : List Element}, (∀ d ∈ rest, isTail d = true) →
    s.head ⟨name, [], none, front ++ rest⟩ = s.bare.head ⟨name, [], none, front ++ rest⟩
  /-- What is written in front of a condition is scanned on its own. -/
  seals : ∀ {s : Style}, s.Suits c → ∀ {rest : List Element}, (∀ d ∈ rest, isTail d = true) →
    (∃ d ∈ rest, d.name = "where") → (∀ d ∈ front, d.Every HoldsContinued) → ∀ {text : String},
      s.head ⟨name, [], none, front ++ rest⟩ = .ok text → ∃ ts, Sealed ts text

/-- Conditions with the order and the extent of their result, or nothing. -/
inductive Behind (c : Scope) : List Element → Prop
  | nothing : Behind c []
  | condition {w : Element} {t : Tail} (hname : w.name = "where")
    (hclauses : ∀ d ∈ w.children, Clausal c d) (hproper : ∀ u ∈ t.tokens, u.Proper) :
    Behind c (w :: Outline.elements (t.outlines c))

/-- The element is a rule or a statement, of a text or of what passes have made of it. -/
inductive Part (c : Scope) : Element → Prop
  | rule {name : String} {parameters : List String} {body : Element}
    (hidentifier : (Token.atom .identifier name).Proper)
    (hparameters : ∀ v ∈ parameters, (Token.atom .var v).Proper) (hname : body.name = "body")
    (hclauses : ∀ d ∈ body.children, Clausal c d) :
    Part c ⟨"rule", [("name", name)], none,
      (parameters.map fun v => (Leaf.atom .var v).element) ++ [body]⟩
  | conditional {name : String} {front rest : List Element} (hname : name ∈ conditionalNames)
    (hfront : Front c name front) (hrest : Behind c rest) : Part c ⟨name, [], none, front ++ rest⟩
  | whole {e : Element} (hname : e.name ∈ wholeNames) (hattributes : e.attributes = [])
    (hflat : ∀ d ∈ e.children, d.Flat) (hmakes : ∀ {s : Style}, s.Knows c → s.Makes (s.statement e) False) : Part c e

/-! ## Order and extent -/

theorem isTail_tail (t : Tail) : ∀ d ∈ Outline.elements (t.outlines c), isTail d = true := by
  obtain ⟨order, limit, offset⟩ := t
  cases order <;> cases limit <;> cases offset <;>
    simp [Tail.outlines, Tail.orderOutlines, Tail.extentOutlines, Outline.elements, Outline.element,
      isTail, Container.tag, Tag.name]

theorem flat_tail (t : Tail) : ∀ d ∈ Outline.elements (t.outlines c), d.Flat := by
  rw [Outline.elements_eq_map]
  exact List.forall_mem_map.mpr t.flatAll

/-- Order and extent need nothing. -/
theorem allPlain_tail (t : Tail) : ∀ d ∈ Outline.elements (t.outlines c), d.AllPlain c := by
  obtain ⟨order, limit, offset⟩ := t
  have horder : ∀ o ∈ Tail.orderOutlines c order, o.element.AllPlain c := by
    have hkey : ∀ k : SortKey, (Outline.leaf (.order k.name (k.direction = .descending))).element.AllPlain
        c := by
      intro k
      refine allPlain_leaf ?_
      generalize decide (k.direction = .descending) = descending
      cases descending <;> simp [Leaf.name, plusNames]
    cases order with
    | nil => simp [Tail.orderOutlines]
    | cons key keys =>
        refine List.forall_mem_singleton.mpr ((allPlain_within (by decide)).mpr fun o ho => ?_)
        obtain ⟨k, -, hk⟩ := List.mem_flatMap.mp ho
        rw [List.mem_singleton.mp hk]
        exact hkey k
  have hextent : ∀ o ∈ Tail.extentOutlines limit offset, o.element.AllPlain c := by
    have hlimit : ∀ n, (Outline.leaf (.limit n)).element.AllPlain c := fun n =>
      allPlain_leaf (show "limit" ∉ "qname" :: plusNames by decide)
    have hoffset : ∀ n, (Outline.leaf (.offset n)).element.AllPlain c := fun n =>
      allPlain_leaf (show "offset" ∉ "qname" :: plusNames by decide)
    have hpagination : ∀ os : List Outline, (Outline.within .pagination os).element.AllPlain c ↔
        ∀ o ∈ os, o.element.AllPlain c := fun os => allPlain_within (by decide)
    cases limit <;> cases offset <;>
      simp [Tail.extentOutlines, Bound.outlines, hpagination, hlimit, hoffset]
  rw [Outline.elements_eq_map, Tail.outlines]
  exact List.forall_mem_map.mpr (List.forall_mem_append.mpr ⟨horder, hextent⟩)

theorem Behind.isTail {rest : List Element} (h : Behind c rest) : ∀ d ∈ rest, isTail d = true := by
  cases h with
  | nothing => simp
  | condition hname _ _ =>
      exact List.forall_mem_cons.mpr ⟨by simp [Style.isTail, hname], isTail_tail _⟩

/-! ## Passes -/

section Passes

variable {ι : Type} {rework : ι → Element → Element} (hrework : Reworks c rework)

include hrework

theorem change_flat {es : List Element} (h : ∀ d ∈ es, d.Flat) (i : ι) : es.map (rework i) = es :=
  (List.map_congr_left fun d hd => (h d hd).unchanged (hrework.outside i)).trans (List.map_id _)

theorem change_list {w : Element} (hlist : w.isClauseList = true)
    (hclauses : ∀ d ∈ w.children, Clausal c d) (i : ι) :
    ∀ d ∈ (rework i w).children, Clausal c d :=
  hrework.inside i hlist fun j d hd => (hclauses d hd).change hrework j

theorem Behind.change {rest : List Element} (h : Behind c rest) (i : ι) :
    Behind c (rest.map (rework i)) := by
  cases h with
  | nothing => exact .nothing
  | @condition w t hname hclauses hproper =>
      rw [List.map_cons, change_flat hrework (flat_tail t)]
      exact .condition ((hrework.name i w).trans hname)
        (change_list hrework ((isClauseList_iff w).mpr (.inl hname)) hclauses i) hproper

/-- A change leaves a part of a text of a part of a text. -/
theorem Part.change (h : Part c e) (i : ι) : Part c (rework i e) := by
  cases h with
  | @rule name parameters body hidentifier hparameters hname hclauses =>
      have hflat : ∀ d ∈ parameters.map fun v => (Leaf.atom .var v).element, d.Flat :=
        List.forall_mem_map.mpr fun v _ => flat_leaf (by simp [Leaf.name, AtomKind.name])
      have hlist := (isClauseList_iff body).mpr (.inr (.inl hname))
      rw [hrework.outside i rfl, List.map_append, change_flat hrework hflat, List.map_singleton]
      exact .rule hidentifier hparameters ((hrework.name i body).trans hname)
        (change_list hrework hlist hclauses i)
  | @conditional name front rest hname hfront hrest =>
      have hlist : isClauseList ⟨name, [], none, front ++ rest⟩ = false := by
        have hnames : ∀ n ∈ conditionalNames, ["where", "body", "branch", "not"].contains n = false := by
          decide
        exact hnames name hname
      rw [hrework.outside i hlist, List.map_append, change_flat hrework hfront.flat]
      exact .conditional hname hfront (hrest.change hrework i)
  | whole hname hattributes hflat hmakes =>
      have hlist : e.isClauseList = false := by
        have hnames : ∀ n ∈ wholeNames, ["where", "body", "branch", "not"].contains n = false := by
          decide
        exact hnames e.name hname
      rw [hrework.outside i hlist, change_flat hrework hflat]
      exact .whole hname hattributes hflat hmakes

end Passes

/-! ## Written parts -/

theorem clauseList_makes (hs : s.Knows c) {w : Element} (hclauses : ∀ d ∈ w.children, Clausal c d) :
    s.Makes (s.clauseList w) (∀ d ∈ w.children, d.AllPlain c) :=
  (clauses_makes hclauses fun d hd => (hclauses d hd).makes hs).map _

theorem mapM_variableText (vs : List String) :
    (vs.map fun v => (Leaf.atom .var v).element).mapM variableText = .ok (vs.map ("$" ++ ·)) := by
  induction vs with
  | nil => rfl
  | cons v vs ih =>
      rw [List.map_cons, List.mapM_cons, ih]
      rfl

theorem allPlain_var (v : String) : (Leaf.atom .var v).element.AllPlain c :=
  (allPlain_iff (show "variable" ∉ "qname" :: plusNames by decide)).mpr (by simp [Leaf.element])

/-- An element without marks has no comment. -/
theorem comment_eq_empty (s : Style) (h : e.attr? optimizedByName = none) : s.comment e = "" := by
  rw [Style.comment, optimizedBy, h]
  simp

/-- A rule is written as its head and its clauses on a line. -/
theorem rule_eq (s : Style) {name : String} {parameters : List String} {body : Element}
    (hname : body.name = "body") :
    s.rule ⟨"rule", [("name", name)], none,
      (parameters.map fun v => (Leaf.atom .var v).element) ++ [body]⟩ =
        (s.clauseList body >>= fun clauses =>
          .ok (application name (parameters.map ("$" ++ ·)) ++ " :- " ++ clauses ++ " .\n")) := by
  generalize hvars : parameters.map (fun v => (Leaf.atom .var v).element) = vars
  have htexts : vars.mapM variableText = .ok (parameters.map ("$" ++ ·)) := by
    rw [← hvars, mapM_variableText]
  have hnames : ∀ d ∈ vars, d.name = "variable" := by
    rw [← hvars]
    exact List.forall_mem_map.mpr fun _ _ => rfl
  have hfilter : (vars ++ [body]).filter (·.name == "variable") = vars := by
    rw [List.filter_append, List.filter_eq_self.mpr fun d hd => by simp [hnames d hd]]
    simp [hname]
  have hchild : Element.child? ⟨"rule", [("name", name)], none, vars ++ [body]⟩ "body" =
      some body := by
    have hnone : vars.find? (·.name == "body") = none :=
      List.find?_eq_none.mpr fun d hd => by simp [hnames d hd]
    rw [Element.child?, List.find?_append, hnone]
    simp [hname]
  unfold Style.rule
  rw [hfilter, hchild, htexts, comment_eq_empty s (by rfl)]
  simp only [String.empty_append]
  rfl

/-- The order and the extent of a result follow the clauses. -/
theorem tail_follows {front rest : List Element} (hfront : ∀ d ∈ front, isTail d = false)
    (hrest : Behind c rest) (hchildren : e.children = front ++ rest) :
    Gives (Style.tail e) True fun text => ∃ ts, Follows ts text := by
  obtain ⟨t, hproper, horder, hextent⟩ : ∃ t : Tail, (∀ u ∈ t.tokens, u.Proper) ∧
      rest.find? (·.name == "orderby") = (Tail.orderOutlines c t.order).head?.map Outline.element ∧
      rest.find? (·.name == "pagination") =
        (Tail.extentOutlines t.limit t.offset).head?.map Outline.element := by
    cases hrest with
    | nothing => exact ⟨⟨[], none, none⟩, by simp [Tail.tokens, Tail.orderTokens, Bound.tokens], rfl, rfl⟩
    | @condition w t hname _ hproper =>
        refine ⟨t, hproper, ?_⟩
        rw [List.find?_cons_of_neg (by simp [hname]), List.find?_cons_of_neg (by simp [hname])]
        obtain ⟨order, limit, offset⟩ := t
        cases order <;> cases limit <;> cases offset <;> exact ⟨rfl, rfl⟩
  have hgives := tail_gives (c := c) (e := e)
    ((child?_front (by decide) hfront hchildren).trans horder)
    ((child?_front (by decide) hfront hchildren).trans hextent) hproper
  exact hgives.imp fun h => ⟨_, h⟩

/-- The order and the extent of a result can be written in both dialects. -/
theorem tail_makes {front rest : List Element} (hfront : ∀ d ∈ front, isTail d = false)
    (hrest : Behind c rest) (hchildren : e.children = front ++ rest) :
    s.Makes (Style.tail e) True :=
  makes_of_gives ((tail_follows hfront hrest hchildren).of_iff allows_true.symm)

/-- A statement that may have conditions is written if what stands in front of them is. -/
theorem conditional_makes (hs : s.Knows c) {name : String} {front rest : List Element}
    (hname : name ∈ conditionalNames) (hfront : Front c name front) (hrest : Behind c rest) :
    s.Makes (s.conditional ⟨name, [], none, front ++ rest⟩)
      (AllPlain c ⟨name, [], none, front ++ rest⟩) := by
  have hnames : ∀ n ∈ conditionalNames, n ∉ "qname" :: plusNames := by decide
  have hplain : AllPlain c ⟨name, [], none, front ++ rest⟩ ↔
      (∀ d ∈ front, d.AllPlain c) ∧ ∀ d ∈ rest, d.AllPlain c := by
    rw [allPlain_iff (hnames name hname)]
    exact List.forall_mem_append
  have hhead := hfront.makes hs hrest.isTail
  have hcomment := comment_eq_empty s (e := ⟨name, [], none, front ++ rest⟩) rfl
  have htail := tail_makes (s := s) (e := ⟨name, [], none, front ++ rest⟩) hfront.still hrest rfl
  have hwhere : Element.child? ⟨name, [], none, front ++ rest⟩ "where" =
      rest.find? (·.name == "where") := child?_front (by decide) hfront.still rfl
  generalize hstatement : (⟨name, [], none, front ++ rest⟩ : Element) = e at *
  rw [hplain]
  cases hrest with
  | nothing =>
      rw [conditional_eq_of_none hcomment hwhere]
      exact (hhead.bind fun head => htail.map _).of_iff (by simp)
  | @condition w t hcondition hclauses hproper =>
      have hfound : e.child? "where" = some w := by
        rw [hwhere, List.find?_cons_of_pos (by simp [hcondition])]
      rw [conditional_eq hcomment hfound, List.forall_mem_cons,
        allPlain_iff (by simp [hcondition, plusNames])]
      refine (hhead.bind fun head => (clauseList_makes hs hclauses).bind fun clauses =>
        htail.map _).of_iff ?_
      exact and_congr_right fun _ => and_congr_right fun _ => by simpa using allPlain_tail t

theorem part_conditional {name : String} {children : List Element} (hname : name ∈ conditionalNames) :
    s.part ⟨name, [], none, children⟩ = s.conditional ⟨name, [], none, children⟩ := by
  simp only [conditionalNames, List.mem_cons, List.not_mem_nil, or_false] at hname
  rcases hname with rfl | rfl | rfl | rfl | rfl <;> rfl

theorem part_whole (hname : e.name ∈ wholeNames) : s.part e = s.statement e := by
  unfold Style.part
  simp only [wholeNames, List.mem_cons, List.not_mem_nil, or_false] at hname
  rcases hname with hname | hname | hname <;>
    · rw [hname]
      rfl

/-- Parts of a text are written in tolog+, and in plain tolog if nothing in them needs tolog+. -/
theorem Part.makes (hs : s.Knows c) (h : Part c e) : s.Makes (s.part e) (e.AllPlain c) := by
  cases h with
  | @rule name parameters body _ _ hname hclauses =>
      have hpart : s.part ⟨"rule", [("name", name)], none,
          (parameters.map fun v => (Leaf.atom .var v).element) ++ [body]⟩ = _ := rule_eq s hname
      rw [hpart]
      refine ((clauseList_makes hs hclauses).map _).of_iff ?_
      rw [allPlain_iff (show "rule" ∉ "qname" :: plusNames by decide), List.forall_mem_append,
        List.forall_mem_singleton, allPlain_iff (by simp [hname, plusNames]), List.forall_mem_map]
      simp [allPlain_var]
  | @conditional name front rest hname hfront hrest =>
      rw [part_conditional hname]
      exact conditional_makes hs hname hfront hrest
  | whole hname _ hflat hmakes =>
      have hnames : ∀ n ∈ wholeNames, n ∈ plusNames := by decide
      rw [part_whole hname]
      exact (hmakes hs).of_iff (iff_of_false id (not_allPlain (hnames _ hname)))

/-! ## Parts of parsed texts -/

theorem behind_condition {x : Condition} (hrefers : Category.condition.Refers c x)
    (hproper : ∀ u ∈ Category.condition.tokens x, u.Proper) : Behind c (conditionElements c x) :=
  .condition (w := conditionElement c x) rfl
    (children_within (x.clauses.clausal hrefers.1 fun u hu => hproper u (List.mem_append_left _ hu)))
    fun u hu => hproper u (List.mem_append_right _ hu)

theorem Rule.part {r : Rule} (hrefers : Category.rule.Refers c r)
    (hproper : ∀ u ∈ Category.rule.tokens r, u.Proper) : Part c (ruleElement c r) :=
  .rule (hproper _ (by simp [Category.rule])) (parameter_proper hproper) rfl
    (children_within (k := .body) (r.body.clausal hrefers fun u hu =>
      hproper u (by simp [Category.rule, hu])))

theorem front_select {ps : List Projection}
    (hproper : ∀ p ∈ ps, ∀ u ∈ Category.projection.tokens p, u.Proper) :
    Front c "select" (ps.map projectionElement) where
  flat := List.forall_mem_map.mpr fun p _ => by
    cases p <;> exact flat_leaf (by simp [Leaf.name, AtomKind.name])
  still := List.forall_mem_map.mpr fun p _ => isTail_projectionElement p
  makes {s} _ rest hrest := by
    have hplain : ∀ d ∈ ps.map projectionElement, d.AllPlain c :=
      List.forall_mem_map.mpr fun p _ => by
        cases p <;> exact allPlain_leaf (by simp [Leaf.name, AtomKind.name, plusNames])
    have hprojected : ∀ d ∈ ps.map projectionElement ++ rest, s.Makes (projected d) True := by
      refine List.forall_mem_append.mpr ⟨List.forall_mem_map.mpr fun p _ => ?_, fun d hd => ?_⟩
      · cases p <;> exact makes_ok _
      · rw [projected_of_isTail (hrest d hd)]
        exact makes_ok _
    exact ((makes_mapM hprojected).map _).of_iff (iff_of_true (fun _ _ => trivial) hplain)
  bare _ := rfl
  seals _ _ hrest _ _ _ htext := ⟨_, ((select_head ps rfl hrest rfl hproper).holds htext).2⟩

theorem target_makes (hs : s.Knows c) {x : Target} (hrefers : x.Refers c)
    (hproper : ∀ u ∈ Category.target.tokens x, u.Proper) :
    s.Makes (item s (targetElement c x)) ((targetElement c x).AllPlain c) := by
  cases x with
  | call x =>
      rw [item, targetElement, if_pos (isClause_call c x)]
      exact Clausal.makes hs (.simple (simple_call hrefers hproper))
  | term t =>
      rw [item, targetElement, if_neg (by simp [isClause_term])]
      exact term_makes hs ⟨t, Term.binds_of_refers hrefers, hproper, rfl⟩

/-- Nothing in an outline is marked. -/
theorem attr?_outline (o : Outline) : o.element.attr? optimizedByName = none := by
  cases o with
  | leaf item =>
      cases item with
      | literal value datatype => cases datatype <;> rfl
      | _ => rfl
  | within k os =>
      have hhints : ∀ hints, Attributes.get? optimizedByName (hintAttributes hints) = none := by
        intro hints
        unfold hintAttributes
        split <;> rfl
      cases k with
      | branch shortCircuit => cases shortCircuit <;> rfl
      | builtin name hints => exact hhints hints
      | internal name hints removed =>
          unfold Outline.element Container.attributes hintAttributes
          cases hints <;> rfl
      | _ => rfl

/-- What a statement lists is written without comments. -/
theorem item_bare (s : Style) (x : Target) :
    item s (targetElement c x) = item s.bare (targetElement c x) := by
  cases x with
  | call x =>
      have hnames : ∀ n ∈ callNames, n ≠ "not" ∧ n ≠ "or" := by decide
      obtain ⟨hnot, hor⟩ := hnames _ (call_name c x)
      have hmark := attr?_outline (x.outline c)
      rw [item, item, targetElement, if_pos (isClause_call c x), if_pos (isClause_call c x),
        clause_eq_plainClause s hnot hor, clause_eq_plainClause s.bare hnot hor,
        comment_eq_empty s hmark, comment_eq_empty s.bare hmark]
      rfl
  | term t =>
      rw [item, item, targetElement, if_neg (by simp [isClause_term]),
        if_neg (by simp [isClause_term])]
      rfl

theorem flat_change {x : Change} (hproper : ∀ u ∈ x.tokens, u.Proper) :
    ∀ d ∈ changeElements c x, d.Flat := by
  rw [← elements_change, Outline.elements_eq_map]
  exact List.forall_mem_map.mpr (x.flatAll (namesWords_of_proper hproper))

/-- Topic map content needs nothing. -/
theorem allPlain_content (content : String) : (Change.contentOutline content).element.AllPlain c := by
  rw [Change.contentOutline, allPlain_within (by decide)]
  refine List.forall_mem_append.mpr ⟨List.forall_mem_map.mpr fun v _ => allPlain_var v, ?_⟩
  exact List.forall_mem_singleton.mpr
    (allPlain_leaf (show "content" ∉ "qname" :: plusNames by decide))

theorem continued_of_every {content : String}
    (h : (Change.contentOutline content).element.Every HoldsContinued) :
    Fragment.Continued content.toList := by
  have hleaf : (Leaf.content content).element ∈ (Change.contentOutline content).element.children := by
    rw [Change.contentOutline, Outline.element, elements_append]
    exact List.mem_append_right _ List.mem_cons_self
  exact (every_iff.mp ((every_iff.mp h).2 _ hleaf)).1 rfl content rfl

/-- In front of a condition content is written on a line with `from` behind it. -/
theorem insertion_of_where {content text : String} {rest : List Element}
    (hwhere : ∃ d ∈ rest, d.name = "where")
    (htext : s.head ⟨"insert", [], none, changeElements c (.insert content) ++ rest⟩ = .ok text) :
    text = "insert " ++ content ++ " from \n" := by
  have hfound : (Element.child? ⟨"insert", [], none, changeElements c (.insert content) ++ rest⟩
      "where").isSome = true := by
    obtain ⟨d, hd, hname⟩ := hwhere
    rw [Element.child?, List.find?_isSome]
    exact ⟨d, List.mem_append_right _ hd, by simp [hname]⟩
  have hhead : s.head ⟨"insert", [], none, changeElements c (.insert content) ++ rest⟩ =
      .ok ("insert " ++ content ++ " from \n") := by
    unfold Style.head
    simp only [hfound, if_true]
    rw [show changeElements c (.insert content) ++ rest =
      (Change.contentOutline content).element :: rest from rfl, content_fragment]
    rfl
  exact (Except.ok.inj (hhead.symm.trans htext)).symm

theorem front_change {x : Change} (hrefers : x.Refers c) (hproper : ∀ u ∈ x.tokens, u.Proper) :
    Front c x.container.tag.name (changeElements c x) where
  flat := flat_change hproper
  still := isTail_changeElements x
  makes {s} hs rest hrest := by
    by_cases hlists : x.Lists
    · rw [head_change hlists rfl hrest rfl, Change.elements_targets hlists]
      refine Makes.map (makes_mapM fun d hd => ?_) _
      obtain ⟨y, hy, rfl⟩ := List.mem_map.mp hd
      refine target_makes hs (Change.refers_targets hrefers y hy) fun u hu => hproper u ?_
      rw [Change.tokens_targets hlists]
      exact List.mem_cons_of_mem _ (mem_listed_of_mem hy hu)
    · obtain ⟨content, rfl⟩ : ∃ content, x = .insert content := by
        simpa [Change.Lists] using hlists
      have hhead : ∃ head, s.head ⟨"insert", [], none, changeElements c (.insert content) ++ rest⟩ =
          .ok head := by
        unfold Style.head
        dsimp only [changeElements, List.singleton_append]
        rw [content_fragment]
        exact ⟨_, rfl⟩
      obtain ⟨head, hhead⟩ := hhead
      have hplain := List.forall_mem_singleton.mpr (allPlain_content (c := c) content)
      exact (hhead ▸ makes_ok head).of_iff (iff_of_true trivial hplain)
  bare {s rest} hrest := by
    by_cases hlists : x.Lists
    · have hitems : item s ∘ targetElement c = item s.bare ∘ targetElement c := funext (item_bare s)
      rw [head_change hlists rfl hrest rfl, head_change hlists rfl hrest rfl, List.mapM_map,
        List.mapM_map, hitems]
    · obtain ⟨content, rfl⟩ : ∃ content, x = .insert content := by
        simpa [Change.Lists] using hlists
      rfl
  seals {s} hs rest hrest hwhere hcontent text htext := by
    by_cases hlists : x.Lists
    · exact ⟨_, ((change_head hs hlists hrefers hproper rfl hrest rfl).holds htext).2.sealed⟩
    · obtain ⟨content, rfl⟩ : ∃ content, x = .insert content := by
        simpa [Change.Lists] using hlists
      have hcontinued := continued_of_every (hcontent _ List.mem_cons_self)
      obtain rfl := insertion_of_where hwhere htext
      exact ⟨_, sealed_insertion hcontinued⟩

/-- A statement about whole topic maps needs tolog+, and nothing else. -/
theorem whole_makes {e : Element} (hterms : ∀ d ∈ e.children, IsTermOf c d) (hs : s.Knows c)
    (construct : PlusConstruct) : s.Makes (s.whole construct e) False := by
  have hwhole : s.whole construct e = (s.requirePlus construct >>= fun _ =>
      s.terms e.children >>= fun texts =>
        .ok (s.comment e ++ e.name ++ " " ++ commaList texts ++ "\n")) := rfl
  rw [hwhole]
  exact ((makes_requirePlus construct).bind fun _ => (terms_makes hs hterms).map _).of_iff (by simp)

theorem load_makes (hs : s.Knows c) {source : Term} {targets : List Term}
    (hsource : IsTermOf c (source.leaf c).element)
    (htargets : ∀ t ∈ targets, IsTermOf c (t.leaf c).element) :
    s.Makes (s.statement (statementElement c (.load source targets))) False := by
  have hinto : ∃ plain, s.Makes (intoText s (statementElement c (.load source targets))) plain := by
    unfold intoText
    rw [child?_into]
    cases targets with
    | nil => exact ⟨True, makes_ok ""⟩
    | cons t targets => exact ⟨_, (terms_makes hs (List.forall_mem_map.mpr htargets)).map _⟩
  obtain ⟨plain, hinto⟩ := hinto
  have hterms := terms_makes hs (List.forall_mem_singleton.mpr hsource)
  rw [load_eq]
  exact ((makes_requirePlus .load).bind fun _ => hterms.bind fun _ => hinto.map _).of_iff (by simp)

/-- The statements of a text are parts of it. -/
theorem Statement.part {x : Statement} (hrefers : Category.statement.Refers c x)
    (hproper : ∀ u ∈ Category.statement.tokens x, u.Proper) : Part c (statementElement c x) := by
  have hiri : ∀ {t : Term}, Category.iri.Refers c t → (∀ u ∈ t.tokens, u.Proper) →
      IsTermOf c (t.leaf c).element := fun {t} h hproper => ⟨t, Term.binds_of_refers h.1, hproper, rfl⟩
  cases x with
  | select projections isWhere x =>
      have hprojections : ∀ p ∈ projections, ∀ u ∈ Category.projection.tokens p, u.Proper :=
        fun p hp u hu => hproper u (List.mem_cons_of_mem _ (List.mem_append_left _
          (mem_listed_of_mem hp hu)))
      refine .conditional (by decide) (front_select hprojections) (behind_condition hrefers.2 ?_)
      exact fun u hu => hproper u (by simp [Category.statement, hu])
  | bare x =>
      exact @Part.conditional c "select" [] _ (by decide) (@front_select c [] (by simp))
        (behind_condition hrefers hproper)
  | change x y =>
      have hname : x.container.tag.name ∈ conditionalNames := by
        cases x <;> simp [conditionalNames, Change.container, Container.tag, Tag.name]
      refine .conditional hname
        (front_change hrefers.1 fun u hu => hproper u (List.mem_append_left _ hu)) ?_
      cases y with
      | none => exact .nothing
      | some y =>
          exact behind_condition (hrefers.2 y rfl) fun u hu =>
            hproper u (List.mem_append_right _ (List.mem_cons_of_mem _ hu))
  | load source targets =>
      have hsource := hiri hrefers.1 fun u hu =>
        hproper u (List.mem_cons_of_mem _ (List.mem_append_left _ hu))
      have htargets : ∀ t ∈ targets, IsTermOf c (t.leaf c).element := fun t ht =>
        hiri (hrefers.2 t ht) fun u hu =>
          hproper u (List.mem_cons_of_mem _ (List.mem_append_right _ (mem_intoTokens ht hu)))
      refine .whole (show "load" ∈ wholeNames by decide) rfl (List.forall_mem_cons.mpr ⟨hsource.flat, ?_⟩)
        fun hs => load_makes hs hsource htargets
      cases targets with
      | nil => simp [intoElements]
      | cons t targets =>
          have hinto := flat_within (k := .into) (by decide) (flatAll_terms (c := c) (t :: targets))
          rw [Outline.element, Outline.elements_eq_map, List.map_map] at hinto
          exact List.forall_mem_singleton.mpr hinto
  | drop source =>
      have hterm := hiri hrefers fun u hu => hproper u (List.mem_cons_of_mem _ hu)
      have hterms := List.forall_mem_singleton.mpr hterm
      exact .whole (show "drop" ∈ wholeNames by decide) rfl (fun d hd => (hterms d hd).flat)
        fun hs => whole_makes hterms hs .drop
  | create source =>
      have hterm := hiri hrefers fun u hu => hproper u (List.mem_cons_of_mem _ hu)
      have hterms := List.forall_mem_singleton.mpr hterm
      exact .whole (show "create" ∈ wholeNames by decide) rfl (fun d hd => (hterms d hd).flat)
        fun hs => whole_makes hterms hs .create

end TopicQuery.Phrase
