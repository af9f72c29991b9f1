import TopicQuery.Proofs.Defined
import TopicQuery.Proofs.Rendered.Term
import TopicQuery.Proofs.Tree
import TopicQuery.Rendering.Clause

/-!
Rendered clauses. What is written for the element of a call or of a clause spells
its canonical form.
-/

namespace TopicQuery.Phrase

open Grammar Style

variable {s : Style} {c : Scope}

/-! ## Lists of terms -/

theorem listed_map {α β : Type} (tokens : β → List Token) (f : α → β) (xs : List α) :
    listed tokens (xs.map f) = listed (fun x => tokens (f x)) xs := by
  match xs with
  | [] => rfl
  | [x] => rfl
  | x :: y :: xs =>
      have := listed_map tokens f (y :: xs)
      simp only [List.map_cons, listed] at this ⊢
      rw [this]

/-- The phrases of a list are written with commas between them. -/
theorem gives_listed {α β : Type} {f : β → Except RenderFault String} {g : α → β} {plain : α → Prop}
    {tokens : α → List Token} {xs : List α}
    (h : ∀ x ∈ xs, s.Writes (f (g x)) (plain x) (tokens x)) :
    Gives ((xs.map g).mapM f) (s.Allows (∀ x ∈ xs, plain x))
      fun ss => Spelled (listed tokens xs) (commaList ss) := by
  rw [List.mapM_map]
  exact ((gives_mapM h).of_iff allows_forall.symm).imp spelled_commaList

theorem terms_writes (hs : s.Suits c) (ts : List Term) (hbinds : ∀ t ∈ ts, t.Binds c)
    (hproper : ∀ t ∈ ts, ∀ u ∈ t.tokens, u.Proper) :
    Gives (s.terms (ts.map fun t => (t.leaf c).element))
      (s.Allows (∀ t ∈ ts.map (Term.canonical c), t.IsPlain))
      fun ss => Spelled (listed Term.tokens (ts.map (Term.canonical c))) (commaList ss) := by
  rw [listed_map]
  refine (gives_listed fun t ht => term_writes hs (hbinds t ht) (hproper t ht)).of_iff ?_
  simp

/-- The names of the elements that terms are shown as. -/
def termNames : List String := AtomKind.all.map AtomKind.name ++ ["literal", "qname", "curie"]

theorem atomName_mem (kind : AtomKind) : kind.name ∈ termNames := by
  cases kind <;> decide

theorem term_name (c : Scope) (t : Term) : (t.leaf c).name ∈ termNames := by
  cases t with
  | atom kind value => exact atomName_mem kind
  | literal value datatype => exact (by decide : "literal" ∈ termNames)
  | qname marker name => exact (by decide : "qname" ∈ termNames)
  | curie marker name => exact (by decide : "curie" ∈ termNames)
  | iri marker value => exact atomName_mem marker.atomKind

theorem filter_terms {p : Element → Bool} {ts : List Term}
    (hp : ∀ e : Element, e.name ∈ termNames → p e = true) :
    (ts.map fun t => (t.leaf c).element).filter p = ts.map fun t => (t.leaf c).element := by
  refine List.filter_eq_self.mpr fun e he => hp e ?_
  obtain ⟨t, -, rfl⟩ := List.mem_map.mp he
  exact term_name c t

/-! ## Calls -/

theorem elements_leaves (ts : List Term) :
    Outline.elements (ts.map fun t => .leaf (t.leaf c)) = ts.map fun t => (t.leaf c).element := by
  simp [Outline.elements_eq_map, Function.comp_def, Outline.element]

theorem sealed_lparen : Sealed [.symbol .lparen] "(" :=
  sealed_mark (by decide : Symbol.lparen ∈ freeMarks)

theorem sealed_rparen : Sealed [.symbol .rparen] ")" :=
  sealed_mark (by decide : Symbol.rparen ∈ freeMarks)

theorem spelled_application {ts us : List Token} {name : String} {arguments : List String}
    (hname : Spelled ts name) (harguments : Spelled us (commaList arguments)) :
    Spelled (ts ++ Token.symbol .lparen :: (us ++ [Token.symbol .rparen]))
      (application name arguments) := by
  have hall := (((hname.append_sealed sealed_lparen (by decide) (by decide)).append_spelled
    harguments).append_sealed sealed_rparen (by decide) (by decide)).spelled
  simpa [application] using hall

/-- The element of a call by name. -/
def calledElement (c : Scope) (container : Container) (name : Term) (rest : List Outline) : Element :=
  (Outline.within container (Call.calleeOutline c name :: rest)).element

theorem callee_writes (hs : s.Suits c) {container : Container} {name : Term} {rest : List Outline}
    (hbinds : name.Binds c) (hproper : ∀ u ∈ name.tokens, u.Proper) :
    s.Writes (s.callee (calledElement c container name rest)) (name.canonical c).IsPlain
      (name.canonical c).tokens := term_writes hs hbinds hproper

theorem eq_identifier_of_form {name : Term} {text : String} (h : name.form c = .plain text) :
    name = .atom .identifier text := by
  unfold Term.form at h
  split at h
  · cases h; rfl
  · split at h <;> cases h
  · cases h

theorem plainCall_writes (hs : s.Suits c) {name : Term} {arguments : List Term}
    (hrefers : (Call.plain name arguments).Refers c)
    (hproper : ∀ u ∈ (Call.plain name arguments).tokens, u.Proper) :
    s.Writes (s.plainClause ((Call.plain name arguments).outline c).element)
      ((Call.plain name arguments).canonical c).IsPlain
      ((Call.plain name arguments).canonical c).tokens := by
  have hname : ∀ u ∈ name.tokens, u.Proper := fun u hu => hproper u (List.mem_append_left _ hu)
  have harguments : ∀ t ∈ arguments, ∀ u ∈ t.tokens, u.Proper := fun t ht u hu =>
    hproper u <| List.mem_append_right _ <| List.mem_cons_of_mem _ <|
      List.mem_append_left _ (mem_listed_of_mem ht hu)
  have hterms := terms_writes hs arguments (fun t ht => Term.binds_of_refers (hrefers.2.1 t ht)) harguments
  obtain ⟨builtin, hints, hform, hcontainer⟩ | hcontainer :=
    Call.callContainer_cases c.rules (name.form c) arguments.length
  · obtain rfl := eq_identifier_of_form hform
    have hbuiltin : Spelled [.atom .identifier builtin] builtin :=
      spelled_atom (hname (.atom .identifier builtin) (by simp [Term.tokens]))
    rw [Call.outline_builtin hcontainer, Outline.element, elements_leaves]
    refine (hterms.map fun hss => spelled_application hbuiltin hss).of_iff ?_
    simp only [Call.canonical, Call.IsPlain, Call.name, Call.terms, Term.canonical, Term.IsPlain,
      true_and]
  · have hother : ∀ builtin hints,
        callContainer c.rules (name.form c) arguments.length ≠ .builtin builtin hints := by
      rcases hcontainer with h | h <;> simp [h]
    rw [Call.outline_called hother]
    have hcall : ∀ container, s.Writes
        (plainClause.call s (calledElement c container name
          (arguments.map fun a => .leaf (a.leaf c))))
        ((Call.plain name arguments).canonical c).IsPlain
        ((Call.plain name arguments).canonical c).tokens := by
      intro container
      refine ((callee_writes hs (Term.binds_of_names hrefers.1) hname).bind fun text htext =>
        Gives.map (f := application text) ?_ fun hss => spelled_application htext hss).of_iff
          allows_and.symm
      have hfilter : (calledElement c container name
          (arguments.map fun a => .leaf (a.leaf c))).children.filter (·.name != "name") =
          arguments.map fun t => (t.leaf c).element := by
        have hnames : ∀ n ∈ termNames, (n != "name") = true := by decide
        rw [calledElement, Outline.element, Outline.elements, elements_leaves,
          List.filter_cons_of_neg (by simp [Call.calleeOutline, Outline.element, Container.tag,
            Tag.name]), filter_terms fun e he => hnames e.name he]
      rw [hfilter]
      exact hterms
    rcases hcontainer with h | h <;> rw [h]
    · exact hcall .call
    · exact hcall .dynamic

theorem role_writes (hs : s.Suits c) {r : Role} (hplayer : r.player.Refers c)
    (htype : r.type.Refers c) (hproper : ∀ u ∈ r.tokens, u.Proper) :
    s.Writes (s.role (r.outline c).element)
      ((r.player.canonical c).IsPlain ∧ (r.type.canonical c).IsPlain) (r.canonical c).tokens := by
  have hplayers := term_writes hs (Term.binds_of_refers hplayer)
    fun u hu => hproper u (List.mem_append_left _ hu)
  have htypes := term_writes hs (Term.binds_of_refers htype)
    fun u hu => hproper u (List.mem_append_right _ (List.mem_cons_of_mem _ hu))
  have hcolon : Sealed [.symbol .colon] " : " :=
    (spelled_mark (by decide : Symbol.colon ∈ Lexeme.softMarks)).blank.behind_blank
  refine (hplayers.bind fun player hp => Gives.map (f := fun type => player ++ " : " ++ type) htypes
    fun ht => ?_).of_iff allows_and.symm
  have hall := (hp.append_sealed hcolon (by decide) (by decide)).append_spelled ht
  simpa [Role.tokens, Role.canonical] using hall

theorem association_writes (hs : s.Suits c) {name : Term} {roles : List Role}
    (hrefers : (Call.association name roles).Refers c)
    (hproper : ∀ u ∈ (Call.association name roles).tokens, u.Proper) :
    s.Writes (s.plainClause ((Call.association name roles).outline c).element)
      ((Call.association name roles).canonical c).IsPlain
      ((Call.association name roles).canonical c).tokens := by
  have hname : ∀ u ∈ name.tokens, u.Proper := fun u hu => hproper u (List.mem_append_left _ hu)
  have hroles : ∀ r ∈ roles, ∀ u ∈ r.tokens, u.Proper := fun r hr u hu =>
    hproper u <| List.mem_append_right _ <| List.mem_cons_of_mem _ <|
      List.mem_append_left _ (mem_listed_of_mem hr hu)
  have hpart := Call.forall_terms_association.mp hrefers.2.1
  have hlist := gives_listed (g := fun r => (Role.outline c r).element) fun r hr =>
    role_writes hs (hpart r hr).1 (hpart r hr).2 (hroles r hr)
  have hfilter : ((Call.association name roles).outline c).element.children.filter
      (·.name == "pair") = roles.map fun r => (r.outline c).element := by
    have hpairs : ∀ e ∈ roles.map (fun r => (Role.outline c r).element),
        (e.name == "pair") = true := by
      intro e he
      obtain ⟨r, -, rfl⟩ := List.mem_map.mp he
      rfl
    rw [Call.outline, Outline.element, Outline.elements, Outline.elements_eq_map, List.map_map,
      List.filter_cons_of_neg (by simp [Call.calleeOutline, Outline.element, Container.tag,
        Tag.name])]
    exact List.filter_eq_self.mpr hpairs
  have hwrites : s.Writes
      (do
        let callee ← s.callee ((Call.association name roles).outline c).element
        return application callee (← (((Call.association name roles).outline c).element.children.filter
          (·.name == "pair")).mapM s.role))
      ((Call.association name roles).canonical c).IsPlain
      ((Call.association name roles).canonical c).tokens := by
    rw [hfilter]
    refine ((callee_writes hs (Term.binds_of_names hrefers.1) hname).bind fun text htext =>
      hlist.map fun hss => spelled_application htext (by rwa [← listed_map] at hss)).of_iff ?_
    rw [← allows_and, Call.IsPlain, Call.canonical, Call.forall_terms_association]
    simp [Call.name, Role.canonical]
  exact hwrites

/-- A call is written as its canonical form. -/
theorem call_writes (hs : s.Suits c) {call : Call} (hrefers : call.Refers c)
    (hproper : ∀ u ∈ call.tokens, u.Proper) :
    s.Writes (s.plainClause (call.outline c).element) (call.canonical c).IsPlain
      (call.canonical c).tokens := by
  cases call with
  | plain name arguments => exact plainCall_writes hs hrefers hproper
  | association name roles => exact association_writes hs hrefers hproper

/-! ## Clauses -/

/-- The names of the elements that calls are shown as. -/
def callNames : List String :=
  ["predicate", "builtin-predicate", "dynamic-predicate", "association-predicate"]

theorem call_name (c : Scope) (call : Call) : (call.outline c).element.name ∈ callNames := by
  cases call with
  | association name roles => exact (by decide : "association-predicate" ∈ callNames)
  | plain name arguments =>
      obtain ⟨builtin, hints, -, h⟩ | h | h :=
        Call.callContainer_cases c.rules (name.form c) arguments.length
      · rw [Call.outline_builtin h]
        exact (by decide : "builtin-predicate" ∈ callNames)
      · rw [Call.outline_called (by simp [h]), h]
        exact (by decide : "predicate" ∈ callNames)
      · rw [Call.outline_called (by simp [h]), h]
        exact (by decide : "dynamic-predicate" ∈ callNames)

theorem isClause_call (c : Scope) (call : Call) : isClause (call.outline c).element = true := by
  have hnames : ∀ n ∈ callNames, ["predicate", "builtin-predicate", "internal-predicate",
      "infix-predicate", "association-predicate", "dynamic-predicate", "not", "or"].contains n =
        true := by decide
  exact hnames _ (call_name c call)

theorem isClause_clause (c : Scope) (x : Clause) : isClause (x.outline c).element = true := by
  cases x with
  | call call => exact isClause_call c call
  | _ => rfl

/-- A clause that no clauses lie in is written behind its comment. -/
theorem clause_eq_plainClause (s : Style) {e : Element} (hnot : e.name ≠ "not") (hor : e.name ≠ "or") :
    s.clause e = (s.plainClause e >>= fun text => .ok (s.comment e ++ text)) := by
  obtain ⟨name, attributes, text, children⟩ := e
  rw [Style.clause]
  simp only [beq_iff_eq, hnot, hor, if_false]
  rfl

/-- A negation has its comment twice, in front of its clauses too. -/
theorem clause_of_negation (s : Style) {e : Element} (hname : e.name = "not") :
    s.clause e = (s.clauses e.children >>= fun texts =>
      .ok (s.comment e ++ "not(" ++ s.comment e ++ commaList texts ++ ")")) := by
  obtain ⟨name, attributes, text, children⟩ := e
  obtain rfl : name = "not" := hname
  rw [Style.clause, if_pos (by decide)]
  rfl

theorem clause_of_alternatives (s : Style) {e : Element} (hname : e.name = "or") :
    s.clause e = (s.branches true e.children >>= fun texts =>
      .ok (s.comment e ++ "\x7b " ++ String.join texts ++ " \x7d")) := by
  obtain ⟨name, attributes, text, children⟩ := e
  obtain rfl : name = "or" := hname
  rw [Style.clause, if_neg (by decide), if_pos (by decide)]
  rfl

theorem clause_of_plain (hs : s.Suits c) {e : Element} (hnot : e.name ≠ "not") (hor : e.name ≠ "or")
    {plain : Prop} {ts : List Token} (h : s.Writes (s.plainClause e) plain ts) :
    s.Writes (s.clause e) plain ts := by
  rw [clause_eq_plainClause s hnot hor, hs.comment]
  exact h.map fun htext => by simpa using htext

theorem comparison_writes (hs : s.Suits c) {operator : Comparison} {left right : Term}
    (hleft : left.Refers c) (hright : right.Refers c)
    (hproper : ∀ u ∈ (Clause.comparison operator left right).tokens, u.Proper) :
    s.Writes (s.comparison ((Clause.comparison operator left right).outline c).element) False
      ((Clause.comparison operator left right).canonical c).tokens := by
  have hlefts := term_writes hs (Term.binds_of_refers hleft)
    fun u hu => hproper u (List.mem_append_left _ hu)
  have hrights := term_writes hs (Term.binds_of_refers hright)
    fun u hu => hproper u (List.mem_append_right _ (List.mem_cons_of_mem _ hu))
  have hsides : s.Writes
      (do
        return (← s.term (left.leaf c).element) ++ " " ++ operator.sign ++ " " ++
          (← s.term (right.leaf c).element))
      ((left.canonical c).IsPlain ∧ (right.canonical c).IsPlain)
      ((Clause.comparison operator left right).canonical c).tokens := by
    refine (hlefts.bind fun l hl => hrights.map fun {r} hr => ?_).of_iff allows_and.symm
    have hall := (hl.append_sealed (sealed_comparison operator) (by simp [Soft, boundaries])
      (by simp)).append_spelled hr
    simpa [Clause.canonical, Clause.tokens, String.append_assoc] using hall
  have hname : s.comparison ((Clause.comparison operator left right).outline c).element =
      (s.requirePlus .comparison >>= fun _ => do
        return (← s.term (left.leaf c).element) ++ " " ++ operator.sign ++ " " ++
          (← s.term (right.leaf c).element)) := by
    cases operator <;> rfl
  rw [hname]
  refine ((gives_requirePlus .comparison).bind fun _ _ => hsides).of_iff ?_
  simp only [Allows]
  grind

theorem elements_cons (o : Outline) (os : List Outline) :
    Outline.elements (o :: os) = o.element :: Outline.elements os := rfl

theorem commaList_cons_of_ne_nil {text : String} {texts : List String} (h : texts ≠ []) :
    commaList (text :: texts) = text ++ ", " ++ commaList texts := by
  obtain ⟨s', ss, rfl⟩ := List.exists_cons_of_ne_nil h
  exact commaList_cons_cons text s' ss

theorem sealed_negation : Sealed [.keyword .not, .symbol .lparen] "not(" := by
  have hwords := (spelled_keyword .not (by simp)).append_sealed sealed_lparen (by decide) (by decide)
  simpa [Keyword.text] using hwords

theorem sealed_lbrace : Sealed [.symbol .lbrace] "\x7b " := by
  have hmark := (sealed_mark (by decide : Symbol.lbrace ∈ freeMarks)).append sealed_blank
  simpa [Symbol.text] using hmark

theorem sealed_rbrace : Sealed [.symbol .rbrace] " \x7d" := by
  have hmark := (sealed_mark (by decide : Symbol.rbrace ∈ freeMarks)).behind_blank
  simpa [Symbol.text] using hmark

/-- The bar in front of a branch, if another one stands before it. -/
def barText (isFirst shortCircuit : Bool) : String :=
  if isFirst then "" else if shortCircuit then " || " else " | "

/-- The tokens of the bar in front of a branch. -/
def barTokens (isFirst shortCircuit : Bool) : List Token :=
  if isFirst then [] else [.symbol (barSymbol shortCircuit)]

theorem sealed_barText (isFirst shortCircuit : Bool) :
    Sealed (barTokens isFirst shortCircuit) (barText isFirst shortCircuit) := by
  have hbar : Sealed [.symbol .bar] " | " :=
    (spelled_mark (by decide : Symbol.bar ∈ Lexeme.softMarks)).blank.behind_blank
  have hbars : Sealed [.symbol .barBar] " || " :=
    (spelled_mark (by decide : Symbol.barBar ∈ Lexeme.softMarks)).blank.behind_blank
  cases isFirst <;> cases shortCircuit
  · exact hbar
  · exact hbars
  · exact sealed_nil
  · exact sealed_nil

/-- The branch is tried only if those in front of it have no result. -/
def isShortCircuit (e : Element) : Bool := e.attr? "short-circuit" == some "true"

/-- A branch is written behind its bar and its comment. -/
theorem branches_cons_eq (s : Style) (isFirst : Bool) (b : Element) (es : List Element) :
    s.branches isFirst (b :: es) =
      (s.clauses b.children >>= fun inner => s.branches false es >>= fun rest =>
        .ok ((barText isFirst (isShortCircuit b) ++ s.comment b ++ commaList inner) :: rest)) := by
  obtain ⟨name, attributes, text, children⟩ := b
  rw [Style.branches]
  cases isFirst <;> cases hshort : isShortCircuit ⟨name, attributes, text, children⟩ <;>
    rw [isShortCircuit] at hshort <;> simp only [hshort] <;> rfl

theorem branches_cons (hs : s.Suits c) (isFirst shortCircuit : Bool) (os : List Outline)
    (es : List Element) :
    s.branches isFirst ((Outline.within (.branch shortCircuit) os).element :: es) =
      (s.clauses (Outline.elements os) >>= fun inner => s.branches false es >>= fun rest =>
        .ok ((barText isFirst shortCircuit ++ commaList inner) :: rest)) := by
  have hshort : isShortCircuit (Outline.within (.branch shortCircuit) os).element = shortCircuit := by
    cases shortCircuit <;> rfl
  rw [branches_cons_eq, hshort, hs.comment, String.append_empty]
  rfl

mutual

/-- A clause is written as its canonical form. -/
theorem Clause.writes (hs : s.Suits c) (x : Clause) (hrefers : x.Refers c)
    (hproper : ∀ u ∈ x.tokens, u.Proper) :
    s.Writes (s.clause (x.outline c).element) (x.canonical c).IsPlain (x.canonical c).tokens := by
  match x with
  | .call call =>
      have hnames : ∀ n ∈ callNames, n ≠ "not" ∧ n ≠ "or" := by decide
      obtain ⟨hnot, hor⟩ := hnames _ (call_name c call)
      exact clause_of_plain hs hnot hor (call_writes hs hrefers hproper)
  | .comparison operator left right =>
      exact clause_of_plain hs (by simp [Clause.outline, Outline.element, Container.tag, Tag.name])
        (by simp [Clause.outline, Outline.element, Container.tag, Tag.name])
        (comparison_writes hs hrefers.1 hrefers.2 hproper)
  | .negation inner =>
      have hinner := inner.writes hs hrefers fun u hu =>
        hproper u (by simp [Clause.tokens, hu])
      rw [Clause.outline, Outline.element, Style.clause, if_pos (by decide)]
      refine hinner.map fun {texts} htexts => ?_
      have hall := ((sealed_negation.append_spelled htexts.2).append_sealed sealed_rparen (by decide)
        (by decide)).spelled
      simpa [hs.comment, Clause.canonical, Clause.tokens] using hall
  | .alternatives branches =>
      have hbranches := branches.writes hs false true hrefers fun u hu =>
        hproper u (by simp [Clause.tokens, hu])
      rw [Clause.outline, Outline.element, Style.clause, if_neg (by decide), if_pos (by decide)]
      refine hbranches.map fun {texts} htexts => ?_
      have hall := ((sealed_lbrace.append_spelled htexts.1).append_sealed sealed_rbrace (by decide)
        (by decide)).spelled
      simpa [hs.comment, Clause.canonical, Clause.tokens, barTokens] using hall

theorem Clauses.writes (hs : s.Suits c) (xs : Clauses) (hrefers : xs.Refers c)
    (hproper : ∀ u ∈ xs.tokens, u.Proper) :
    Gives (s.clauses (Outline.elements (xs.outlines c))) (s.Allows (xs.canonical c).IsPlain)
      fun ss => ss ≠ [] ∧ Spelled (xs.canonical c).tokens (commaList ss) := by
  match xs with
  | .last x =>
      have hx := x.writes hs hrefers hproper
      rw [Clauses.outlines, elements_cons, Outline.elements, Style.clauses,
        if_pos (isClause_clause c x), Style.clauses]
      exact hx.map fun {text} htext => ⟨by simp, by simpa [commaList, Clauses.canonical, Clauses.tokens] using htext⟩
  | .cons x xs =>
      have hx := x.writes hs hrefers.1 fun u hu => hproper u (List.mem_append_left _ hu)
      have hxs := xs.writes hs hrefers.2 fun u hu =>
        hproper u (List.mem_append_right _ (List.mem_cons_of_mem _ hu))
      have hcomma : Sealed [.symbol .comma] ", " :=
        (sealed_mark (by decide : Symbol.comma ∈ freeMarks)).append sealed_blank
      rw [Clauses.outlines, elements_cons, Style.clauses, if_pos (isClause_clause c x)]
      refine (hx.bind fun text htext => hxs.map fun {texts} htexts => ⟨by simp, ?_⟩).of_iff
        allows_and.symm
      rw [commaList_cons_of_ne_nil htexts.1]
      have hall := (htext.append_sealed hcomma (by decide) (by decide)).append_spelled htexts.2
      simpa [Clauses.canonical, Clauses.tokens] using hall

theorem Branches.writes (hs : s.Suits c) (bs : Branches) (shortCircuit isFirst : Bool)
    (hrefers : bs.Refers c) (hproper : ∀ u ∈ bs.tokens, u.Proper) :
    Gives (s.branches isFirst (Outline.elements (bs.outlines c shortCircuit)))
      (s.Allows (bs.canonical c).IsPlain)
      fun ss => Spelled (barTokens isFirst shortCircuit ++ (bs.canonical c).tokens)
        (String.join ss) ∧ (isFirst = false → Soft (String.join ss).toList) := by
  have hsoft : isFirst = false → ∀ text, Soft (barText isFirst shortCircuit ++ text).toList := by
    rintro rfl text
    cases shortCircuit <;> simp [barText, Soft, boundaries]
  match bs with
  | .last inner =>
      have hinner := inner.writes hs hrefers hproper
      rw [Branches.outlines, elements_cons, branches_cons hs, Outline.elements, Style.branches]
      refine hinner.map fun {texts} htexts => ?_
      have hall := (sealed_barText isFirst shortCircuit).append_spelled htexts.2
      simp only [String.join_cons, String.join_nil, String.append_empty]
      exact ⟨hall, fun hfirst => hsoft hfirst _⟩
  | .cons inner next bs =>
      have hinner := inner.writes hs hrefers.1 fun u hu => hproper u (List.mem_append_left _ hu)
      have hbs := bs.writes hs next false hrefers.2 fun u hu =>
        hproper u (List.mem_append_right _ (List.mem_cons_of_mem _ hu))
      rw [Branches.outlines, elements_cons, branches_cons hs]
      refine (hinner.bind fun texts htexts => hbs.map fun {rest} hrest => ?_).of_iff
        allows_and.symm
      have hall := ((sealed_barText isFirst shortCircuit).append_spelled htexts.2).append hrest.1
        (hrest.2 rfl)
      rw [String.join_cons]
      refine ⟨by simpa [barTokens, Branches.canonical, Branches.tokens] using hall, fun hfirst => ?_⟩
      rw [String.append_assoc]
      exact hsoft hfirst _

end

end TopicQuery.Phrase
