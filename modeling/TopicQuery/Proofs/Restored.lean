import TopicQuery.Proofs.Coverage.Clause
import TopicQuery.Proofs.Optimized.Interpreted
import TopicQuery.Proofs.Passes.Narrowed
import TopicQuery.Proofs.Passes.Replaced

/-!
Internal predicates are undone by those who read them. The argument that was left out of a
clause is put back where it stood, among the written arguments as among the terms, so a tree
is written and built alike with internal predicates and with the ones they stand for, down to
the failure where there is one.
-/

namespace TopicQuery

open Element

/-- What has been left out and is put back behind the other steps was never missing. -/
theorem mapM_restored {α β γ ε : Type} {f : α → Except ε β} {xs : List α} {n : Nat} {x : α} {b : β}
    (hx : xs[n]? = some x) (hb : f x = .ok b) (g : List β → Except ε γ) :
    ((xs.eraseIdx n).mapM f >>= fun bs => g (bs.take n ++ [b] ++ bs.drop n)) = (xs.mapM f >>= g) := by
  rw [mapM_eraseIdx hx hb]
  cases h : xs.mapM f with
  | error fault => rfl
  | ok bs => rw [ok_bind, ok_bind, ok_bind, take_append_drop_eraseIdx (getElem?_of_mapM h hx hb)]

namespace InternalPredicates

variable {e c : Element} {counted : List String} {s : Style} {read : Leaf → Except Failure Operand}
  {n : Nat} {v : String}

/-! ## Replaced clauses -/

theorem isClause_replace (counted : List String) (e : Element) :
    Style.isClause (replace counted e) = Style.isClause e := by
  obtain hsame | ⟨hname, _, _, _, _, -, -, -, -, hreplace⟩ := replace_eq counted e
  · rw [hsame]
  · rw [hreplace]
    simp [Style.isClause, replacement, hname]

/-- The argument that a clause is replaced for is the element of a variable. -/
theorem variable_of_argument (hterms : ∀ c ∈ e.children, c.IsTerm)
    (hv : e.arguments[n]?.bind variableName? = some v) :
    e.children[n]? = some (Leaf.atom .var v).element ∧ Text.wordsOf v = [v] := by
  rw [Element.arguments, arguments_eq (name_ne_of_terms hterms)] at hv
  obtain ⟨c, hc, hcv⟩ := Option.bind_eq_some_iff.mp hv
  obtain ⟨item, hitem, rfl, hword⟩ := hterms c (List.mem_of_getElem? hc)
  obtain rfl := eq_var_of_variableName? hitem hcv
  exact ⟨hc, hword v rfl⟩

/-- An internal predicate is written as the built-in one it was made of. -/
theorem clause_replace (hterms : e.HoldsTerms) (hs : s.hints = false) :
    s.clause (replace counted e) = s.clause e := by
  obtain hsame | ⟨hname, builtin, n, v, internal, hcalls, hv, -, hinternal, hreplace⟩ :=
    replace_eq counted e
  · rw [hsame]
  obtain ⟨hargument, hword⟩ := variable_of_argument (hterms hname) hv
  obtain ⟨hfound, hbuiltin, hremoved⟩ := find?_of_findFor? hinternal
  have hbefore : s.plainClause e = (s.terms e.children >>= fun arguments =>
      .ok (Style.application builtin arguments)) := by
    unfold Style.plainClause
    simp only [hname, writtenAttr, hcalls]
    rfl
  have hafter : s.plainClause (internalFor e internal n v) = (s.terms (e.children.eraseIdx n) >>=
      fun arguments => .ok (Style.application builtin
        (arguments.take n ++ ["$" ++ v] ++ arguments.drop n))) := by
    rw [← hbuiltin, ← hremoved]
    exact Phrase.internal_eq rfl hfound (internalFor_removed e internal _ v) hword
  have hcomment := Style.comment_of_hints hs
  have hsame : s.plainClause (internalFor e internal n v) = s.plainClause e := by
    have hvariable : s.term (Leaf.atom .var v).element = .ok ("$" ++ v) := rfl
    rw [hbefore, hafter]
    exact mapM_restored hargument hvariable fun texts => .ok (Style.application builtin texts)
  rw [hreplace, replacement_eq (name_ne_of_terms (hterms hname)) hinternal,
    Phrase.clause_eq_plainClause s (show "internal-predicate" ≠ "not" by decide)
      (show "internal-predicate" ≠ "or" by decide),
    Phrase.clause_eq_plainClause s (by simp [hname]) (by simp [hname]), hcomment, hcomment, hsame]

/-- An internal predicate is built into the built-in one it was made of. -/
theorem meaning_replace (hterms : e.HoldsTerms) (hread : Reads read)
    (hhints : e.name = "builtin-predicate" → ∃ hints, e.hints = .ok hints) :
    (replace counted e).meaning .restoring read = e.meaning .restoring read := by
  obtain hsame | ⟨hname, builtin, n, v, internal, hcalls, hv, -, hinternal, hreplace⟩ :=
    replace_eq counted e
  · rw [hsame]
  obtain ⟨hargument, hword⟩ := variable_of_argument (hterms hname) hv
  obtain ⟨hints, hhints⟩ := hhints hname
  have hvariable : (Leaf.atom .var v).element.meaning .restoring read = .ok (.term (.var v)) := by
    have hterm : (Leaf.atom .var v).IsTerm := trivial
    rw [hterm.meaning_element, hread.var]
  have hchildren : (internalClause e internal v).children = e.children.eraseIdx n := by
    rw [internalClause, withoutArgument_eq (name_ne_of_terms (hterms hname)),
      (find?_of_findFor? hinternal).2.2]
  have hclause : replace counted e = (internalClause e internal v).annotate name := hreplace
  rw [hclause, meaning_annotate, meaning_internalClause hhints hword, hchildren,
    meaning_builtin restoring_admits.usual hname hhints, Element.required, hcalls, Except.orFailure,
    ok_bind, mapM_eraseIdx hargument hvariable]
  cases hos : e.children.mapM (meaning .restoring read) with
  | error failure => rfl
  | ok os =>
      have hoperands := terms_of_children hread (hterms hname) hos
      have hvar := getElem?_of_mapM hos hargument hvariable
      rw [ok_bind, ok_bind, ok_bind, terms_eraseIdx hoperands hvar]
      cases hts : Operands.terms os with
      | error failure => rfl
      | ok ts =>
          have hrestored := restoring_internal hinternal (getElem?_of_terms hoperands hts hvar) hints
          rw [ok_bind, ok_bind, ok_bind, hrestored]
          rfl

/-! ## Lists of clauses -/

theorem mapM_map_congr {α β ε : Type} {f : α → Except ε β} {g : α → α} {xs : List α}
    (h : ∀ x ∈ xs, f (g x) = f x) : (xs.map g).mapM f = xs.mapM f := by
  induction xs with
  | nil => rfl
  | cons x xs ih =>
      obtain ⟨hx, hxs⟩ := List.forall_mem_cons.mp h
      rw [List.map_cons, List.mapM_cons, List.mapM_cons, hx, ih hxs]

/-- A tree whose clauses are replaced is built into what it was built into. -/
theorem meaning_replaceBelow (hterms : e.Every HoldsTerms) (hstands : e.Every Stands)
    (hread : Reads read) : (replaceBelow counted e).meaning .restoring read = e.meaning .restoring read := by
  induction e using induction_children with
  | step e ih =>
      obtain ⟨-, hterms⟩ := every_iff.mp hterms
      obtain ⟨-, hstands⟩ := every_iff.mp hstands
      have hchildren : ∀ g : Element → Element,
          (∀ c ∈ e.children, (g c).meaning .restoring read = c.meaning .restoring read) →
            ({ e with children := e.children.map g } : Element).meaning .restoring read =
              e.meaning .restoring read := by
        intro g hg
        have hlooks : LooksLike { e with children := e.children.map g } e := ⟨rfl, rfl, fun _ _ => rfl⟩
        exact hlooks.meaning_eq (mapM_map_congr hg) (by simp)
      by_cases hlist : e.isClauseList = true
      · rw [replaceBelow_of_list hlist]
        refine hchildren _ fun c hc => ?_
        have hhere := (every_iff.mp (hterms c hc)).1
        by_cases hname : c.name = "builtin-predicate"
        · rw [replaceBelow_of_terms (hhere hname) hname]
          exact meaning_replace hhere hread fun hname =>
            NarrowHints.exists_hints (every_iff.mp (hstands c hc)).1 hname
        · rw [replace_of_ne _ ((name_replaceBelow c).trans_ne hname)]
          exact ih c hc (hterms c hc) (hstands c hc)
      · rw [Bool.not_eq_true] at hlist
        rw [replaceBelow_of_not_list hlist]
        exact hchildren _ fun c hc => ih c hc (hterms c hc) (hstands c hc)

theorem clauses_map {g : Element → Element} {es : List Element}
    (h : ∀ c ∈ es, Style.isClause (g c) = Style.isClause c ∧ s.clause (g c) = s.clause c) :
    s.clauses (es.map g) = s.clauses es := by
  induction es with
  | nil => rfl
  | cons c es ih =>
      obtain ⟨⟨hclause, hsame⟩, hes⟩ := List.forall_mem_cons.mp h
      rw [List.map_cons, Style.clauses, Style.clauses, hclause, hsame, ih hes]

theorem branches_map {g : Element → Element} {es : List Element} (hs : s.hints = false)
    (h : ∀ b ∈ es, Phrase.isShortCircuit (g b) = Phrase.isShortCircuit b ∧
      s.clauses (g b).children = s.clauses b.children) (isFirst : Bool) :
    s.branches isFirst (es.map g) = s.branches isFirst es := by
  have hcomment := Style.comment_of_hints hs
  induction es generalizing isFirst with
  | nil => rfl
  | cons b es ih =>
      obtain ⟨⟨hshort, hclauses⟩, hes⟩ := List.forall_mem_cons.mp h
      rw [List.map_cons, Phrase.branches_cons_eq, Phrase.branches_cons_eq, hcomment, hcomment, hshort,
        hclauses, ih hes]

/-- Other lists of clauses are no clauses. -/
theorem clause_of_list (hname : e.name ≠ "not") (hlist : e.isClauseList = true) :
    s.clause e = .error (.notClause e.name) := by
  have hcases := (isClauseList_iff e).mp hlist
  have hor : e.name ≠ "or" := by
    rintro h
    simp [h] at hcases
  rw [Phrase.clause_eq_plainClause s hname hor]
  unfold Style.plainClause
  obtain h | h | h | h := hcases
  · simp only [h]
    rfl
  · simp only [h]
    rfl
  · simp only [h]
    rfl
  · exact absurd h hname

/-- Lists of clauses are written as they were before clauses were replaced. -/
theorem clause_replaceBelow (h : e.Layered) (hs : s.hints = false) :
    s.clause (replaceBelow counted e) = s.clause e ∧
      s.clauses (replaceBelow counted e).children = s.clauses e.children := by
  have hcomment := Style.comment_of_hints hs
  induction h with
  | flat h =>
      rw [h.unchanged replaceBelow_of_not_list]
      exact ⟨rfl, rfl⟩
  | @list e hlist hlayered ih =>
      have hclause : ∀ c, Style.isClause (replaceBelow counted c) = Style.isClause c := fun c => by
        rw [Style.isClause, Style.isClause, name_replaceBelow]
      have hmember : ∀ c ∈ e.children,
          s.clause (replace counted (replaceBelow counted c)) = s.clause c := by
        intro c hc
        by_cases hname : c.name = "builtin-predicate"
        · have hhere := (every_iff.mp (hlayered c hc).every_holdsTerms).1
          rw [replaceBelow_of_terms (hhere hname) hname, clause_replace hhere hs]
        · rw [replace_of_ne _ ((name_replaceBelow c).trans_ne hname), (ih c hc).1]
      obtain hlist | hor := hlist
      · have hclauses : s.clauses (replaceBelow counted e).children = s.clauses e.children := by
          rw [replaceBelow_of_list hlist]
          exact clauses_map fun c hc => ⟨(isClause_replace counted _).trans (hclause c), hmember c hc⟩
        refine ⟨?_, hclauses⟩
        have hname : (replaceBelow counted e).name = e.name := name_replaceBelow e
        by_cases hnot : e.name = "not"
        · rw [Phrase.clause_of_negation s hnot, Phrase.clause_of_negation s (hname.trans hnot),
            hclauses, hcomment, hcomment]
        · have hlist' : (replaceBelow counted e).isClauseList = true := by
            rwa [isClauseList, hname]
          rw [clause_of_list hnot hlist, clause_of_list (hname.trans_ne hnot) hlist', hname]
      · have hnot : e.isClauseList = false := by simp [isClauseList, hor]
        have hbranches : ∀ b ∈ e.children,
            Phrase.isShortCircuit (replaceBelow counted b) = Phrase.isShortCircuit b ∧
              s.clauses (replaceBelow counted b).children = s.clauses b.children := by
          intro b hb
          have hnode : (replaceBelow counted b).attributes = b.attributes :=
            congrArg (·.1.attributes) (node_replaceBelow b)
          exact ⟨by rw [Phrase.isShortCircuit, attr?, hnode]; rfl, (ih b hb).2⟩
        rw [replaceBelow_of_not_list hnot]
        refine ⟨?_, clauses_map fun c hc => ⟨hclause c, (ih c hc).1⟩⟩
        have hor' : ({ e with children := e.children.map (replaceBelow counted) } : Element).name = "or" :=
          hor
        rw [Phrase.clause_of_alternatives s hor, Phrase.clause_of_alternatives s hor',
          branches_map hs hbranches, hcomment, hcomment]

theorem clauseList_replaceBelow (h : e.Layered) (hs : s.hints = false) :
    s.clauseList (replaceBelow counted e) = s.clauseList e := by
  have hcomment := Style.comment_of_hints hs
  rw [Style.clauseList, Style.clauseList, (clause_replaceBelow h hs).2, hcomment, hcomment]

end InternalPredicates

namespace Element

/-! ## Elements that are the same but for some -/

/-- The elements are the same, or two that are alike, of a name among those that may change. -/
inductive Twins (changes : String → Bool) (alike : Element → Element → Prop) :
    Element → Element → Prop
  | same (e : Element) : Twins changes alike e e
  | alike {e e' : Element} (hchanges : changes e.name = true) (hname : e'.name = e.name)
      (h : alike e e') : Twins changes alike e e'

namespace Twins

variable {changes : String → Bool} {alike : Element → Element → Prop} {e e' : Element}
  {es es' : List Element}

theorem name (h : Twins changes alike e e') : e'.name = e.name := by
  cases h with
  | same => rfl
  | alike _ hname _ => exact hname

theorem filter (h : List.Forall₂ (Twins changes alike) es es') (keep : String → Bool) :
    List.Forall₂ (Twins changes alike) (es.filter (keep ·.name)) (es'.filter (keep ·.name)) := by
  induction h with
  | nil => exact .nil
  | cons hfirst _ ih =>
      simp only [List.filter_cons, hfirst.name]
      split
      · exact .cons hfirst ih
      · exact ih

/-- Twins are the same where only names that do not change are kept. -/
theorem filter_eq (h : List.Forall₂ (Twins changes alike) es es') (keep : String → Bool)
    (hkeep : ∀ name, keep name = true → changes name = false) :
    es'.filter (keep ·.name) = es.filter (keep ·.name) := by
  induction h with
  | nil => rfl
  | @cons e e' es es' hfirst _ ih =>
      rw [List.filter_cons, List.filter_cons, ih, hfirst.name]
      cases hfirst with
      | same => rfl
      | alike hchanges _ _ =>
          have hdropped : keep e.name = false := by
            by_contra hkept
            simp [hkeep _ (by simpa using hkept)] at hchanges
          rw [hdropped]
          rfl

theorem find? (h : List.Forall₂ (Twins changes alike) es es') (name : String) :
    Option.Rel (Twins changes alike) (es.find? (·.name == name)) (es'.find? (·.name == name)) := by
  induction h with
  | nil => exact .none
  | cons hfirst _ ih =>
      simp only [List.find?_cons, hfirst.name]
      split
      · exact .some hfirst
      · exact ih

theorem find?_eq (h : List.Forall₂ (Twins changes alike) es es') {name : String}
    (hname : changes name = false) : es'.find? (·.name == name) = es.find? (·.name == name) := by
  induction h with
  | nil => rfl
  | cons hfirst _ ih =>
      simp only [List.find?_cons, hfirst.name]
      split
      · next hfound =>
        cases hfirst with
        | same => rfl
        | alike hchanges _ _ => simp [beq_iff_eq.mp hfound, hname] at hchanges
      · exact ih

theorem mapM_eq {α ε : Type} (h : List.Forall₂ (Twins changes alike) es es') {f : Element → Except ε α}
    (hf : ∀ {e e'}, changes e.name = true → e'.name = e.name → alike e e' → f e' = f e) :
    es'.mapM f = es.mapM f := by
  induction h with
  | nil => rfl
  | cons hfirst _ ih =>
      rw [List.mapM_cons, List.mapM_cons, ih]
      cases hfirst with
      | same => rfl
      | alike hchanges hname h => rw [hf hchanges hname h]

end Twins

end Element

namespace Style

variable {s : Style} {e e' : Element}

/-! ## Rules and statements -/

/-- The elements of a rule or statement that hold its clauses. -/
def holdsClauses (name : String) : Bool := name == "where" || name == "body"

/-- The elements differ at most in lists of clauses that are written alike. -/
structure WrittenAlike (s : Style) (e e' : Element) : Prop where
  name : e'.name = e.name
  attributes : e'.attributes = e.attributes
  children : List.Forall₂ (Twins holdsClauses fun w w' => s.clauseList w' = s.clauseList w)
    e.children e'.children

theorem eq_of_holdsClauses {name : String} (h : holdsClauses name = true) :
    name = "where" ∨ name = "body" := by
  simpa [holdsClauses] using h

theorem term_of_holdsClauses (h : holdsClauses e.name = true) : s.term e = .error (.notTerm e.name) := by
  unfold Style.term
  obtain h | h := eq_of_holdsClauses h
  · simp only [h]
    rfl
  · simp only [h]
    rfl

/-- Terms are written alike among twins, as lists of clauses are none. -/
theorem terms_twins {es es' : List Element} (h : List.Forall₂
      (Twins holdsClauses fun w w' => s.clauseList w' = s.clauseList w) es es') :
    s.terms es' = s.terms es :=
  Twins.mapM_eq h fun hchanges hname _ => by
    rw [term_of_holdsClauses hchanges, term_of_holdsClauses (hname ▸ hchanges), hname]

namespace WrittenAlike

variable (h : WrittenAlike s e e') (hs : s.hints = false)

include h

theorem writtenAttr (attr : String) : e'.writtenAttr attr = e.writtenAttr attr := by
  rw [Element.writtenAttr, Element.writtenAttr, attr?, attr?, h.name, h.attributes]

theorem child?_eq (name : String) (hname : holdsClauses name = false) :
    e'.child? name = e.child? name := Twins.find?_eq h.children hname

theorem clauses : s.clauses e'.children = s.clauses e.children := by
  have hnames : ∀ name ∈ ["predicate", "builtin-predicate", "internal-predicate", "infix-predicate",
      "association-predicate", "dynamic-predicate", "not", "or"], holdsClauses name = false := by
    decide
  rw [Phrase.clauses_eq_mapM, Phrase.clauses_eq_mapM]
  exact congrArg _ (Twins.filter_eq h.children _ fun name hname => hnames name (by simpa using hname))

theorem targets : (e'.children.filter (!isTail ·)).mapM (fun target =>
      if isClause target then s.clause target else s.term target) =
    (e.children.filter (!isTail ·)).mapM (fun target =>
      if isClause target then s.clause target else s.term target) := by
  refine Twins.mapM_eq (Twins.filter h.children
    fun name => !(["where", "orderby", "pagination"].contains name)) fun {w w'} hchanges hname _ => ?_
  have hclause : ∀ {w : Element}, holdsClauses w.name = true → isClause w = false := by
    intro w hw
    obtain hw | hw := eq_of_holdsClauses hw <;> simp [isClause, hw]
  rw [hclause hchanges, hclause (hname ▸ hchanges), if_neg (by simp), if_neg (by simp),
    term_of_holdsClauses hchanges, term_of_holdsClauses (hname ▸ hchanges), hname]

theorem head : s.head e' = s.head e := by
  have hprojected : e'.children.mapM projected = e.children.mapM projected := by
    have hnone : ∀ {w : Element}, holdsClauses w.name = true → projected w = .ok [] := by
      intro w hw
      unfold projected
      obtain hw | hw := eq_of_holdsClauses hw
      · simp only [hw]
        rfl
      · simp only [hw]
        rfl
    exact Twins.mapM_eq h.children fun hchanges hname _ => by
      rw [hnone hchanges, hnone (hname ▸ hchanges)]
  have hcontent : content e' = content e := by
    rw [content, content, h.child?_eq _ (by decide)]
  have hwhere : (e'.child? "where").isSome = (e.child? "where").isSome := by
    have hfound : Option.Rel _ (e.child? "where") (e'.child? "where") := Twins.find? h.children "where"
    generalize e.child? "where" = condition, e'.child? "where" = condition' at hfound
    cases hfound <;> rfl
  have htopics : s.terms (e'.children.filter fun c => !isTail c && c.name != "into") =
      s.terms (e.children.filter fun c => !isTail c && c.name != "into") :=
    terms_twins (Twins.filter h.children
      fun name => !(["where", "orderby", "pagination"].contains name) && name != "into")
  unfold Style.head
  rw [h.name]
  split
  · rw [hprojected]
  · rw [hcontent, hwhere]
  · rw [h.clauses]
  · rw [h.targets]
  · rw [htopics]
  · rfl

theorem tail : Style.tail e' = Style.tail e := by
  rw [Style.tail, Style.tail, h.child?_eq "orderby" (by decide),
    h.child?_eq "pagination" (by decide)]

include hs

theorem rule : s.rule e' = s.rule e := by
  have hcomment := Style.comment_of_hints hs
  have hvariables : e'.children.filter (·.name == "variable") =
      e.children.filter (·.name == "variable") :=
    Twins.filter_eq h.children (· == "variable") (by simp [holdsClauses])
  have hbody : Option.Rel _ (e.child? "body") (e'.child? "body") := Twins.find? h.children "body"
  unfold Style.rule
  rw [h.writtenAttr, hvariables, hcomment, hcomment]
  generalize e.child? "body" = body, e'.child? "body" = body' at hbody
  cases hbody with
  | none => rfl
  | some htwins =>
      cases htwins with
      | same => rfl
      | alike _ _ hsame => simp only [hsame]

theorem conditional : s.conditional e' = s.conditional e := by
  have hcomment := Style.comment_of_hints hs
  have hwhere : Option.Rel _ (e.child? "where") (e'.child? "where") := Twins.find? h.children "where"
  unfold Style.conditional
  rw [h.head, h.tail, h.name, hcomment, hcomment]
  generalize e.child? "where" = condition, e'.child? "where" = condition' at hwhere
  cases hwhere with
  | none => rfl
  | some htwins =>
      cases htwins with
      | same => rfl
      | alike _ _ hsame => simp only [hsame]

theorem statement : s.statement e' = s.statement e := by
  have hcomment := Style.comment_of_hints hs
  have hsource : s.terms (e'.children.filter (·.name != "into")) =
      s.terms (e.children.filter (·.name != "into")) :=
    terms_twins (Twins.filter h.children (· != "into"))
  have hwhole : ∀ construct, s.whole construct e' = s.whole construct e := fun construct => by
    rw [Style.whole, Style.whole, terms_twins h.children, h.name, hcomment, hcomment]
  unfold Style.statement
  rw [h.name]
  split
  · rw [hsource, h.child?_eq "into" (by decide), hcomment, hcomment]
  · exact hwhole _
  · exact hwhole _
  · exact h.conditional hs

/-- A rule or statement is written as the one whose lists of clauses are written alike. -/
theorem part : s.part e' = s.part e := by
  unfold Style.part
  rw [h.name]
  split
  · rfl
  · rfl
  · exact h.rule hs
  · exact h.statement hs

end WrittenAlike

end Style

/-! ## Documents -/

namespace InternalPredicates

variable {tree scope : Element} {s : Style}

/-- A rule or statement is written as it was before its clauses were replaced. -/
theorem part_replaceScope (hscope : scope.Scoped) (hs : s.hints = false) :
    s.part (replaceScope scope) = s.part scope := by
  have hnot := Scoped.not_list hscope
  rw [replaceScope_of_scoped hscope]
  refine Style.WrittenAlike.part ⟨name_replaceBelow scope, ?_, ?_⟩ hs
  · exact congrArg (·.1.attributes) (node_replaceBelow scope)
  · rw [replaceBelow_of_not_list hnot]
    refine List.forall₂_map_right_iff.mpr (List.forall₂_same.mpr fun c hc => ?_)
    obtain hflat | ⟨hname, hlayered⟩ := hscope.children c hc
    · rw [hflat.unchanged replaceBelow_of_not_list]
      exact .same c
    · exact .alike (by simpa [Style.holdsClauses] using hname) (name_replaceBelow c)
        (clauseList_replaceBelow hlayered hs)

/-- The names of directives. -/
def isDirective (name : String) : Bool := name == "base" || name == "namespace"

/-- Without comments a document is written as it was before clauses were replaced. -/
theorem render_apply (htree : tree.Settled) (dialect : Dialect) :
    render dialect false (apply tree) = render dialect false tree := by
  have htwins : List.Forall₂ (Twins (!isDirective ·) fun scope after =>
      ∀ s : Style, s.hints = false → s.part after = s.part scope) tree.children (apply tree).children := by
    refine List.forall₂_map_right_iff.mpr (List.forall₂_same.mpr fun scope hscope => ?_)
    obtain hheader | hscoped := htree.children scope hscope
    · rw [replaceScope_of_header hheader]
      exact .same scope
    · have hname : (replaceScope scope).name = scope.name := by
        rw [replaceScope_of_scoped hscoped, name_replaceBelow]
      have hnames : ∀ name ∈ "rule" :: statementTags.map Tag.name, isDirective name = false := by decide
      exact .alike (by rw [hnames _ (List.mem_cons.mpr hscoped.name)]; rfl) hname
        fun s hs => part_replaceScope hscoped hs
  have hbase : (apply tree).child? "base" = tree.child? "base" := Twins.find?_eq htwins (by decide)
  have hbindings : (apply tree).children.filter (·.name == "namespace") =
      tree.children.filter (·.name == "namespace") :=
    Twins.filter_eq htwins (· == "namespace") (by simp [isDirective])
  have hparts : ∀ kinds, (apply tree).children.mapM (Style.part ⟨dialect, false, kinds⟩) =
      tree.children.mapM (Style.part ⟨dialect, false, kinds⟩) := fun kinds =>
    Twins.mapM_eq htwins fun _ _ halike => halike _ rfl
  unfold render Style.baseDirective
  simp only [hbase, hbindings, hparts]
  rfl

end InternalPredicates

/-! ## Queries -/

namespace Builder

variable {f : Factory} {b b' : Builder} {e : Element}

/-- The builder is in a document. -/
def IsOpen (b : Builder) : Prop := b.query = none ∧ b.frames ≠ []

theorem IsOpen.push {o : Operand} (hb : b.IsOpen) (h : b.push o = .ok b') : b'.IsOpen := by
  unfold Builder.push at h
  split at h
  · cases h
  · obtain rfl := Except.ok.inj h
    exact ⟨hb.1, by simp⟩

/-- A directive is no end of the document. -/
theorem IsOpen.take_header (he : e.IsHeader) (hb : b.IsOpen) (h : b.take f e.replay = .ok b') :
    b'.IsOpen := by
  obtain ⟨fault, hreplay⟩ | ⟨iri, hreplay⟩ | ⟨identifier, iri, kind, hreplay⟩ := replay_header he
  · rw [hreplay] at h
    cases h
  · rw [hreplay, take_leaf] at h
    obtain ⟨base, -, hbase⟩ := ok_of_bind h
    obtain rfl := Except.ok.inj hbase
    exact hb
  · rw [hreplay, take_leaf] at h
    obtain ⟨resolved, -, hbinding⟩ := ok_of_bind h
    obtain rfl := Except.ok.inj hbinding
    exact hb

/-- What means the same and stands between the same directives is taken in alike. -/
theorem take_replayAll_map {g : Element → Element} {es : List Element}
    (h : ∀ e ∈ es, e.IsHeader ∧ g e = e ∨ e.Inside ∧ (g e).Inside ∧
      ∀ b : Builder, (g e).meaning f (b.operand f) = e.meaning f (b.operand f)) (hb : b.IsOpen) :
    b.take f (replayAll (es.map g)) = b.take f (replayAll es) := by
  induction es generalizing b with
  | nil => rfl
  | cons e es ih =>
      obtain ⟨hfirst, hrest⟩ := List.forall_mem_cons.mp h
      have hsame : b.take f (g e).replay = b.take f e.replay := by
        obtain ⟨-, hsame⟩ | ⟨hinside, hinside', hmeaning⟩ := hfirst
        · rw [hsame]
        · rw [take_replay e hinside hb.1 hb.2, take_replay (g e) hinside' hb.1 hb.2, hmeaning]
      rw [List.map_cons, replayAll, replayAll, take_andThen, take_andThen, hsame]
      cases htake : b.take f e.replay with
      | error failure => rfl
      | ok b' =>
          have hopen : b'.IsOpen := by
            obtain ⟨hheader, -⟩ | ⟨hinside, -⟩ := hfirst
            · exact hb.take_header hheader htake
            · rw [take_replay e hinside hb.1 hb.2] at htake
              obtain ⟨o, -, hpush⟩ := ok_of_bind htake
              exact hb.push hpush
          exact ih hrest hopen

end Builder

namespace InternalPredicates

variable {tree : Element}

/-- A document is built into the query it was built into before clauses were replaced. -/
theorem toQuery_apply (htree : tree.Settled) (hstands : tree.Every Stands) (document : Iri) :
    (apply tree).toQuery .restoring document = tree.toQuery .restoring document := by
  have hname : (apply tree).name = "tolog" := htree.name
  rw [toQuery_document htree.name, toQuery_document hname]
  have htake : (started document).take .restoring (replayAll (apply tree).children) =
      (started document).take .restoring (replayAll tree.children) := by
    refine Builder.take_replayAll_map (fun scope hscope => ?_) ⟨rfl, by simp [started]⟩
    obtain hheader | hscoped := htree.children scope hscope
    · exact .inl ⟨hheader, replaceScope_of_header hheader⟩
    · have hafter := ((sound_replaceScope restoring_admits).settled hscoped).inside
      refine .inr ⟨hscoped.inside, hafter, fun b => ?_⟩
      rw [replaceScope_of_scoped hscoped]
      exact meaning_replaceBelow ((every_iff.mp htree.every_holdsTerms).2 scope hscope)
        ((every_iff.mp hstands).2 scope hscope) b.reads_operand
  rw [htake]

end InternalPredicates

/-! ## Trees of texts -/

/--
A text is written without comments, and made into a query by the factory that puts back what
internal predicates stand for, as if no clause had been replaced: alike if that succeeds, and
for the same reason if it fails.
-/
theorem internalPredicates_restored {plus : Bool} {text : String}
    (hparses : (parse text plus).fault = none) :
    ∃ tree, Element.ofText plus text = .ok tree ∧
      (∀ dialect, render dialect false (optimize [.internalPredicates] tree) =
        render dialect false tree) ∧
      ∀ document, (optimize [.internalPredicates] tree).toQuery .restoring document =
        tree.toQuery .restoring document := by
  obtain ⟨d, hd⟩ := Phrase.exists_document hparses
  have hsettled := settled_of_ofText hd.tree
  exact ⟨_, hd.tree, InternalPredicates.render_apply hsettled, InternalPredicates.toQuery_apply hsettled
    (stands_outline (Phrase.settingOf plus text) hd.proper)⟩

/-- Clauses that are replaced in a rule, in a negation and in a branch, for either argument. -/
theorem internalPredicates_restored_rule :
    ∃ tree, Element.ofText false
        "r($A) :- instance-of($A, $B), not({ direct-instance-of($C, $A) | topic($A) }). r($X)?" =
          .ok tree ∧
      (∀ dialect, render dialect false (optimize [.internalPredicates] tree) =
        render dialect false tree) ∧
      ∀ document, (optimize [.internalPredicates] tree).toQuery .restoring document =
        tree.toQuery .restoring document :=
  internalPredicates_restored (by decide +kernel)

end TopicQuery
