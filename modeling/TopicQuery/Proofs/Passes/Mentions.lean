import TopicQuery.Proofs.Passes.Evidence

/-!
Mentioned variables behind a pass. Where variables are mentioned as often, the same clauses
are replaced; a replacement leaves out only variables that are mentioned once, and passes
that narrow kinds or put clauses in another order leave out none.
-/

namespace TopicQuery

open Element

namespace Element

/-- If the element stands for no container, nothing lies in it. -/
def HoldsAsContainer (e : Element) : Prop := Tag.ofName? e.name = none → e.children = []

theorem holdsAsContainer_kept : KeptByPasses HoldsAsContainer where
  children hempty h hname := hempty (h hname)
  annotate {e} pass h hname := by
    rw [name_annotate] at hname
    rw [children_annotate]
    exact h hname
  hints _ _ _ _ h := h
  internal _ _ _ _ _ hname := absurd hname (show Tag.ofName? "internal-predicate" ≠ none by decide)

end Element

namespace InternalPredicates

variable {counted counted' : List String} {e : Element} {v : String}

/-! ## Counts -/

theorem mentioned_of_variableName? (h : e.variableName? = some v) : mentioned e = [v] := by
  obtain ⟨hname, hvalue⟩ := variableName?_eq_some h
  simp [mentioned, hname, hvalue]

theorem mem_mentions_of_argument {n : Nat} (h : e.arguments[n]?.bind variableName? = some v) :
    v ∈ mentions e := by
  obtain ⟨c, hc, hcv⟩ := Option.bind_eq_some_iff.mp h
  have hchild : c ∈ e.children := (List.mem_filter.mp (List.mem_of_getElem? hc)).1
  apply mem_mentions_of_child hchild
  apply mem_mentions_of_mentioned
  rw [mentioned_of_variableName? hcv]
  exact List.mem_singleton_self v

/-- A clause is replaced alike where its variables are mentioned as often. -/
theorem replace_congr (h : ∀ v ∈ mentions e, counted.count v = counted'.count v) :
    replace counted e = replace counted' e := by
  have hlone : ∀ n, lone? counted e n = lone? counted' e n := by
    intro n
    unfold lone?
    cases hargument : e.arguments[n]?.bind variableName? with
    | none => rfl
    | some v =>
        have hcount := h v (mem_mentions_of_argument hargument)
        simp only [Option.filter, hcount]
  have hargument : loneArgument? counted e = loneArgument? counted' e := by
    simp only [loneArgument?, hlone]
  unfold replace
  rw [hargument]

theorem replaceBelow_of_list (h : e.isClauseList = true) : replaceBelow counted e =
    { e with children := e.children.map fun c => replace counted (replaceBelow counted c) } := by
  obtain ⟨name, attributes, text, children⟩ := e
  rw [replaceBelow, h, replaceIn_eq_map]
  simp

theorem replaceBelow_annotate (counted : List String) (e : Element) (pass : String) :
    replaceBelow counted (e.annotate pass) = (replaceBelow counted e).annotate pass := by
  by_cases hlist : e.isClauseList = true
  · have hmarked : (e.annotate pass).isClauseList = true := by rwa [isClauseList, name_annotate]
    rw [replaceBelow_of_list hlist, replaceBelow_of_list hmarked, annotate_children, children_annotate]
  · rw [Bool.not_eq_true] at hlist
    have hmarked : (e.annotate pass).isClauseList = false := by rwa [isClauseList, name_annotate]
    rw [replaceBelow_of_not_list hlist, replaceBelow_of_not_list hmarked, annotate_children,
      children_annotate]

theorem isFilter_replace (counted : List String) (e : Element) :
    (replace counted e).isFilter = e.isFilter := by
  obtain hsame | ⟨hname, _, _, _, _, -, -, -, -, hreplace⟩ := replace_eq counted e
  · rw [hsame]
  · rw [hreplace]
    simp [isFilter, replacement, hname]

/-- The same clauses are replaced where all variables are mentioned as often. -/
theorem replaceBelow_congr (h : ∀ v, counted.count v = counted'.count v) (e : Element) :
    replaceBelow counted e = replaceBelow counted' e := by
  induction e using induction_children with
  | step e ih =>
      by_cases hlist : e.isClauseList = true
      · rw [replaceBelow_of_list hlist, replaceBelow_of_list hlist]
        congr 1
        refine List.map_congr_left fun c hc => ?_
        rw [ih c hc]
        exact replace_congr fun v _ => h v
      · rw [Bool.not_eq_true] at hlist
        rw [replaceBelow_of_not_list hlist, replaceBelow_of_not_list hlist]
        congr 1
        exact List.map_congr_left ih

/-! ## What a replacement leaves out -/

/-- Variables are left out of a list, but only such as are counted once. -/
structure Thins (counted as bs : List String) : Prop where
  le : ∀ v, bs.count v ≤ as.count v
  eq : ∀ v, counted.count v ≠ 1 → bs.count v = as.count v

namespace Thins

variable {as bs cs ds : List String}

theorem of_perm (h : as.Perm bs) : Thins counted as bs :=
  ⟨fun v => (h.count_eq v).ge, fun v _ => (h.count_eq v).symm⟩

theorem trans (h : Thins counted as bs) (h' : Thins counted bs cs) : Thins counted as cs :=
  ⟨fun v => (h'.le v).trans (h.le v), fun v hv => (h'.eq v hv).trans (h.eq v hv)⟩

theorem append (h : Thins counted as bs) (h' : Thins counted cs ds) :
    Thins counted (as ++ cs) (bs ++ ds) := by
  constructor
  · intro v
    rw [List.count_append, List.count_append]
    exact Nat.add_le_add (h.le v) (h'.le v)
  · intro v hv
    rw [List.count_append, List.count_append, h.eq v hv, h'.eq v hv]

theorem flatMap {es : List Element} {g : Element → Element}
    (h : ∀ e ∈ es, Thins counted (mentions e) (mentions (g e))) :
    Thins counted (es.flatMap mentions) ((es.map g).flatMap mentions) := by
  induction es with
  | nil => exact .of_perm .rfl
  | cons e es ih =>
      obtain ⟨he, hes⟩ := List.forall_mem_cons.mp h
      exact he.append (ih hes)

end Thins

theorem mentions_of_childless (h : e.children = []) : (mentions e).Perm (mentioned e) := by
  have hperm := mentions_perm e
  rwa [h, List.flatMap_nil, List.append_nil] at hperm

theorem mentioned_congr {e' : Element} (hname : e'.name = e.name)
    (hvalue : e'.attr? "value" = e.attr? "value") (htext : e'.text = e.text) :
    mentioned e' = mentioned e := by
  unfold mentioned
  rw [hname, hvalue, htext]

theorem perm_withoutArgument {es : List Element} {n : Nat} {c : Element}
    (h : (es.filter (·.name != "name"))[n]? = some c) : es.Perm (c :: withoutArgument n es) := by
  induction es generalizing n with
  | nil => simp at h
  | cons e es ih =>
      by_cases hname : e.name = "name"
      · simp only [List.filter_cons, hname, bne_self_eq_false, Bool.false_eq_true, if_false] at h
        simp only [withoutArgument, hname, beq_self_eq_true, if_true]
        exact ((ih h).cons e).trans (.swap c e _)
      · simp only [List.filter_cons, bne_iff_ne, ne_eq, hname, not_false_eq_true, if_true] at h
        simp only [withoutArgument, beq_iff_eq, hname, if_false]
        cases n with
        | zero =>
            obtain rfl : e = c := by simpa using h
            exact .refl _
        | succ n =>
            rw [List.getElem?_cons_succ] at h
            exact ((ih h).cons e).trans (.swap c e _)

theorem thins_replacement (hleaves : ∀ c ∈ e.children, HoldsAsContainer c)
    (hname : e.name = "builtin-predicate") {n : Nat}
    (hargument : e.arguments[n]?.bind variableName? = some v) {builtin : String}
    {internal : Internal} (hinternal : Internal.findFor? builtin n = some internal)
    (hcount : counted.count v = 1) :
    Thins counted (mentions e) (mentions (replacement e internal v)) := by
  obtain ⟨c, hc, hcv⟩ := Option.bind_eq_some_iff.mp hargument
  have hchild : c ∈ e.children := (List.mem_filter.mp (List.mem_of_getElem? hc)).1
  have hremoved := (find?_of_findFor? hinternal).2.2
  have hmentioned : mentioned e = [] := by simp [mentioned, hname]
  have hargument : (mentions c).Perm [v] := by
    have hempty : c.children = [] := by
      apply hleaves c hchild
      rw [(variableName?_eq_some hcv).1]
      decide
    rw [← mentioned_of_variableName? hcv]
    exact mentions_of_childless hempty
  have hsplit : (mentions e).Perm (v :: (withoutArgument n e.children).flatMap mentions) := by
    have hflat := (mentions_perm e).trans (.of_eq (congrArg (· ++ _) hmentioned))
    exact hflat.trans (((perm_withoutArgument hc).flatMap_right mentions).trans (hargument.append_right _))
  have hreplaced : (mentions (replacement e internal v)).Perm
      ((withoutArgument n e.children).flatMap mentions) := by
    have hclause := mentions_perm (replacement e internal v)
    have hnone : mentioned (replacement e internal v) = [] := by
      simp [mentioned, replacement]
    have hchildren : (replacement e internal v).children = withoutArgument n e.children := by
      rw [replacement, children_annotate, hremoved]
    rwa [hnone, hchildren, List.nil_append] at hclause
  refine .trans (.of_perm hsplit) (.trans ⟨fun w => ?_, fun w hw => ?_⟩ (.of_perm hreplaced.symm))
  · exact List.count_le_count_cons
  · rw [List.count_cons_of_ne]
    rintro rfl
    exact hw hcount

theorem thins_replace (hleaves : ∀ c ∈ e.children, HoldsAsContainer c) :
    Thins counted (mentions e) (mentions (replace counted e)) := by
  obtain hsame | ⟨hname, _, _, _, _, -, hargument, hcount, hinternal, hreplace⟩ :=
    replace_eq counted e
  · rw [hsame]
    exact .of_perm .rfl
  · rw [hreplace]
    exact thins_replacement hleaves hname hargument hinternal hcount

/-- All that goes when clauses are replaced are variables that were to be replaced for. -/
theorem thins_replaceBelow (h : e.Every HoldsAsContainer) :
    Thins counted (mentions e) (mentions (replaceBelow counted e)) := by
  induction h with
  | @mk e here below ih =>
      have hchildren : ∀ c ∈ e.children, ∀ d ∈ (replaceBelow counted c).children,
          HoldsAsContainer d := fun c hc d hd =>
        (every_iff.mp
          ((every_iff.mp ((below c hc).replaceBelow holdsAsContainer_kept counted)).2 d hd)).1
      have hthins : ∀ g : Element → Element,
          (∀ c ∈ e.children, Thins counted (mentions c) (mentions (g c))) →
          Thins counted (mentions e) (mentions { e with children := e.children.map g }) := fun g hg =>
        .trans (.of_perm (mentions_perm e)) (.trans (.append (.of_perm .rfl) (.flatMap hg))
          (.of_perm (mentions_perm { e with children := e.children.map g }).symm))
      by_cases hlist : e.isClauseList = true
      · rw [replaceBelow_of_list hlist]
        exact hthins _ fun c hc => (ih c hc).trans (thins_replace (hchildren c hc))
      · rw [Bool.not_eq_true] at hlist
        rw [replaceBelow_of_not_list hlist]
        exact hthins _ ih

/-! ## What other passes leave mentioned -/

theorem mentions_perm_of {e e' : Element} (hhere : mentioned e = mentioned e')
    (hbelow : (e.children.flatMap mentions).Perm (e'.children.flatMap mentions)) :
    (mentions e).Perm (mentions e') := by
  refine (mentions_perm e).trans (.trans ?_ (mentions_perm e').symm)
  rw [hhere]
  exact hbelow.append_left _

theorem mentions_perm_map {e : Element} {g : Element → Element}
    (h : ∀ c ∈ e.children, (mentions (g c)).Perm (mentions c)) :
    (mentions { e with children := e.children.map g }).Perm (mentions e) := by
  refine mentions_perm_of ?_ ?_
  · rfl
  · rw [List.flatMap_map]
    exact List.Perm.flatMap_left _ h

theorem mentions_annotate (e : Element) (pass : String) :
    (mentions (e.annotate pass)).Perm (mentions e) := by
  apply mentions_perm_of
  · exact mentioned_congr (name_annotate e pass) ((looksLike_annotate e pass).attr? "value" (by decide))
      (looksLike_annotate e pass).text
  · rw [children_annotate]

theorem mentions_changeLists {pass : String} {change : List Element → Option (List Element)}
    (hchange : ∀ {cs cs'}, change cs = some cs' → cs.Perm cs') (e : Element) :
    (mentions (e.changeLists pass change)).Perm (mentions e) := by
  induction e using induction_children with
  | step e ih =>
      have hinner := mentions_perm_map ih
      rw [changeLists_eq, changeList]
      split
      · split
        · next hcs =>
          refine (mentions_annotate _ pass).trans (.trans (mentions_perm_of ?_ ?_) hinner)
          · rfl
          · exact (hchange hcs).symm.flatMap_right mentions
        · exact hinner
      · exact hinner

theorem mentions_narrow (evidence : List NarrowHints.Evidence) (e : Element) :
    (mentions (NarrowHints.narrow evidence e)).Perm (mentions e) := by
  obtain h | ⟨hname, _, _, left, -, -, -, -, h⟩ := NarrowHints.narrow_eq evidence e
  · rw [h]
  · rw [h]
    refine (mentions_annotate _ _).trans (mentions_perm_of ?_ (.refl _))
    exact mentioned_congr rfl (Attributes.get?_put_ne (by decide)) rfl

theorem mentions_narrowBelow (outer : List NarrowHints.Evidence) (e : Element) :
    (mentions (NarrowHints.narrowBelow outer e)).Perm (mentions e) := by
  induction e using induction_children generalizing outer with
  | step e ih =>
      by_cases hlist : e.isClauseList = true
      · rw [NarrowHints.narrowBelow_of_list outer hlist]
        exact mentions_perm_map fun c hc => (mentions_narrow _ _).trans (ih c hc _)
      · rw [Bool.not_eq_true] at hlist
        rw [NarrowHints.narrowBelow_of_not_list outer hlist]
        exact mentions_perm_map fun c hc => ih c hc outer

/-- The clauses of a rule or statement are replaced before another change as behind it, if that
change leaves what is mentioned and is interchanged with replacing for the same counts. -/
theorem replaceScope_interchange {g : Element → Element} {e : Element} (hname : (g e).name = e.name)
    (hmentions : (mentions (g e)).Perm (mentions e))
    (hbelow : replaceBelow (mentions e) (g e) = g (replaceBelow (mentions e) e)) :
    replaceScope (g e) = g (replaceScope e) := by
  unfold replaceScope
  rw [hname]
  split
  · rfl
  · rw [replaceBelow_congr hmentions.count_eq, hbelow]

end InternalPredicates

end TopicQuery
