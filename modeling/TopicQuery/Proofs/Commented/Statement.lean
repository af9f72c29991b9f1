import TopicQuery.Proofs.Commented.Scanned
import TopicQuery.Proofs.Coverage.Clause
import TopicQuery.Proofs.Coverage.Statement

/-!
Clauses, rules and statements with comments. Comments stand in front of clauses, in front of
what a negation denies and in front of branches, so a clause spells the same tokens with
them as without. What stands in the bodies of rules and in conditions is scanned on its own,
also where it is topic map content with a condition behind it.
-/

namespace TopicQuery.Phrase

open Grammar Element Style

variable {s : Style} {c : Scope} {e : Element} {ts us : List Token} {text : String}

/-! ## Comments inside clauses -/

theorem spelled_commented (s : Style) (h : e.NamesPasses) (htext : Spelled ts text) :
    Spelled ts (s.comment e ++ text) := (s.sealed_comment h).append_spelled htext

theorem spelled_negation (s : Style) (h : e.NamesPasses) (htext : Spelled ts text) :
    Spelled (.keyword .not :: .symbol .lparen :: (ts ++ [Token.symbol .rparen]))
      (s.comment e ++ "not(" ++ s.comment e ++ text ++ ")") := by
  have hfront := ((s.sealed_comment h).append sealed_negation).append (s.sealed_comment h)
  have hall := (hfront.append_spelled htext).append_sealed sealed_rparen (by decide) (by decide)
  simpa using hall.spelled

theorem spelled_alternatives (s : Style) (h : e.NamesPasses) (htext : Spelled ts text) :
    Spelled (.symbol .lbrace :: (ts ++ [Token.symbol .rbrace]))
      (s.comment e ++ "\x7b " ++ text ++ " \x7d") := by
  have hfront := (s.sealed_comment h).append sealed_lbrace
  have hall := (hfront.append_spelled htext).append_sealed sealed_rbrace (by decide) (by decide)
  simpa using hall.spelled

/-- Branches are written as what spells the tokens and may stand behind another branch. -/
def Joined (isFirst : Bool) (ts : List Token) (texts : List String) : Prop :=
  Spelled ts (String.join texts) ∧ (isFirst = false → Soft (String.join texts).toList)

theorem joined_nil (isFirst : Bool) : Joined isFirst [] [] :=
  ⟨sealed_nil.spelled, fun _ => by decide⟩

theorem joined_cons (s : Style) (h : e.NamesPasses) {texts : List String}
    (htext : Spelled ts text) (hrest : Joined false us texts) (isFirst shortCircuit : Bool) :
    Joined isFirst (barTokens isFirst shortCircuit ++ ts ++ us)
      ((barText isFirst shortCircuit ++ s.comment e ++ text) :: texts) := by
  have hbar := (sealed_barText isFirst shortCircuit).append (s.sealed_comment h)
  rw [List.append_nil] at hbar
  rw [Joined, String.join_cons]
  refine ⟨(hbar.append_spelled htext).append hrest.1 (hrest.2 rfl), ?_⟩
  rintro rfl
  cases shortCircuit <;> simp [barText, Soft, boundaries]

/-! ## Clauses with and without comments -/

theorem clauses_alike {es : List Element} (hes : ∀ d ∈ es, Clausal c d)
    (h : ∀ d ∈ es, Agree SpelledAlike (s.clause d) (s.bare.clause d)) :
    Agree SpelledAlike (s.clauses es >>= fun texts => .ok (commaList texts))
      (s.bare.clauses es >>= fun texts => .ok (commaList texts)) := by
  have hclauses : es.filter isClause = es := List.filter_eq_self.mpr fun d hd => (hes d hd).isClause
  rw [clauses_eq_mapM, clauses_eq_mapM, hclauses]
  exact (Agree.mapM (List.forall₂_same.mpr h)).map fun _ _ => SpelledAlike.commaList

theorem branches_alike {bs : List Element} (hmarks : ∀ b ∈ bs, b.NamesPasses)
    (h : ∀ b ∈ bs, Agree SpelledAlike (s.clauses b.children >>= fun texts => .ok (commaList texts))
      (s.bare.clauses b.children >>= fun texts => .ok (commaList texts))) (isFirst : Bool) :
    Agree (fun texts texts' => ∃ ts, Joined isFirst ts texts ∧ Joined isFirst ts texts')
      (s.branches isFirst bs) (s.bare.branches isFirst bs) := by
  induction bs generalizing isFirst with
  | nil => exact ⟨[], joined_nil isFirst, joined_nil isFirst⟩
  | cons b bs ih =>
      obtain ⟨hmark, hmarks⟩ := List.forall_mem_cons.mp hmarks
      obtain ⟨hfirst, hrest⟩ := List.forall_mem_cons.mp h
      have hcons : ∀ s : Style, s.branches isFirst (b :: bs) =
          ((s.clauses b.children >>= fun texts => .ok (commaList texts)) >>= fun inner =>
            s.branches false bs >>= fun rest =>
              .ok ((barText isFirst (isShortCircuit b) ++ s.comment b ++ inner) :: rest)) := by
        intro s
        rw [branches_cons_eq, bind_assoc]
        rfl
      rw [hcons, hcons]
      refine hfirst.bind fun inner inner' hinner => (ih hmarks hrest false).map ?_
      rintro rest rest' ⟨us, hus, hus'⟩
      obtain ⟨ts, hts, hts'⟩ := hinner
      exact ⟨_, joined_cons s hmark hts hus _ _, joined_cons s.bare hmark hts' hus' _ _⟩

/-- A clause spells the same with comments and without. -/
theorem Clausal.alike (hs : s.Knows c) (h : Clausal c e) (hmarks : e.Every NamesPasses) :
    Agree SpelledAlike (s.clause e) (s.bare.clause e) := by
  induction h with
  | @simple e h =>
      have hnames : ∀ n ∈ simpleNames, n ≠ "not" ∧ n ≠ "or" := by decide
      obtain ⟨hnot, hor⟩ := hnames _ h.name
      have hmark := (every_iff.mp hmarks).1
      rw [clause_eq_plainClause s hnot hor, clause_eq_plainClause s.bare hnot hor,
        plainClause_bare]
      cases hplain : s.plainClause e with
      | error fault => trivial
      | ok text =>
          obtain ⟨ts, hts⟩ := ((h.legible hs).holds hplain).2
          exact ⟨ts, spelled_commented s hmark hts, spelled_commented s.bare hmark hts⟩
  | @negation e hname hchildren ih =>
      obtain ⟨hmark, hbelow⟩ := every_iff.mp hmarks
      have hnot : ∀ s : Style, s.clause e =
          ((s.clauses e.children >>= fun texts => .ok (commaList texts)) >>= fun inner =>
            .ok (s.comment e ++ "not(" ++ s.comment e ++ inner ++ ")")) := by
        intro s
        rw [clause_of_negation s hname, bind_assoc]
        rfl
      rw [hnot, hnot]
      refine (clauses_alike hchildren fun d hd => ih d hd (hbelow d hd)).map ?_
      rintro inner inner' ⟨ts, hts, hts'⟩
      exact ⟨_, spelled_negation s hmark hts, spelled_negation s.bare hmark hts'⟩
  | @alternatives e hname hbranches hchildren ih =>
      obtain ⟨hmark, hbelow⟩ := every_iff.mp hmarks
      rw [clause_of_alternatives s hname, clause_of_alternatives s.bare hname]
      refine Agree.map (branches_alike (fun b hb => (every_iff.mp (hbelow b hb)).1)
        (fun b hb => clauses_alike (hchildren b hb) fun d hd =>
          ih b hb d hd ((every_iff.mp (hbelow b hb)).2 d hd)) true) ?_
      rintro texts texts' ⟨ts, hts, hts'⟩
      exact ⟨_, spelled_alternatives s hmark hts.1, spelled_alternatives s.bare hmark hts'.1⟩

/-- The clauses of a list spell the same with comments and without. -/
theorem clauseList_alike (hs : s.Knows c) {w : Element} (hclauses : ∀ d ∈ w.children, Clausal c d)
    (hmarks : w.Every NamesPasses) :
    Agree SpelledAlike (s.clauseList w) (s.bare.clauseList w) := by
  obtain ⟨hmark, hbelow⟩ := every_iff.mp hmarks
  have hlist : ∀ s : Style, s.clauseList w =
      ((s.clauses w.children >>= fun texts => .ok (commaList texts)) >>= fun inner =>
        .ok (s.comment w ++ inner)) := by
    intro s
    rw [Style.clauseList, bind_assoc]
    rfl
  rw [hlist, hlist]
  refine (clauses_alike hclauses fun d hd => (hclauses d hd).alike hs (hbelow d hd)).map ?_
  rintro inner inner' ⟨ts, hts, hts'⟩
  exact ⟨ts, spelled_commented s hmark hts, spelled_commented s.bare hmark hts'⟩

/-! ## Rules -/

/-- A rule spells the same on its line with comments and without. -/
theorem rule_alike (hs : s.Knows c) {name : String} {parameters : List String} {body : Element}
    (hidentifier : (Token.atom .identifier name).Proper)
    (hparameters : ∀ v ∈ parameters, (Token.atom .var v).Proper) (hname : body.name = "body")
    (hclauses : ∀ d ∈ body.children, Clausal c d) (hmarks : body.Every NamesPasses) :
    Agree SealedAlike
      (s.rule ⟨"rule", [("name", name)], none,
        (parameters.map fun v => (Leaf.atom .var v).element) ++ [body]⟩)
      (s.bare.rule ⟨"rule", [("name", name)], none,
        (parameters.map fun v => (Leaf.atom .var v).element) ++ [body]⟩) := by
  have hvariables : ∀ text ∈ parameters.map ("$" ++ ·), Legible text :=
    List.forall_mem_map.mpr fun v hv => ⟨_, spelled_variable (hparameters v hv)⟩
  obtain ⟨us, hus⟩ := legible_commaList hvariables
  have hhead := spelled_application (spelled_identifier hidentifier) hus
  rw [rule_eq s hname, rule_eq s.bare hname]
  refine (clauseList_alike hs hclauses hmarks).map ?_
  rintro clauses clauses' ⟨ts, hts, hts'⟩
  exact ⟨_, sealed_ruleLine hhead hts, sealed_ruleLine hhead hts'⟩

/-! ## Statements -/

/-- A statement with a condition, or one that could have one, is scanned the same. -/
theorem conditional_alike (hs : s.Knows c) {name : String} {front rest : List Element}
    (hfront : Front c name front) (hrest : Behind c rest)
    (hmarks : ∀ d ∈ rest, d.Every NamesPasses)
    (hcontent : (∃ d ∈ rest, d.name = "where") → ∀ d ∈ front, d.Every HoldsContinued) :
    Agree ScannedAlike (s.conditional ⟨name, [], none, front ++ rest⟩)
      (s.bare.conditional ⟨name, [], none, front ++ rest⟩) := by
  have hbare := hfront.bare (s := s) hrest.isTail
  have htail := tail_follows (e := ⟨name, [], none, front ++ rest⟩) hfront.still hrest rfl
  have hwhere : Element.child? ⟨name, [], none, front ++ rest⟩ "where" =
      rest.find? (·.name == "where") := child?_front (by decide) hfront.still rfl
  have hcomment : ∀ s : Style, s.comment ⟨name, [], none, front ++ rest⟩ = "" := fun s =>
    comment_eq_empty s rfl
  have hseals : (∃ d ∈ rest, d.name = "where") → ∀ {text},
      s.bare.head ⟨name, [], none, front ++ rest⟩ = .ok text → ∃ ts, Sealed ts text :=
    fun hsome => hfront.seals hs.suits hrest.isTail hsome (hcontent hsome)
  generalize (⟨name, [], none, front ++ rest⟩ : Element) = e at *
  cases hrest with
  | nothing =>
      rw [conditional_eq_of_none (hcomment s) hwhere, conditional_eq_of_none (hcomment _) hwhere, hbare]
      exact Agree.refl scannedAlike_refl _
  | @condition w t hname hclauses hproper =>
      have hfound : e.child? "where" = some w := by
        rw [hwhere, List.find?_cons_of_pos (by simp [hname])]
      rw [conditional_eq (hcomment s) hfound, conditional_eq (hcomment _) hfound, hbare]
      refine Agree.bind_of_ok (Agree.refl (R := Eq) (fun _ => rfl) _) ?_
      rintro head _ hhead rfl
      obtain ⟨us, hus⟩ := hseals ⟨w, List.mem_cons_self, hname⟩ hhead
      refine (clauseList_alike hs hclauses (hmarks w List.mem_cons_self)).bind ?_
      rintro clauses clauses' ⟨ts, hts, hts'⟩
      refine Agree.bind_of_ok (Agree.refl (R := Eq) (fun _ => rfl) _) ?_
      rintro tail _ hfollows rfl
      obtain ⟨vs, hvs⟩ := (htail.holds hfollows).2
      exact scannedAlike_of_finishes (finishes_conditional hus hts hvs _)
        (finishes_conditional hus hts' hvs _)

/-- A statement about whole topic maps has no comments in it. -/
theorem whole_bare (hname : e.name ∈ wholeNames) (hattributes : e.attributes = []) :
    s.statement e = s.bare.statement e := by
  have hcomment : ∀ s : Style, s.comment e = "" := fun s =>
    comment_eq_empty s (by rw [attr?, hattributes]; rfl)
  unfold Style.statement Style.whole
  simp only [hcomment]
  simp only [wholeNames, List.mem_cons, List.not_mem_nil, or_false] at hname
  rcases hname with hname | hname | hname <;> rw [hname] <;> rfl

/-! ## Parts of a text -/

theorem Part.rule_alike (h : Part c e) (hname : e.name = "rule") (hs : s.Knows c)
    (hmarks : e.Every NamesPasses) : Agree SealedAlike (s.part e) (s.bare.part e) := by
  cases h with
  | rule hidentifier hparameters hbody hclauses =>
      exact Phrase.rule_alike hs hidentifier hparameters hbody hclauses
        ((every_iff.mp hmarks).2 _ (List.mem_append_right _ List.mem_cons_self))
  | conditional hconditional _ _ =>
      have hnames : "rule" ∉ conditionalNames := by decide
      exact absurd (hname ▸ hconditional) hnames
  | whole hwhole _ _ _ =>
      have hnames : "rule" ∉ wholeNames := by decide
      exact absurd (hname ▸ hwhole) hnames

/-- A part of a text is scanned the same with comments and without. -/
theorem Part.alike (h : Part c e) (hs : s.Knows c) (hmarks : e.Every NamesPasses)
    (hcontent : (∃ d ∈ e.children, d.name = "where") → e.Every HoldsContinued) :
    Agree ScannedAlike (s.part e) (s.bare.part e) := by
  cases h with
  | rule hidentifier hparameters hbody hclauses =>
      refine (Part.rule_alike (.rule hidentifier hparameters hbody hclauses) rfl hs hmarks).imp ?_
      intro line line' hline
      have hscanned := hline.scanned (scannedAlike_refl "")
      rwa [String.append_empty, String.append_empty] at hscanned
  | conditional hname hfront hrest =>
      rw [part_conditional hname, part_conditional hname]
      have hbelow := (every_iff.mp hmarks).2
      refine conditional_alike hs hfront hrest
        (fun d hd => hbelow d (List.mem_append_right _ hd)) ?_
      rintro ⟨w, hw, hwhere⟩ d hd
      exact (every_iff.mp (hcontent ⟨w, List.mem_append_right _ hw, hwhere⟩)).2 d
        (List.mem_append_left _ hd)
  | whole hname hattributes _ _ =>
      rw [part_whole hname, part_whole hname, whole_bare hname hattributes]
      exact Agree.refl scannedAlike_refl _

end TopicQuery.Phrase
