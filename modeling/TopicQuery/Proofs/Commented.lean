import TopicQuery.Proofs.Commented.Statement
import TopicQuery.Proofs.Coverage

/-!
Comments never change a query. With comments on what was optimized a text is rendered as
what is scanned, and so parsed, like what is rendered without them: behind any passes, in
either dialect, and in front of topic map content.
-/

namespace TopicQuery

open Phrase

/-! ## What optimized texts hold -/

namespace Element

/--
Comments do not change how the element is scanned: its marks name passes, and if the text
has a condition its topic map content stood in front of a gap.
-/
structure Commentable (conditional : Prop) (e : Element) : Prop where
  marks : e.NamesPasses
  condition : e.name = "where" → conditional
  content : conditional → HoldsContinued e

variable {conditional : Prop}

theorem keptByPasses_commentable : KeptByPasses (Commentable conditional) where
  children _ h := ⟨h.marks, h.condition, h.content⟩
  annotate {e} pass h := by
    refine ⟨h.marks.annotate pass, ?_, fun hconditional => ?_⟩
    · rw [name_annotate]
      exact h.condition
    · unfold HoldsContinued
      rw [name_annotate, text_annotate]
      exact h.content hconditional
  hints {e hints left} hname _ _ _ h := by
    have hmark : (e.setAttr "hints" (Hint.listText left)).attr? optimizedByName =
        e.attr? optimizedByName := Attributes.get?_put_ne (by decide)
    refine ⟨?_, h.condition, h.content⟩
    unfold NamesPasses
    rw [hmark]
    exact h.marks
  internal {clause builtin n removed internal} _ _ _ _ _ := by
    refine ⟨fun passes hpasses => ?_, fun hname => absurd hname ?_, fun _ hname => absurd hname ?_⟩
    · have hmark : (InternalPredicates.internalClause clause internal removed).attr?
          optimizedByName = none := by
        unfold InternalPredicates.internalClause
        cases clause.attr? "hints" <;> rfl
      rw [hmark] at hpasses
      cases hpasses
    · simp [InternalPredicates.internalClause]
    · simp [InternalPredicates.internalClause]

theorem Every.marks {e : Element} (h : e.Every (Commentable conditional)) : e.Every NamesPasses := by
  induction h with
  | mk here _ ih => exact .mk here.marks ih

theorem Every.continued {e : Element} (h : e.Every (Commentable conditional)) (hc : conditional) :
    e.Every HoldsContinued := by
  induction h with
  | mk here _ ih => exact .mk (here.content hc) ih

end Element

namespace Phrase

open Grammar Element Style

/-- What a text is read as can be commented. -/
theorem IsDocument.commentable {plus : Bool} {text : String} {d : Document}
    (h : IsDocument plus text d) :
    (d.outline (settingOf plus text)).element.Every
      (Commentable (.enter .condition ∈ (d.outline (settingOf plus text)).events)) := by
  have hmarks : ∀ o : Outline, o.element.NamesPasses := fun o passes hpasses => by
    rw [attr?_outline] at hpasses
    cases hpasses
  refine Outline.every_element_of_events _ (fun k children hk => ?_) fun item hitem => ?_
  · refine ⟨hmarks (.within k []), fun hname => ?_, fun _ hname => absurd hname ?_⟩
    · cases k with
      | condition => exact hk
      | _ => simp [Container.tag, Tag.name] at hname
    · cases k <;> simp [Container.tag, Tag.name]
  · refine ⟨hmarks (.leaf item), fun hname => ?_, fun hwhere hname content hcontent => ?_⟩
    · cases item with
      | atom kind value => cases kind <;> simp [Leaf.element, Leaf.name, AtomKind.name] at hname
      | order name descending => cases descending <;> simp [Leaf.element, Leaf.name] at hname
      | _ => simp [Leaf.element, Leaf.name] at hname
    · cases item with
      | content text =>
          obtain rfl := Option.some.inj hcontent
          obtain ⟨_, _, hstatement⟩ := Document.exists_insertion hitem hwhere
          exact h.continued hstatement
      | _ => cases hcontent

/-! ## Rendered texts -/

namespace Document

variable {d : Document} {c : Setting} {tree : Element} {conditional : Prop} {s : Style}

/-- Behind the same header, rules and a last part are scanned the same. -/
theorem parts_alike (hs : s.Knows (d.settled c).scope) {front : String}
    (hfront : SealedAlike front front) {parts : List Element}
    (hparts : ∀ e ∈ parts, Part (d.settled c).scope e)
    (hrules : ∀ e ∈ parts.dropLast, e.name = "rule")
    (hevery : ∀ e ∈ parts, e.Every (Commentable conditional)) :
    Agree ScannedAlike (parts.mapM s.part >>= fun lines => .ok (front ++ String.join lines))
      (parts.mapM s.bare.part >>= fun lines => .ok (front ++ String.join lines)) := by
  cases parts using List.reverseRecOn with
  | nil => exact scannedAlike_refl _
  | append_singleton rules last =>
      rw [List.dropLast_concat] at hrules
      obtain ⟨hrule, hlast⟩ := List.forall_mem_append.mp hparts
      obtain ⟨hmarks, hmark⟩ := List.forall_mem_append.mp hevery
      have hlines : Agree (List.Forall₂ SealedAlike) (rules.mapM s.part) (rules.mapM s.bare.part) :=
        Agree.mapM (List.forall₂_same.mpr fun e he =>
          (hrule e he).rule_alike (hrules e he) hs (hmarks e he).marks)
      have hend : Agree ScannedAlike (s.part last) (s.bare.part last) := by
        have hevery := hmark last List.mem_cons_self
        refine (hlast last List.mem_cons_self).alike hs hevery.marks ?_
        rintro ⟨w, hw, hname⟩
        exact hevery.continued ((every_iff.mp ((every_iff.mp hevery).2 w hw)).1.condition hname)
      have hsplit : ∀ s : Style, (rules ++ [last]).mapM s.part >>=
          (fun lines => .ok (front ++ String.join lines)) =
            (rules.mapM s.part >>= fun lines => s.part last >>= fun line =>
              .ok (front ++ String.join lines ++ line)) := by
        intro s
        rw [List.mapM_append, List.mapM_cons, List.mapM_nil]
        simp only [bind_assoc, pure_bind]
        refine bind_congr fun lines => bind_congr fun line => congrArg Except.ok ?_
        simp [String.join_append, String.append_assoc]
      rw [hsplit, hsplit]
      refine hlines.bind fun lines lines' hjoined => hend.map fun line line' hline => ?_
      exact (hfront.append (SealedAlike.join hjoined)).scanned hline

/-- A text behind passes is scanned the same with comments and without. -/
theorem Passed.alike (h : d.Passed c tree) (hfits : d.Fits c) (hfresh : Fresh c)
    (hproper : ∀ t ∈ d.tokens, t.Proper)
    (hiris : ∀ b ∈ d.prefixes c, ∀ ch ∈ b.iri.toList, Lexeme.isIriPart ch = true)
    (hevery : tree.Every (Commentable conditional)) (dialect : Dialect) :
    Agree ScannedAlike (render dialect true tree) (render dialect false tree) := by
  obtain ⟨parts, hparts, hrules, rfl⟩ := h
  have hnames := fun e he => (hparts e he).name_ne
  rw [render_parts, render_parts]
  refine Agree.bind_of_ok (Agree.refl (R := Eq) (fun _ => rfl) _) ?_
  rintro front _ hheader rfl
  obtain ⟨lead, rfl, hlead⟩ := ((front_gives hproper hnames).holds hheader).2
  have hbindings : Preamble (d.bindingLines dialect c) := by
    refine preamble_join fun line hline => ?_
    obtain ⟨b, hb, rfl⟩ := List.mem_map.mp hline
    exact preamble_bindingLine hfits hfresh hproper hb (hiris b hb)
  obtain ⟨ts, hsealed, -⟩ := hbindings
  have hbelow : ∀ e ∈ parts, e.Every (Commentable conditional) := fun e he =>
    (every_iff.mp hevery).2 e (List.mem_append_right _ (List.mem_append_right _ he))
  exact parts_alike (s := ⟨dialect, true, (d.style dialect c).kinds⟩) (style_suits dialect c d).kinds
    (hlead.append hsealed).alike hparts hrules hbelow

end Document

end Phrase

/-! ## Parsed texts -/

open Grammar

/-- A text that is parsed is parsed the same if it is scanned the same. -/
theorem parse_eq_of_alike {text text' : String} {plus : Bool}
    (hscan : (scan text).Alike (scan text')) (h : (parse text plus).fault = none) :
    parse text' plus = parse text plus := by
  obtain ⟨d, htokens, hfault, hevents, hfits⟩ := parse_document h
  have htokens' : (scan text').tokens.map (·.token) = (scan text).tokens.map (·.token) :=
    hscan.1.symm
  have hfault' : (scan text').fault = none := by
    have hnone := hscan.2
    rw [hfault] at hnone
    exact Option.map_eq_none_iff.mp hnone.symm
  have hsetting : (initial (scan text') plus).setting = (initial (scan text) plus).setting :=
    congrArg (fun ts => (⟨definedRules ts, plus, [], 0⟩ : Setting)) htokens'
  rw [parse_of_document (htokens'.trans htokens) hfault' (hsetting ▸ hfits),
    parse_of_document htokens hfault hfits, hsetting]

theorem parse_alike {text text' : String} (hscan : (scan text).Alike (scan text')) (plus : Bool) :
    (parse text plus).fault.isSome ∧ (parse text' plus).fault.isSome ∨
      (parse text plus).fault = none ∧ (parse text' plus).fault = none ∧
        (parse text plus).events = (parse text' plus).events := by
  cases h : (parse text plus).fault with
  | none =>
      have heq := parse_eq_of_alike hscan h
      exact .inr ⟨rfl, heq ▸ h, by rw [heq]⟩
  | some fault =>
      cases h' : (parse text' plus).fault with
      | none =>
          have heq := parse_eq_of_alike (⟨hscan.1.symm, hscan.2.symm⟩ : Scan.Alike _ _) h'
          rw [heq, h'] at h
          cases h
      | some fault' => exact .inl ⟨rfl, rfl⟩

/--
A text that can be rendered behind some passes, with comments or without, can be rendered
both ways. What is written with comments has the same tokens as what is written without,
with the same mistake at its end if there is one, and either neither of the two is parsed
or both are parsed as the same events.
-/
theorem render_comments {text : String} {plus : Bool} (hparses : (parse text plus).fault = none)
    (hiris : ∀ iri ∈ boundIris (parse text plus).events, ∀ ch ∈ iri.toList,
      Lexeme.isIriPart ch = true) :
    ∃ tree, Element.ofText plus text = .ok tree ∧ ∀ passes dialect hints written,
      render dialect hints (optimize passes tree) = .ok written →
        ∃ commented bare, render dialect true (optimize passes tree) = .ok commented ∧
          render dialect false (optimize passes tree) = .ok bare ∧
          (scan commented).tokens.map (·.token) = (scan bare).tokens.map (·.token) ∧
          (scan commented).fault.map Prod.fst = (scan bare).fault.map Prod.fst ∧
          ∀ plus', (parse commented plus').fault.isSome ∧ (parse bare plus').fault.isSome ∨
            (parse commented plus').fault = none ∧ (parse bare plus').fault = none ∧
              (parse commented plus').events = (parse bare plus').events := by
  obtain ⟨d, hd⟩ := exists_document hparses
  have hfresh := fresh_settingOf plus text
  rw [hd.events] at hiris
  refine ⟨_, hd.tree, fun passes dialect hints written hwritten => ?_⟩
  have hpassed := (Document.passed_outline hd.fits hfresh hd.proper).optimize passes
  have hevery := hd.commentable.optimize Element.keptByPasses_commentable passes
  generalize optimize passes (d.outline (settingOf plus text)).element = tree at *
  have hprefixes : ∀ b ∈ d.prefixes (settingOf plus text), ∀ ch ∈ b.iri.toList,
      Lexeme.isIriPart ch = true := fun b hb => hiris b.iri
    (List.mem_filterMap.mpr ⟨_, (Document.binding_mem_iff hd.fits hfresh).mpr hb, rfl⟩)
  have hagree := hpassed.alike hd.fits hfresh hd.proper hprefixes hevery dialect
  obtain ⟨commented, hcommented⟩ : ∃ commented, render dialect true tree = .ok commented := by
    cases hints with
    | true => exact ⟨written, hwritten⟩
    | false => exact hagree.isOk_iff.mpr ⟨written, hwritten⟩
  obtain ⟨bare, hbare⟩ := hagree.isOk_iff.mp ⟨commented, hcommented⟩
  rw [hcommented, hbare] at hagree
  have hscan : (scan commented).Alike (scan bare) := hagree .start .start
  exact ⟨commented, bare, hcommented, hbare, hscan.1, hscan.2, parse_alike hscan⟩

/-- A rule that repeats a clause, and content with `from` in it in front of a condition in another order. -/
def repeatedInsertion : String :=
  "import \"\" as m r($x) :- p($x), p($x). insert \"from\" . from not(p($x)), r($x)"

theorem render_comments_insertion :
    ∃ tree commented bare, Element.ofText false repeatedInsertion = .ok tree ∧
      render .plus true (optimize Pass.standard tree) = .ok commented ∧
      render .plus false (optimize Pass.standard tree) = .ok bare ∧ commented ≠ bare ∧
      (scan commented).tokens.map (·.token) = (scan bare).tokens.map (·.token) ∧
      (scan commented).fault.map Prod.fst = (scan bare).fault.map Prod.fst ∧
      ∀ plus', (parse commented plus').fault.isSome ∧ (parse bare plus').fault.isSome ∨
        (parse commented plus').fault = none ∧ (parse bare plus').fault = none ∧
          (parse commented plus').events = (parse bare plus').events := by
  obtain ⟨hparses, hiris, hdiffers⟩ : (parse repeatedInsertion false).fault = none ∧
      (boundIris (parse repeatedInsertion false).events).all (·.toList.all Lexeme.isIriPart) =
        true ∧
      ((Element.ofText false repeatedInsertion).toOption.bind fun tree =>
        (render .plus true (optimize Pass.standard tree)).toOption.bind fun commented =>
          (render .plus false (optimize Pass.standard tree)).toOption.map fun bare =>
            decide (commented = bare)) = some false := by decide +kernel
  obtain ⟨tree, htree, hall⟩ := render_comments hparses
    (by simpa only [List.all_eq_true] using hiris)
  cases hwritten : render .plus true (optimize Pass.standard tree) with
  | error fault =>
      rw [htree, Except.toOption, Option.bind_some, hwritten] at hdiffers
      cases hdiffers
  | ok written =>
      obtain ⟨commented, bare, hcommented, hbare, hscan⟩ := hall _ _ _ _ hwritten
      refine ⟨tree, commented, bare, htree, hcommented, hbare, ?_, hscan⟩
      rintro rfl
      rw [htree, Except.toOption, Option.bind_some, hcommented, Except.toOption, Option.bind_some,
        hbare] at hdiffers
      simp [Except.toOption] at hdiffers

end TopicQuery
