import TopicQuery.Proofs.RoundTrip
import TopicQuery.Proofs.Unconditional.Ending

/-!
Round trips of statements without a condition. What such a statement changes is
written in front of a word that is taken off again, and with it goes whatever
looks like that word at the end of an identifier, a name or topic map content. What is
written is scanned as its canonical form unless the statement loses its end, and then it is
not scanned as any statement that is reported as the same.
-/

namespace TopicQuery.Phrase

open Grammar Style

variable {s : Style} {c : Scope} {x : Change}

/-- Topic map content is what stands behind `insert` up to the end of the text. -/
def Change.Inserts (x : Change) : Prop :=
  ∀ content, x = .insert content → Fragment.Whole content.toList

/-! ## Topic map content -/

/-- What is written for topic map content. -/
theorem statement_insert (hs : s.Suits c) (content : String) :
    s.statement (statementElement c (.change (.insert content) none)) =
      .ok (String.ofList (withoutFinalFrom ("insert ".toList ++ content.toList)) ++ "\n") := by
  have hhead : s.head (statementElement c (.change (.insert content) none)) =
      .ok ("insert " ++ content) := by
    have hname : (statementElement c (.change (.insert content) none)).name = "insert" := rfl
    have hwhere : (statementElement c (.change (.insert content) none)).child? "where" = none := rfl
    rw [Style.head, hname]
    simp only [content_insert, hwhere]
    rfl
  rw [statement_unconditional hs, hhead, ok_bind, String.toList_append]

theorem insert_trimmed (content : String) :
    ∃ kept, withoutFinalFrom ("insert ".toList ++ content.toList) = "insert ".toList ++ kept ∧
      kept <+: content.toList ∧ (kept = content.toList ↔ ¬finalFrom <:+ content.toList) :=
  withoutFinalFrom_lead (stops_of_end "inser".toList (by decide : 't' ≠ 'm')) content.toList

/-! ## Statements that keep their end -/

/-- A statement that keeps its end is written in canonical form. -/
theorem unconditional_finishes (hs : s.Suits c) (hrefers : x.Refers c)
    (hproper : ∀ u ∈ x.tokens, u.Proper) (hinserts : x.Inserts) (hends : ¬x.LosesEnd c) :
    Gives (s.statement (statementElement c (.change x none))) (s.Allows (x.canonical c).IsPlain)
      fun text => Scan.Finishes (x.canonical c).tokens text.toList := by
  by_cases hlists : x.Lists
  · refine (unconditional_gives hs hlists hrefers hproper).imp ?_
    rintro text ⟨init, final, lead, last, h, rfl⟩
    refine h.finishes hlists fun hfrom => hends (.inl ?_)
    obtain ⟨t, rfl, -, hleaf⟩ := endsWithFrom_item hs h.item hfrom
    exact ⟨init, t, h.targets, hleaf⟩
  · obtain ⟨content, rfl⟩ : ∃ content, x = .insert content := by
      simpa [Change.Lists] using hlists
    obtain ⟨kept, htrimmed, -, hiff⟩ := insert_trimmed content
    obtain rfl := hiff.mpr fun hfrom => hends (.inr ⟨content, rfl, .inl hfrom⟩)
    have hwhole := hinserts content rfl
    have hsplit : (Fragment.split (content.toList ++ ['\n'])).1 = content.toList.length :=
      hwhole.ends.elim (fun hall => Fragment.split_newline_of_not hall fun hbefore =>
        hends (.inr ⟨content, rfl, .inr hbefore⟩)) id
    rw [statement_insert hs, htrimmed]
    refine (gives_ok ?_).of_iff allows_true.symm
    simpa [String.ofList_toList, Change.canonical, Change.tokens] using
      Scan.finishes_insert hwhole.begins hsplit

/-! ## Statements that lose their end -/

/-- The text is not scanned as a statement that is reported as the change. -/
def Misread (c : Scope) (x : Change) (text : String) : Prop :=
  ∀ (c' : Scope) (x' : Change) (question : Bool) (front : List Token) (place : Text.Position),
    x'.container = x.container → x'.outlines c' = x.outlines c →
      ¬x'.tokens ++ Document.questionTokens question <:+
        front ++ (Scan.ofText .query place text.toList).plain

theorem suffix_of_not_mem {α : Type} {u : α} {xs ys zs : List α} (h : ys <:+ xs ++ u :: zs)
    (hu : u ∉ ys) : ys <:+ zs := by
  obtain hys | hys := List.suffix_or_suffix_of_suffix h (List.suffix_append xs (u :: zs))
  · obtain rfl | hys := List.suffix_cons_iff.mp hys
    · exact absurd List.mem_cons_self hu
    · exact hys
  · exact absurd (hys.subset List.mem_cons_self) hu

theorem span_le_of_suffix {ts us : List Token} (h : ts <:+ us) : span ts ≤ span us := by
  obtain ⟨front, rfl⟩ := h
  simp

/-- In front of the last item of a list stands the word of the statement or a comma. -/
theorem leading_concat (k : Keyword) {α : Type} (tokens : α → List Token) (xs : List α) :
    ∃ front u, Token.keyword k :: leading tokens xs = front ++ [u] ∧
      (u = Token.keyword k ∨ u = Token.symbol .comma) := by
  obtain rfl | ⟨xs, x, rfl⟩ := List.eq_nil_or_concat xs
  · exact ⟨[], .keyword k, rfl, .inl rfl⟩
  · exact ⟨.keyword k :: (leading tokens xs ++ tokens x), .symbol .comma, by simp [leading],
      .inr rfl⟩

theorem not_mem_term (t : Term) (question : Bool) {k : Keyword} {u : Token}
    (hu : u = .keyword k ∨ u = .symbol .comma) :
    u ∉ t.tokens ++ Document.questionTokens question := by
  have hmarker : ∀ m : Option Marker, u ∉ Marker.tokens m := by
    intro m
    rcases m with _ | _ | _ <;> rcases hu with rfl | rfl <;> simp [Marker.tokens, Marker.symbol]
  have hquestion : u ∉ Document.questionTokens question := by
    cases question <;> rcases hu with rfl | rfl <;> simp [Document.questionTokens]
  have hterm : u ∉ t.tokens := by
    cases t with
    | literal value datatype =>
        cases datatype <;> rcases hu with rfl | rfl <;> simp [Term.tokens, datatypeToken]
    | iri m value => cases m <;> rcases hu with rfl | rfl <;> simp [Term.tokens, Marker.symbol]
    | atom kind value => rcases hu with rfl | rfl <;> simp [Term.tokens]
    | qname m name => rcases hu with rfl | rfl <;> simpa [Term.tokens] using hmarker m
    | curie m name => rcases hu with rfl | rfl <;> simpa [Term.tokens] using hmarker m
  exact fun hmem => (List.mem_append.mp hmem).elim hterm hquestion

theorem ListedAs.misread {init : List Target} {t : Term} {lead last : String}
    (h : ListedAs s c x init (.term t) lead last) (hleaf : (t.leaf c).EndsWithFrom) :
    Misread c x
      (String.ofList (withoutFinalFrom (lead ++ last ++ " from ").toList) ++ "\n") := by
  intro c' x' question front place hcontainer houtlines hsuffix
  have hterm : s.term (t.leaf c).element = .ok last := by
    have hitem : Phrase.item s (t.leaf c).element = .ok last := h.item
    rwa [Phrase.item, if_neg (by simp [isClause_term])] at hitem
  obtain ⟨kept, hkept, hlength⟩ := h.loses ((endsWithFrom_term hterm).mpr hleaf)
  -- the last term of the other statement is reported as the same leaf
  obtain ⟨init', t', htargets, ht'⟩ : ∃ init' t', x'.targets = init' ++ [Target.term t'] ∧
      t'.leaf c' = t.leaf c := by
    have hlast := (Change.getLast?_events_iff (c := c) []).mpr ⟨init, t, h.targets, rfl⟩
    rw [← hcontainer, ← houtlines] at hlast
    exact (Change.getLast?_events_iff []).mp hlast
  have hlists : x'.Lists := by
    rintro content rfl
    simp [Change.targets] at htargets
  have htokens : x'.tokens =
      .keyword x'.word :: leading Category.target.tokens init' ++ t'.tokens := by
    rw [Change.tokens_targets hlists, htargets, listed_concat]
    rfl
  -- its tokens stand behind the comma or the word in front of what is left of the last term
  obtain ⟨front', u, hfront', hu⟩ :=
    leading_concat x.word Category.target.tokens (init.map (Target.canonical c))
  obtain ⟨place', hplain⟩ := plain_of_sealed h.lead (kept ++ ['\n']) place
  have htext : (String.ofList (withoutFinalFrom (lead ++ last ++ " from ").toList) ++ "\n").toList =
      lead.toList ++ (kept ++ ['\n']) := by
    rw [hkept, String.toList_append, String.toList_ofList, List.append_assoc]
    rfl
  have hbehind : t'.tokens ++ Document.questionTokens question <:+
      (front ++ front') ++ u :: (Scan.ofText .query place' (kept ++ ['\n'])).plain := by
    rw [htext, hplain, hfront', htokens, List.append_assoc] at hsuffix
    have hlast := (List.suffix_append _ _).trans hsuffix
    simpa using hlast
  have hspan := (span_le_of_suffix (suffix_of_not_mem hbehind (not_mem_term t' question hu))).trans
    (Scan.span_ofText .query place' (kept ++ ['\n']))
  have hwritten := length_le_span hterm hleaf ht'
  simp only [span_append, List.length_append, List.length_singleton] at hspan
  omega

theorem eq_insert {c' : Scope} {x' : Change} {content : String} (hcontainer : x'.container = .insert)
    (houtlines : x'.outlines c' = [Change.contentOutline content]) : x' = .insert content := by
  cases x' with
  | insert content' =>
      have hinner := (Outline.within.inj (List.cons.inj houtlines).1).2
      have hleaf := (List.append_inj' hinner rfl).2
      simp only [List.cons.injEq, and_true, Outline.leaf.injEq, Leaf.content.injEq] at hleaf
      rw [hleaf]
  | _ => cases hcontainer

/-- The content that a text with less behind `insert` is scanned as. -/
theorem fragment_eq_of_suffix {content found : String} {question : Bool} {front rest : List Token}
    (h : [Token.keyword .insert, Token.fragment content] ++ Document.questionTokens question <:+
      front ++ .keyword .insert :: .fragment found :: rest)
    (hspan : span rest < content.toList.length + 6) : found = content := by
  have hrest : .fragment found :: rest <:+ front ++ .keyword .insert :: .fragment found :: rest :=
    ⟨front ++ [Token.keyword .insert], by simp⟩
  obtain hless | hmore := List.suffix_or_suffix_of_suffix h hrest
  · obtain heq | hless := List.suffix_cons_iff.mp hless
    · cases (List.cons.inj heq).1
    · have hle := span_le_of_suffix hless
      have hword : (Token.keyword .insert).written.length = 6 := rfl
      have hcontent : (Token.fragment content).written.length = content.toList.length := rfl
      simp only [List.cons_append, span_cons, hword, hcontent] at hle
      omega
  · obtain heq | hmore := List.suffix_cons_iff.mp hmore
    · cases (List.cons.inj heq).1
    obtain heq | hmore := List.suffix_cons_iff.mp hmore
    · exact Token.fragment.inj (List.cons.inj heq).1
    · have hmem := hmore.subset List.mem_cons_self
      cases question <;> simp [Document.questionTokens] at hmem

/-- Inserted content that loses its end is not scanned as any that is reported as the same. -/
theorem insert_misread {content : String} (hwhole : Fragment.Whole content.toList)
    (hends : finalFrom <:+ content.toList ∨ Fragment.EndsBeforeClauses content.toList) :
    Misread c (.insert content)
      (String.ofList (withoutFinalFrom ("insert ".toList ++ content.toList)) ++ "\n") := by
  intro c' x' question front place hcontainer houtlines hsuffix
  obtain rfl := eq_insert hcontainer houtlines
  obtain ⟨kept, htrimmed, hprefix, hiff⟩ := insert_trimmed content
  have hbegins : ∀ c ∈ kept.head?, Text.isBlank c = false := by
    intro c hc
    refine hwhole.begins c ?_
    obtain ⟨rest, hrest⟩ := hprefix
    rw [← hrest, List.head?_append, hc]
    rfl
  obtain ⟨rest, hplain⟩ := Scan.fragment_insert hbegins place
  have htext : (String.ofList (withoutFinalFrom ("insert ".toList ++ content.toList)) ++
      "\n").toList = "insert ".toList ++ (kept ++ ['\n']) := by
    rw [htrimmed, String.toList_append, String.toList_ofList, List.append_assoc]
    rfl
  have hlength := hprefix.length_le
  have hspan := Scan.span_ofText .query place ("insert ".toList ++ (kept ++ ['\n']))
  have hword : (Token.keyword .insert).written.length = 6 := rfl
  have hlead : "insert ".toList.length = 7 := rfl
  rw [hplain] at hspan
  simp only [span_cons, hword, hlead, List.length_append, List.length_singleton] at hspan
  rw [htext, hplain] at hsuffix
  have hfound := fragment_eq_of_suffix hsuffix (by omega)
  -- what is found is all of the content only if nothing was trimmed and nothing is split off
  have htake : kept.take (Fragment.split (kept ++ ['\n'])).1 = content.toList := by
    rw [← hfound, String.toList_ofList]
  have hkept : kept = content.toList := by
    refine hprefix.eq_of_length (Nat.le_antisymm hlength ?_)
    rw [← htake]
    exact List.length_take_le' _ _
  obtain hfrom | hbefore := hends
  · exact hiff.mp hkept hfrom
  · have hshorter := Fragment.split_newline_lt hbefore
    rw [hkept] at htake
    have := congrArg List.length htake
    simp only [List.length_take] at this
    omega

/-- A statement that loses its end is not scanned as any that is reported as the same. -/
theorem unconditional_misread (hs : s.Suits c) (hrefers : x.Refers c)
    (hproper : ∀ u ∈ x.tokens, u.Proper) (hinserts : x.Inserts) (hends : x.LosesEnd c) :
    Gives (s.statement (statementElement c (.change x none))) (s.Allows (x.canonical c).IsPlain)
      (Misread c x) := by
  by_cases hlists : x.Lists
  · obtain ⟨init', t, htargets, hleaf⟩ := hends.resolve_right (by
      rintro ⟨content, rfl, -⟩
      exact hlists content rfl)
    refine (unconditional_gives hs hlists hrefers hproper).imp ?_
    rintro text ⟨init, final, lead, last, h, rfl⟩
    obtain ⟨rfl, hfinal⟩ := List.append_inj' (htargets.symm.trans h.targets) rfl
    obtain rfl : Target.term t = final := by simpa using hfinal
    exact h.misread hleaf
  · obtain ⟨content, rfl⟩ : ∃ content, x = .insert content := by
      simpa [Change.Lists] using hlists
    rw [statement_insert hs]
    refine (gives_ok (insert_misread (hinserts content rfl) ?_)).of_iff allows_true.symm
    obtain ⟨init, t, htargets, -⟩ | ⟨content', heq, hlost⟩ := hends
    · simp [Change.targets] at htargets
    · cases heq
      exact hlost

end TopicQuery.Phrase

namespace TopicQuery

open Phrase

namespace Phrase.IsDocument

variable {plus plus' : Bool} {text written : String} {d d' : Document} {x : Change}
  {dialect : Dialect}

/-- Topic map content is what stands behind `insert` up to the end of the text. -/
theorem inserts (h : IsDocument plus text d) (hx : d.statement = some (.change x none)) :
    x.Inserts := by
  rintro content rfl
  have hpost : Document.questionTokens d.question = [] ∨
      Document.questionTokens d.question = [.symbol .question] := by
    cases d.question <;> simp [Document.questionTokens]
  have hplain : (Scan.ofText .query .start text.toList).plain =
      (d.directives.flatMap Directive.tokens ++ d.rules.flatMap Category.rule.tokens) ++
        .keyword .insert :: .fragment content :: Document.questionTokens d.question := by
    refine h.tokens.trans ?_
    rw [Document.tokens, hx]
    simp [Category.statement, Category.optionalCondition, Change.tokens]
  exact Scan.whole_of_insert hplain hpost

/-- Two texts with the same events change the same. -/
theorem outlines_eq (h : IsDocument plus text d) (h' : IsDocument plus' written d')
    (hevents : (parse written plus').events = (parse text plus).events)
    (hx : d.statement = some (.change x none)) {x' : Change}
    (hx' : d'.statement = some (.change x' none)) :
    x'.container = x.container ∧ x'.outlines (d'.settled (settingOf plus' written)).scope =
      x.outlines (d.settled (settingOf plus text)).scope := by
  rw [h.events, h'.events] at hevents
  have hinner := (Outline.within.inj (Outline.events_injective hevents)).2
  rw [hx, hx'] at hinner
  simp only [Option.toList_some, List.flatMap_singleton, Category.statement,
    Category.optionalCondition, Option.map_none, Option.getD_none, List.append_nil,
    ← List.append_assoc] at hinner
  have hlast := (List.append_inj' hinner rfl).2
  simpa using hlast

/-! ## Rendered texts without a condition -/

variable (h : IsDocument plus text d) (hx : d.statement = some (.change x none))
  (hwritten : d.Written dialect (settingOf plus text))
  (hrender : render dialect false (d.outline (settingOf plus text)).element = .ok written)

include hx hwritten in
theorem proper_change : ∀ u ∈ x.tokens, u.Proper := fun u hu =>
  hwritten.statement hx u (List.mem_append_left _ hu)

theorem isPlain_change (c : Scope) :
    Category.statement.IsPlain ((Statement.change x none).canonical c) ↔ (x.canonical c).IsPlain := by
  simp [Category.statement, Category.optionalCondition, Statement.canonical, canonicalCondition]

include h hx hwritten hrender

/-- A text that keeps its end is rendered as its canonical form. -/
theorem roundTrips_iff_of_keeps (hends : ¬x.LosesEnd (d.settled (settingOf plus text)).scope)
    (plus' : Bool) :
    RoundTrips dialect plus plus' text ↔ ¬RepeatsMark (parse text plus).events := by
  set c := settingOf plus text with hc
  have hstatement : ∀ y ∈ d.statement,
      Gives ((d.style dialect c).statement (statementElement (d.settled c).scope y))
        ((d.style dialect c).Allows (Category.statement.IsPlain (y.canonical (d.settled c).scope)))
        fun text => Scan.Finishes (Category.statement.tokens (y.canonical (d.settled c).scope) ++
          Document.questionTokens y.asks) text.toList := by
    intro y hy
    obtain rfl := Option.some.inj (hx.symm.trans hy)
    refine ((unconditional_finishes (Document.style_suits dialect c d) (h.fits.statement _ hx).1
      (proper_change hx hwritten) (h.inserts hx) hends).of_iff ?_).imp ?_
    · rw [isPlain_change]
    · intro text htext
      simpa [Category.statement, Category.optionalCondition, Statement.canonical,
        canonicalCondition, Statement.asks, Document.questionTokens] using htext
  obtain ⟨⟨-, hexpressible⟩, hscan⟩ := (Document.render_finishes h.fits
    (fresh_settingOf plus text) hwritten hstatement).holds hrender
  exact roundTrips_iff_of_finishes h hexpressible (toText_of_render.mpr hrender) hscan plus'

/-- A text that loses its end is not parsed as it was. -/
theorem not_roundTrips_of_loses (hends : x.LosesEnd (d.settled (settingOf plus text)).scope)
    (hparses : (parse text plus).fault = none) (hchanges : ChangesAll (parse text plus).events)
    (plus' : Bool) : ¬RoundTrips dialect plus plus' text := by
  set c := settingOf plus text with hc
  have hstatement : ∀ y ∈ d.statement,
      Gives ((d.style dialect c).statement (statementElement (d.settled c).scope y))
        ((d.style dialect c).Allows (Category.statement.IsPlain (y.canonical (d.settled c).scope)))
        (Misread (d.settled c).scope x) := by
    intro y hy
    obtain rfl := Option.some.inj (hx.symm.trans hy)
    rw [isPlain_change]
    exact unconditional_misread (Document.style_suits dialect c d) (h.fits.statement _ hx).1
      (proper_change hx hwritten) (h.inserts hx) hends
  obtain ⟨-, head, tail, rfl, hhead, -, hmisread⟩ := (Document.render_gives h.fits
    (fresh_settingOf plus text) hwritten hstatement).holds hrender
  rintro ⟨tree, written', htree, hwritten', hparse⟩
  obtain rfl := Except.ok.inj (h.tree.symm.trans htree)
  obtain rfl := Except.ok.inj ((toText_of_render.mpr hrender).symm.trans hwritten')
  -- what was written is a text with a statement that is reported as the same
  obtain ⟨d', h'⟩ := @exists_document (head ++ tail) plus' (by rw [hparse, hparses])
  have hevents := congrArg Parsed.events hparse
  obtain ⟨x', hx'⟩ := Document.exists_change (h'.events ▸ hevents ▸ hchanges)
  obtain ⟨hcontainer, houtlines⟩ := h.outlines_eq h' hevents hx hx'
  obtain ⟨place, hplain⟩ := plain_of_sealed hhead tail.toList .start
  refine hmisread _ hx _ x' d'.question (d.headTokens dialect c) place hcontainer houtlines ?_
  have hscan : (Scan.ofText .query .start (head ++ tail).toList).plain = d'.tokens := h'.tokens
  rw [← hplain, ← String.toList_append, hscan, Document.tokens, hx']
  refine ⟨d'.directives.flatMap Directive.tokens ++ d'.rules.flatMap Category.rule.tokens, ?_⟩
  simp [Category.statement, Category.optionalCondition]

end Phrase.IsDocument

/--
A text that changes something without saying where is rendered as what is parsed as
the text was exactly if no mark repeats what its prefix says and the last thing that
is changed does not lose its end.
-/
theorem unconditional_roundTrips_iff {dialect : Dialect} {plus : Bool} {text : String}
    (plus' : Bool) (hparses : (parse text plus).fault = none)
    (hchanges : ChangesAll (parse text plus).events)
    (hiris : dialect = .plus → ∀ iri ∈ boundIris (parse text plus).events, IsBracketable iri)
    (hwrites : ∃ tree written, Element.ofText plus text = .ok tree ∧
      tree.toText dialect false = .ok written) :
    RoundTrips dialect plus plus' text ↔
      ¬RepeatsMark (parse text plus).events ∧ ¬LosesEnd (parse text plus).events := by
  obtain ⟨d, h⟩ := exists_document hparses
  obtain ⟨x, hx⟩ := Document.exists_change (h.events ▸ hchanges)
  have hfresh := fresh_settingOf plus text
  have hwritten : d.Written dialect (settingOf plus text) := by
    refine Document.written h.fits hfresh h.proper fun hdialect => ?_
    rw [h.events] at hiris
    exact Document.bracketable_prefixes h.fits hfresh (hiris hdialect)
  obtain ⟨written, hrender⟩ : ∃ written,
      render dialect false (d.outline (settingOf plus text)).element = .ok written := by
    obtain ⟨tree, written, htree, htext⟩ := hwrites
    obtain rfl := Except.ok.inj (h.tree.symm.trans htree)
    exact ⟨written, toText_of_render.mp htext⟩
  have hlost : LosesEnd (parse text plus).events ↔
      x.LosesEnd (d.settled (settingOf plus text)).scope := by
    rw [h.events, Document.losesEnd_iff hx]
  rw [hlost]
  by_cases hends : x.LosesEnd (d.settled (settingOf plus text)).scope
  · refine iff_of_false (h.not_roundTrips_of_loses hx hwritten hrender hends hparses hchanges plus')
      fun hall => hall.2 hends
  · rw [h.roundTrips_iff_of_keeps hx hwritten hrender hends plus', and_iff_left hends]

theorem unconditional_roundTrips_iff_content :
    RoundTrips .plus false true "r($a) :- p($a). insert x-from - $a : from-y" ↔
      ¬RepeatsMark (parse "r($a) :- p($a). insert x-from - $a : from-y" false).events ∧
        ¬LosesEnd (parse "r($a) :- p($a). insert x-from - $a : from-y" false).events := by
  suffices h : _ ∧ _ ∧ _ ∧ _ from
    unconditional_roundTrips_iff true h.1 h.2.1 (fun _ => h.2.2.1) (exists_written h.2.2.2)
  decide +kernel

/-- A deleted variable whose name ends with `from` does not round trip. -/
theorem not_roundTrips_deletion :
    (parse "delete $xfrom" false).fault = none ∧ ChangesAll (parse "delete $xfrom" false).events ∧
      (∃ tree written, Element.ofText false "delete $xfrom" = .ok tree ∧
        tree.toText .legacy false = .ok written) ∧
      ¬RoundTrips .legacy false false "delete $xfrom" := by
  suffices h : _ ∧ _ ∧ _ ∧ _ from
    ⟨h.1, h.2.1, exists_written h.2.2.1, not_roundTrips_of_events h.2.2.2⟩
  decide +kernel

end TopicQuery
