import TopicQuery.Proofs.Coverage.Statement

/-!
What the dialects can write of the trees of texts. Every text is written in tolog+, also
behind passes. Plain tolog can write it unless some element of the tree is one that only
tolog+ has: a base, a comparison, a prefixed name in brackets, a statement about whole topic
maps, or a reference of another kind than its prefix stands for.
-/

namespace TopicQuery

open Grammar Phrase Style

/-! ## Elements that only tolog+ can write -/

namespace Element

/-- The kind that a text says its prefix is of. -/
def prefixKind? (tree : Element) (qualifier : String) : Option String :=
  ((tree.children.filter (·.name == "namespace")).find?
    (·.attr? "identifier" == some qualifier)).bind (·.attr? "kind")

/-- Only tolog+ can write the element of a tree. -/
def NeedsPlus (tree e : Element) : Prop :=
  e.name ∈ plusNames ∨
    e.name = "qname" ∧ e.attr? "kind" ≠ (e.attr? "prefix").bind tree.prefixKind?

theorem plain_iff_not_needsPlus {c : Scope} {tree e : Element}
    (hkinds : ∀ qualifier, tree.prefixKind? qualifier =
      (c.kind? qualifier).map ReferenceKind.text) :
    e.Plain c ↔ ¬tree.NeedsPlus e := by
  have hkind : tree.prefixKind? = fun q => (c.kind? q).map ReferenceKind.text := funext hkinds
  rw [NeedsPlus, Plain, hkind]
  tauto

end Element

namespace Phrase

open Element

variable {s : Style}

/-! ## Passes over texts -/

theorem Part.name_ne {c : Scope} {e : Element} (h : Part c e) :
    e.name ≠ "base" ∧ e.name ≠ "namespace" := by
  cases h with
  | rule _ _ hname hclauses => exact ⟨by simp, by simp⟩
  | conditional hname hfront hrest =>
      have hnames : ∀ n ∈ conditionalNames, n ≠ "base" ∧ n ≠ "namespace" := by decide
      exact hnames _ hname
  | whole hname _ hflat hmakes =>
      have hnames : ∀ n ∈ wholeNames, n ≠ "base" ∧ n ≠ "namespace" := by decide
      exact hnames _ hname

/-- The element belongs to a header. -/
structure IsHeader (e : Element) : Prop where
  name : e.name = "base" ∨ e.name = "namespace"
  children : e.children = []

/-- A change of the children of a text that keeps its header and its parts. -/
structure Keeps (c : Scope) (change : Element → Element) : Prop where
  name : ∀ e, (change e).name = e.name
  header : ∀ {e}, IsHeader e → change e = e
  part : ∀ {e}, Part c e → Part c (change e)

theorem Reworks.keeps {c : Scope} {ι : Type} {rework : ι → Element → Element}
    (hrework : Reworks c rework) (i : ι) : Keeps c (rework i) where
  name e := hrework.name i e
  header {e} he := by
    have hlist : e.isClauseList = false := by
      rw [isClauseList]
      rcases he.name with hname | hname <;> rw [hname] <;> decide
    obtain ⟨name, attributes, text, children⟩ := e
    obtain rfl : children = [] := he.children
    exact hrework.outside i hlist
  part h := h.change hrework i

/-- A pass goes on to the children of a text. -/
theorem apply_children (c : Scope) (pass : Pass) (es : List Element) :
    ∃ change, Keeps c change ∧
      pass.apply ⟨"tolog", [], none, es⟩ = ⟨"tolog", [], none, es.map change⟩ := by
  cases pass with
  | removeDuplicates =>
      have hlists : Reworks c fun _ : Unit =>
          changeLists RemoveDuplicates.name RemoveDuplicates.shorten? :=
        reworks_changeLists RemoveDuplicates.shorten?_subset
      exact ⟨_, hlists.keeps (), changeLists_of_not_list rfl⟩
  | filtersLast =>
      have hlists : Reworks c fun _ : Unit => changeLists FiltersLast.name FiltersLast.reorder? :=
        reworks_changeLists FiltersLast.reorder?_subset
      exact ⟨_, hlists.keeps (), changeLists_of_not_list rfl⟩
  | narrowHints =>
      refine ⟨_, (reworks_narrow (c := c)).keeps [], ?_⟩
      rw [Pass.apply, NarrowHints.apply, NarrowHints.narrowEach_eq_map]
  | internalPredicates =>
      refine ⟨InternalPredicates.replaceScope, ⟨fun e => ?_, fun {e} he => ?_, fun {e} h => ?_⟩, rfl⟩
      · unfold InternalPredicates.replaceScope
        split
        · rfl
        · exact InternalPredicates.name_replaceBelow e
      · rw [InternalPredicates.replaceScope, if_pos (by simpa using he.name)]
      · rw [InternalPredicates.replaceScope, if_neg (by simp [h.name_ne])]
        exact h.change reworks_replace _

namespace Document

variable {d : Document} {c : Setting} {tree : Element}

/-- The tree is one of the text, or what passes have made of it: in front of its last part are rules. -/
def Passed (c : Setting) (d : Document) (tree : Element) : Prop :=
  ∃ parts, (∀ e ∈ parts, Part (d.settled c).scope e) ∧ (∀ e ∈ parts.dropLast, e.name = "rule") ∧
    tree = ⟨"tolog", [], none, d.baseElements ++ (d.bindingElements c ++ parts)⟩

theorem passed_outline (hfits : d.Fits c) (hc : Fresh c) (hproper : ∀ t ∈ d.tokens, t.Proper) :
    d.Passed c (d.outline c).element := by
  have hrules : ∀ e ∈ d.ruleElements c, e.name = "rule" := List.forall_mem_map.mpr fun _ _ => rfl
  refine ⟨_, List.forall_mem_append.mpr ⟨?_, ?_⟩, fun e he => ?_, element_outline hfits hc⟩
  · exact List.forall_mem_map.mpr fun r hr => Rule.part (hfits.rules r hr) (rule_proper hproper hr)
  · refine List.forall_mem_map.mpr fun x hx => ?_
    have hx : x ∈ d.statement := by simpa using hx
    exact Statement.part (hfits.statement x hx) (statement_proper hproper hx)
  · rw [statementElements] at he
    cases hx : d.statement with
    | none =>
        rw [hx, Option.toList_none, List.map_nil, List.append_nil] at he
        exact hrules e (List.mem_of_mem_dropLast he)
    | some x =>
        rw [hx, Option.toList_some, List.map_singleton, List.dropLast_concat] at he
        exact hrules e he

theorem isHeader : ∀ e ∈ d.baseElements ++ d.bindingElements c, IsHeader e := by
  refine List.forall_mem_append.mpr ⟨List.forall_mem_map.mpr fun iri _ => ⟨.inl rfl, rfl⟩,
    List.forall_mem_map.mpr fun b _ => ⟨.inr rfl, rfl⟩⟩

theorem Passed.apply (h : d.Passed c tree) (pass : Pass) : d.Passed c (pass.apply tree) := by
  obtain ⟨parts, hparts, hrules, rfl⟩ := h
  obtain ⟨change, hchange, happly⟩ := apply_children (d.settled c).scope pass
    (d.baseElements ++ (d.bindingElements c ++ parts))
  refine ⟨parts.map change, List.forall_mem_map.mpr fun e he => hchange.part (hparts e he), ?_, ?_⟩
  · rw [← List.map_dropLast]
    exact List.forall_mem_map.mpr fun e he => (hchange.name e).trans (hrules e he)
  · have hheader : (d.baseElements ++ d.bindingElements c).map change =
        d.baseElements ++ d.bindingElements c :=
      (List.map_congr_left fun e he => hchange.header (isHeader e he)).trans (List.map_id _)
    rw [happly, ← List.append_assoc, List.map_append, hheader, List.append_assoc]

/-- Passes keep the header of a text and parts behind it. -/
theorem Passed.optimize (h : d.Passed c tree) (passes : List Pass) :
    d.Passed c (optimize passes tree) := by
  induction passes generalizing tree with
  | nil => exact h
  | cons pass passes ih => exact ih (h.apply pass)

/-! ## Written texts -/

/-- The header of a text needs tolog+ only for the base. -/
theorem allPlain_passed {scope : Scope} {parts : List Element} :
    AllPlain scope ⟨"tolog", [], none, d.baseElements ++ (d.bindingElements c ++ parts)⟩ ↔
      d.base? = none ∧ ∀ e ∈ parts, e.AllPlain scope := by
  have hbase : (∀ e ∈ d.baseElements, e.AllPlain scope) ↔ d.base? = none := by
    have hnot : ∀ iri, ¬(Leaf.base iri).element.AllPlain scope := fun iri =>
      not_allPlain (show "base" ∈ plusNames by decide)
    rw [baseElements, List.forall_mem_map]
    cases d.base? <;> simp [hnot]
  have hbinding : ∀ b, (Outline.leaf (Directive.bindingLeaf b)).element.AllPlain scope := fun b =>
    allPlain_leaf (show "namespace" ∉ "qname" :: plusNames by decide)
  have hbindings : ∀ e ∈ d.bindingElements c, e.AllPlain scope :=
    List.forall_mem_map.mpr fun b _ => hbinding b
  rw [allPlain_iff (show "tolog" ∉ "qname" :: plusNames by decide), List.forall_mem_append,
    List.forall_mem_append, hbase, and_iff_right hbindings]

/-- A text behind passes is written unless its dialect lacks one of its elements. -/
theorem Passed.makes (h : d.Passed c tree) (hproper : ∀ t ∈ d.tokens, t.Proper)
    (dialect : Dialect) (hints : Bool) :
    (⟨dialect, hints, (d.style dialect c).kinds⟩ : Style).Makes (render dialect hints tree)
      (tree.AllPlain (d.settled c).scope) := by
  obtain ⟨parts, hparts, -, rfl⟩ := h
  generalize hs : (⟨dialect, hints, (d.style dialect c).kinds⟩ : Style) = s
  have hknows : s.Knows (d.settled c).scope := by
    rw [← hs]
    exact (style_suits dialect c d).kinds
  have hbehind : s.Makes (parts.mapM s.part) (∀ e ∈ parts, e.AllPlain (d.settled c).scope) :=
    makes_mapM fun e he => (hparts e he).makes hknows
  have hfront : Gives (header dialect ⟨"tolog", [], none, d.baseElements ++ (d.bindingElements c ++
      parts)⟩) (s.Allows (d.base? = none)) fun text => (⟨dialect, hints, text.2⟩ : Style) = s := by
    subst hs
    have hnames := fun e he => (hparts e he).name_ne
    exact (front_gives hproper hnames).imp fun ⟨front, heq, _⟩ => by rw [heq]
  rw [render_parts, allPlain_passed]
  refine (Gives.bind hfront fun text htext => ?_).of_iff allows_and.symm
  rw [htext]
  exact hbehind.map _

/-- The tree of a text says of every prefix which kind it is of. -/
theorem Passed.prefixKind?_eq (h : d.Passed c tree) (hfits : d.Fits c) (hc : Fresh c)
    (qualifier : String) : tree.prefixKind? qualifier =
      ((d.settled c).scope.kind? qualifier).map ReferenceKind.text := by
  obtain ⟨parts, hparts, -, rfl⟩ := h
  have hdistinct := distinct_prefixes hfits hc
  rw [prefixes, List.reverse_reverse] at hdistinct
  have hidentifier : ((fun e : Element => e.attr? "identifier" == some qualifier) ∘
      fun b => (Directive.bindingLeaf b).element) = fun b => b.identifier == qualifier := by
    funext b
    rfl
  rw [prefixKind?, filter_namespace fun e he => (hparts e he).name_ne, bindingElements,
    List.find?_map, hidentifier, prefixes, Directive.find?_reverse hdistinct]
  have hkind : (d.settled c).scope.kind? qualifier =
      ((d.settled c).bindings.find? (·.identifier == qualifier)).map Prefixed.kind := rfl
  rw [hkind]
  cases (d.settled c).bindings.find? (·.identifier == qualifier) <;> rfl

end Document

end Phrase

/--
Every text is written in tolog+, whatever passes come before. It is written in plain tolog
unless an element of its tree is one that only tolog+ can write.
-/
theorem render_covers {text : String} {plus : Bool} (hparses : (parse text plus).fault = none) :
    ∃ tree, Element.ofText plus text = .ok tree ∧ ∀ passes hints,
      (∃ written, render .plus hints (optimize passes tree) = .ok written) ∧
        ((∃ fault, render .legacy hints (optimize passes tree) = .error fault) ↔
          ∃ e ∈ (optimize passes tree).descendants, (optimize passes tree).NeedsPlus e) := by
  obtain ⟨d, hd⟩ := exists_document hparses
  have hfresh := fresh_settingOf plus text
  refine ⟨_, hd.tree, fun passes hints => ?_⟩
  have hpassed := (Document.passed_outline hd.fits hfresh hd.proper).optimize passes
  generalize optimize passes (d.outline (settingOf plus text)).element = tree at hpassed
  refine ⟨(hpassed.makes hd.proper .plus hints).succeeds (.inl rfl), ?_⟩
  have hplain : tree.AllPlain (d.settled (settingOf plus text)).scope ↔
      ∀ e ∈ tree.descendants, ¬tree.NeedsPlus e := by
    have hneeds := fun e => Element.plain_iff_not_needsPlus (e := e)
      (hpassed.prefixKind?_eq hd.fits hfresh)
    rw [Element.AllPlain, Element.every_iff_descendants]
    simp only [hneeds]
  rw [(hpassed.makes hd.proper .legacy hints).fails_iff]
  simp [Style.Allows, hplain]

/-- A name with a mark against its prefix, in a clause that a pass makes an internal predicate. -/
theorem render_covers_marked :
    ∃ tree, Element.ofText true "%prefix o <http://o/> instance-of($a, =o:b)?" = .ok tree ∧
      ∀ passes hints,
        (∃ written, render .plus hints (optimize passes tree) = .ok written) ∧
          ((∃ fault, render .legacy hints (optimize passes tree) = .error fault) ↔
            ∃ e ∈ (optimize passes tree).descendants, (optimize passes tree).NeedsPlus e) :=
  render_covers (by decide +kernel)

end TopicQuery
