import TopicQuery.Proofs.Optimized.Parsed
import TopicQuery.Proofs.Replayed
import TopicQuery.Proofs.Reported
import TopicQuery.Proofs.Xml.Reread

/-!
Trees and event streams as XML. The tree of a text, optimized by any passes, is read back
from its XML form as it was, unless the text inserts empty content: an empty text is not
told apart from none. Replaying does not tell them apart either, so the events that a tree
is built from come back from its XML form, whatever strings they hold.
-/

namespace TopicQuery

open Element

/-! ## Trees of events can be written -/

namespace Xml

theorem isName_tag (tag : Tag) : IsName tag.name := by
  cases tag <;> decide +kernel

theorem isName_leaf (item : Leaf) : IsName item.name := by
  have hatom : ∀ kind : AtomKind, IsName kind.name := by
    intro kind
    cases kind <;> decide +kernel
  have hother : ∀ name ∈ ["base", "namespace", "content", "count", "ascending", "descending",
      "limit", "offset", "curie", "qname", "literal"], IsName name := by decide +kernel
  cases item with
  | atom kind value => exact hatom kind
  | order name descending => cases descending <;> exact hother _ (List.mem_of_elem_eq_true rfl)
  | _ => exact hother _ (List.mem_of_elem_eq_true rfl)

/-- The attributes that elements have, by their names. -/
def attributeNames : List (List String) :=
  [[], ["name"], ["short-circuit"], ["name", "hints"], ["name", "removed-variables"],
    ["name", "hints", "removed-variables"], ["iri"], ["identifier", "iri", "kind"], ["value"],
    ["kind", "prefix", "localpart"], ["value", "datatype-iri"],
    ["value", "datatype-prefix", "datatype-localpart"]]

theorem names_container (c : Container) : c.attributes.map Prod.fst ∈ attributeNames := by
  cases c with
  | branch shortCircuit => cases shortCircuit <;> exact List.mem_of_elem_eq_true rfl
  | builtin name hints => cases hints <;> exact List.mem_of_elem_eq_true rfl
  | internal name hints removed => cases hints <;> exact List.mem_of_elem_eq_true rfl
  | _ => exact List.mem_of_elem_eq_true rfl

theorem names_leaf (item : Leaf) : item.attributes.map Prod.fst ∈ attributeNames := by
  cases item with
  | literal value datatype => cases datatype <;> exact List.mem_of_elem_eq_true rfl
  | _ => exact List.mem_of_elem_eq_true rfl

theorem writable_of_names {e : Element} (hname : IsName e.name)
    (hnames : e.attributes.map Prod.fst ∈ attributeNames)
    (htext : e.text ≠ none → e.name = "content") : Writable e := by
  have hall : ∀ names ∈ attributeNames,
      names.Nodup ∧ ∀ n ∈ names, IsName n ∧ n ≠ "xmlns" := by decide +kernel
  obtain ⟨hdistinct, hplain⟩ := hall _ hnames
  exact ⟨hname, hplain, hdistinct, htext⟩

theorem writable_leaf (item : Leaf) : Writable item.element := by
  refine @writable_of_names item.element (isName_leaf item) (names_leaf item) ?_
  cases item with
  | content text => exact fun _ => rfl
  | _ => exact fun h => absurd rfl h

theorem writable_within (c : Container) (children : List Element) :
    Writable ⟨c.tag.name, c.attributes, none, children⟩ :=
  writable_of_names (isName_tag c.tag) (names_container c) fun h => absurd rfl h

/-- An attribute is given a value where it stands or behind the others. -/
theorem names_put (name value : String) (attributes : List (String × String)) :
    (Attributes.put name value attributes).map Prod.fst =
      if name ∈ attributes.map Prod.fst then attributes.map Prod.fst
      else attributes.map Prod.fst ++ [name] := by
  induction attributes with
  | nil => rfl
  | cons a attributes ih =>
      obtain ⟨n, v⟩ := a
      by_cases hn : n = name
      · simp [Attributes.put, hn]
      · rw [Attributes.put, if_neg hn, List.map_cons, List.map_cons, ih]
        by_cases hmem : name ∈ attributes.map Prod.fst
        · rw [if_pos hmem, if_pos (List.mem_cons_of_mem n hmem)]
        · have hnot : name ∉ n :: attributes.map Prod.fst := by
            rw [List.mem_cons, not_or]
            exact ⟨Ne.symm hn, hmem⟩
          rw [if_neg hmem, if_neg hnot, List.cons_append]

/-- Passes leave behind what can be written. -/
theorem writable_kept : KeptByPasses Writable := by
  refine .of_setAttr ?children ?setAttr ?internal
  case children =>
    intro e cs h
    exact ⟨h.name, h.names, h.distinct, h.text⟩
  case setAttr =>
    intro e name value hname h
    have hset : ∀ name ∈ ["hints", optimizedByName], IsName name ∧ name ≠ "xmlns" := by decide
    obtain ⟨hplain, hnames, hdistinct, htext⟩ := h
    have hput := names_put name value e.attributes
    split at hput
    · exact ⟨hplain, hput ▸ hnames, hput ▸ hdistinct, htext⟩
    · next hnew =>
      refine ⟨hplain, ?_, ?_, htext⟩
      · rw [Element.setAttr, hput]
        exact List.forall_mem_append.mpr ⟨hnames, List.forall_mem_singleton.mpr (hset name hname)⟩
      · rw [Element.setAttr, hput, ← List.concat_eq_append]
        exact hdistinct.concat hnew
  case internal =>
    intro clause internal removed
    apply writable_of_names
    · exact isName_tag .internal
    · unfold InternalPredicates.internalClause
      cases clause.attr? "hints" <;> exact List.mem_of_elem_eq_true rfl
    · exact fun h => absurd rfl h

theorem nonempty_kept : KeptByPasses (·.text ≠ some "") := by
  refine .of_setAttr (fun _ h => h) (fun _ _ h => h) ?internal
  case internal =>
    intro clause internal removed h
    cases h

end Xml

/-! ## Elements of outlines -/

namespace Outline

theorem shows_within {text : String} {c : Container} {inner : List Outline} {o : Outline}
    (hc : c.tag.name ∉ ["where", "body", "branch", "not"]) (ho : o ∈ inner)
    (h : o.element.Shows text) : (within c inner).element.Shows text := by
  refine .inside ?_ ?_ h
  · simpa [isClauseList, element] using hc
  · rw [element, elements_eq_map]
    exact List.mem_map_of_mem ho

end Outline

namespace Phrase

open Outline

/-- Content that a text inserts stands outside its lists of clauses. -/
theorem Document.shows_content {d : Document} {c : Grammar.Setting} {content : String}
    (h : .leaf (.content content) ∈ (d.outline c).events) :
    (d.outline c).element.Shows content := by
  obtain ⟨x, hx, hcontent⟩ := d.content_mem_iff.mp h
  obtain ⟨y, rfl⟩ : ∃ y, x = .change (.insert content) y := by
    cases x with
    | change x y =>
        cases x with
        | insert content' => exact ⟨y, by simpa [Statement.content?] using hcontent⟩
        | _ => simp [Statement.content?] at hcontent
    | _ => simp [Statement.content?] at hcontent
  have hleaf : (Outline.leaf (.content content)).element.Shows content := .here rfl
  have hfragment : (Change.contentOutline content).element.Shows content :=
    shows_within (by decide) (by simp) hleaf
  obtain ⟨o, ho, hshows⟩ : ∃ o ∈ d.statement.toList.flatMap
      (Category.statement.outlines (d.settled c).scope), o.element.Shows content := by
    refine ⟨_, List.mem_flatMap.mpr ⟨_, Option.mem_toList.mpr hx, List.mem_cons_self⟩, ?_⟩
    have hinsert : Tag.insert.name ∉ ["where", "body", "branch", "not"] := by decide
    exact shows_within hinsert List.mem_cons_self hfragment
  apply shows_within (by decide) _ hshows
  exact List.mem_append_right _ (List.mem_append_right _ ho)

end Phrase

open Phrase

/--
The optimized tree of a text is read back from its XML form without the texts that are
empty. So it is read back as it was exactly if the text does not insert empty content.
-/
theorem rereads_iff {plus : Bool} {text : String} (hparses : (parse text plus).fault = none) :
    ∃ tree, Element.ofText plus text = .ok tree ∧ ∀ passes,
      Xml.read (Xml.write (optimize passes tree)) = .ok (optimize passes tree).withoutEmptyText ∧
        (Xml.read (Xml.write (optimize passes tree)) = .ok (optimize passes tree) ↔
          .leaf (.content "") ∉ (parse text plus).events) := by
  obtain ⟨d, hd⟩ := exists_document hparses
  refine ⟨_, hd.tree, fun passes => ?_⟩
  rw [hd.events]
  set o := d.outline (settingOf plus text) with ho
  have hwritable : (optimize passes o.element).Every Xml.Writable := by
    apply Every.optimize Xml.writable_kept
    exact Outline.every_element Xml.writable_within o fun item _ => Xml.writable_leaf item
  have hread := Xml.read_write hwritable
  refine ⟨hread, ?_⟩
  rw [hread, Except.ok.injEq, withoutEmptyText_eq_iff]
  constructor
  · intro hevery hcontent
    have hshows := (Document.shows_content hcontent).optimize rfl passes
    exact hevery.not_shows hshows
  · intro hcontent
    apply Every.optimize Xml.nonempty_kept
    apply Outline.every_element (fun _ _ h => nomatch h) o
    intro item hitem htext
    cases item with
    | content text =>
        obtain rfl : text = "" := Option.some.inj htext
        exact hcontent hitem
    | _ => cases htext

/-- Content with marks in it, and a clause that is left out as a repetition. -/
theorem rereads_iff_marked :
    ∃ tree, Element.ofText false "insert $a - \"x < y & z\". from p($a), p($a)" = .ok tree ∧
      ∀ passes,
        Xml.read (Xml.write (optimize passes tree)) =
          .ok (optimize passes tree).withoutEmptyText ∧
        (Xml.read (Xml.write (optimize passes tree)) = .ok (optimize passes tree) ↔
          .leaf (.content "") ∉
            (parse "insert $a - \"x < y & z\". from p($a), p($a)" false).events) :=
  rereads_iff (by decide +kernel)

/-- Empty content is written as an element with nothing in it and is read without a text. -/
theorem not_rereads_empty :
    (parse "insert  \n" false).fault = none ∧
      ∃ tree, Element.ofText false "insert  \n" = .ok tree ∧
        Xml.read (Xml.write (optimize [] tree)) ≠ .ok (optimize [] tree) := by
  obtain ⟨hparses, hdiffers⟩ : (parse "insert  \n" false).fault = none ∧
      (Element.ofText false "insert  \n").toOption.all (fun tree =>
        Xml.read (Xml.write (optimize [] tree)) ≠ .ok (optimize [] tree)) = true := by
    decide +kernel
  obtain ⟨d, hd⟩ := exists_document hparses
  refine ⟨hparses, _, hd.tree, fun hread => ?_⟩
  rw [hd.tree] at hdiffers
  simp [Except.toOption, hread] at hdiffers

end TopicQuery

namespace TopicQuery.Element

open Outline

/-! ## Empty texts are not replayed -/

theorem getD_filter_nonempty (text : Option String) :
    (text.filter (· != "")).getD "" = text.getD "" := by
  match text with
  | none => rfl
  | some text =>
      by_cases h : text = ""
      · subst h
        rfl
      · simp [Option.filter, h]

section

variable (name : String) (attributes : List (String × String)) (text : Option String)
  (children others : List Element)

/-- The container that an element stands for is told by its tag and its attributes. -/
theorem container_inside (tag : Tag) :
    container ⟨name, attributes, text, children⟩ tag = container ⟨name, attributes, none, []⟩ tag := by
  cases tag <;> rfl

/-- A leaf is read the same with an empty text and with none. -/
theorem leaf_filter_nonempty :
    leaf ⟨name, attributes, text.filter (· != ""), others⟩ =
      leaf ⟨name, attributes, text, children⟩ := by
  simp only [leaf, otherLeaf, getD_filter_nonempty]
  rfl

end

mutual

theorem replay_withoutEmptyText (e : Element) : e.withoutEmptyText.replay = e.replay := by
  match e with
  | ⟨name, attributes, text, children⟩ =>
      have hempty : (withoutEmptyTexts children).isEmpty = children.isEmpty := by
        cases children <;> rfl
      simp only [withoutEmptyText, replay, replayAll_withoutEmptyTexts children, hempty,
        container_inside name attributes (text.filter _) (withoutEmptyTexts children),
        container_inside name attributes text children,
        leaf_filter_nonempty name attributes text children]

theorem replayAll_withoutEmptyTexts (es : List Element) :
    replayAll (withoutEmptyTexts es) = replayAll es := by
  match es with
  | [] => rfl
  | e :: es =>
      simp only [withoutEmptyTexts, replayAll, replay_withoutEmptyText e,
        replayAll_withoutEmptyTexts es]

end

/-! ## Events through XML -/

/--
Events that pass the nesting check come back unchanged when their tree is written as XML, read
from it and replayed. Of the strings in the events, only the removed variables of an internal
predicate are restricted: each has to be one word, as they are written with blanks between them.
-/
theorem replay_reread {events : List Event} (hcheck : Nesting.check events = .ok ())
    (hne : events ≠ []) (hwords : ∀ c, .enter c ∈ events → c.ListsWords) :
    ∃ tree reread, ofEvents events = .ok tree ∧ Xml.read (Xml.write tree) = .ok reread ∧
      reread.replay = ⟨events, none⟩ := by
  obtain rfl | ⟨inner, rfl⟩ := check_iff.mp hcheck
  · exact absurd rfl hne
  · set o := Outline.within .document inner
    have hbuilt : ofEvents o.events = .ok o.element := by
      rw [ofEvents, Growth.run_document inner]
      rfl
    have hwritable : o.element.Every Xml.Writable :=
      every_element Xml.writable_within o fun item _ => Xml.writable_leaf item
    refine ⟨_, _, hbuilt, Xml.read_write hwritable, ?_⟩
    rw [replay_withoutEmptyText, replay_element o hwords]

/-- Quotes, brackets, line ends and blanks in texts and in attributes, an empty text, an empty
name, and an internal predicate that lists two variables. -/
theorem replay_reread_marked :
    let events : List Event := [.enter .document, .leaf (.base " \n"),
      .leaf (.binding "" "\"<&>'" .module), .enter .condition,
      .enter (.internal "instance-of" [.association, .role] ["role", "player"]),
      .leaf (.atom .string "a\r\n<b>\t"), .leave .internal, .leave .condition,
      .leaf (.content ""), .leaf (.content " \t\n"), .leaf (.content "<a> & \"b\""),
      .leave .document]
    ∃ tree reread, ofEvents events = .ok tree ∧ Xml.read (Xml.write tree) = .ok reread ∧
      reread.replay = ⟨events, none⟩ := by
  intro events
  apply replay_reread
  · rfl
  · exact List.cons_ne_nil _ _
  · have hwords : ∀ name ∈ ["role", "player"], Text.IsUnbroken name.toList := by decide
    intro c hc
    obtain rfl | rfl | rfl : c = .document ∨ c = .condition ∨
        c = .internal "instance-of" [.association, .role] ["role", "player"] := by
      simpa [events] using hc
    · trivial
    · trivial
    · exact hwords

end TopicQuery.Element
