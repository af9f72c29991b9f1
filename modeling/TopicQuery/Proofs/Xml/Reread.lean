import TopicQuery.Proofs.Every
import TopicQuery.Proofs.Xml.Tag

/-!
Reading what was written. The tags of a written tree are read one after the other,
each element goes to the one it was written in, and the root is what is left at the
end. A text is found between its tags unless it is empty.
-/

namespace TopicQuery

namespace Element

mutual

/-- The tree without the texts that are empty. -/
def withoutEmptyText : Element → Element
  | ⟨name, attributes, text, children⟩ =>
    ⟨name, attributes, text.filter (· != ""), withoutEmptyTexts children⟩

/-- Some trees without the texts that are empty. -/
def withoutEmptyTexts : List Element → List Element
  | [] => []
  | e :: es => withoutEmptyText e :: withoutEmptyTexts es

end

mutual

/-- Nothing is lost exactly if no text is empty. -/
theorem withoutEmptyText_eq_iff (e : Element) :
    e.withoutEmptyText = e ↔ e.Every (·.text ≠ some "") := by
  match e with
  | ⟨name, attributes, text, children⟩ =>
      rw [every_iff, withoutEmptyText, ← withoutEmptyTexts_eq_iff children]
      simp only [Element.mk.injEq, true_and]
      have htext : text.filter (· != "") = text ↔ text ≠ some "" := by
        cases text with
        | none => simp
        | some t => by_cases h : t = "" <;> simp [h]
      rw [htext]

theorem withoutEmptyTexts_eq_iff (es : List Element) :
    withoutEmptyTexts es = es ↔ ∀ e ∈ es, e.Every (·.text ≠ some "") := by
  match es with
  | [] => simp [withoutEmptyTexts]
  | e :: es =>
      rw [withoutEmptyTexts, List.cons.injEq, withoutEmptyText_eq_iff e,
        withoutEmptyTexts_eq_iff es, List.forall_mem_cons]

end

end Element

namespace Xml

open Element

/-- The element can be written: names are plain, attributes are told apart, and only topic map
content has a text. -/
structure Writable (e : Element) : Prop where
  name : IsName e.name
  names : ∀ n ∈ e.attributes.map Prod.fst, IsName n ∧ n ≠ "xmlns"
  distinct : (e.attributes.map Prod.fst).Nodup
  text : e.text ≠ none → e.name = "content"

/-- What may stand in front of the attributes of an element: nothing, or the namespace. -/
def IsFront (front : List (String × String)) : Prop :=
  front = [] ∨ front = [("xmlns", namespaceIri)]

/-! ## Written elements -/

variable {front : List (String × String)}

theorem joined_attributes (attributes : List (String × String)) :
    (String.join (attributes.map writeAttribute)).toList = attributes.flatMap attributeText := by
  rw [String.toList_join, List.flatMap_map]
  rfl

/-- The text of an element as it stands between its tags. -/
def innerText (text : Option String) : List Char := ((text.map escape).getD "").toList

theorem writeElement_empty (front : List (String × String)) (name : String)
    (attributes : List (String × String)) :
    (writeElement front ⟨name, attributes, none, []⟩).toList =
      '<' :: (tagText name (front ++ attributes) ++ ['/', '>']) := by
  simp only [writeElement, writeTags, tagText, String.toList_append, joined_attributes]
  simp

theorem writeElement_full (front : List (String × String)) (name : String)
    (attributes : List (String × String)) {text : Option String} {children : List Element}
    (h : text ≠ none ∨ children ≠ []) :
    (writeElement front ⟨name, attributes, text, children⟩).toList =
      '<' :: (tagText name (front ++ attributes) ++ '>' ::
        (innerText text ++ ((writeElements children).toList ++
          '<' :: '/' :: (name.toList ++ ['>'])))) := by
  have hwritten : writeElement front ⟨name, attributes, text, children⟩ =
      writeTags name (front ++ attributes)
        (some (((text.map escape).getD "") ++ writeElements children)) := by
    rw [writeElement]
    rintro rfl rfl
    simp at h
  rw [hwritten]
  simp only [writeTags, tagText, String.toList_append, joined_attributes]
  simp [innerText]

/-- What is written of an element begins with a tag. -/
theorem head_writeElement (front : List (String × String)) (e : Element) :
    ∃ behind, (writeElement front e).toList = '<' :: behind := by
  obtain ⟨name, attributes, text, children⟩ := e
  by_cases h : text ≠ none ∨ children ≠ []
  · rw [writeElement_full _ _ _ h]
    exact ⟨_, rfl⟩
  · obtain ⟨rfl, rfl⟩ : text = none ∧ children = [] := by simpa using h
    rw [writeElement_empty]
    exact ⟨_, rfl⟩

/-- Behind a text comes a tag, the next child's or the closing one. -/
theorem head_writeElements (es : List Element) (rest : List Char) :
    ∃ behind, (writeElements es).toList ++ '<' :: rest = '<' :: behind := by
  cases es with
  | nil => exact ⟨rest, by simp [writeElements]⟩
  | cons e es =>
      obtain ⟨behind, hbehind⟩ := head_writeElement [] e
      rw [writeElements, String.toList_append, hbehind]
      exact ⟨_, rfl⟩

theorem legible_front (hfront : IsFront front) {e : Element} (h : Writable e) :
    Legible (front ++ e.attributes) := by
  have hnames : ∀ a ∈ e.attributes, IsName a.1 ∧ a.1 ≠ "xmlns" := fun a ha =>
    h.names a.1 (List.mem_map_of_mem ha)
  obtain rfl | rfl := hfront
  · exact ⟨fun a ha => (hnames a ha).1, h.distinct⟩
  · constructor
    · intro a ha
      obtain rfl | ha := List.mem_cons.mp ha
      · decide
      · exact (hnames a ha).1
    · apply List.nodup_cons.mpr
      constructor
      · intro hmem
        exact (h.names _ hmem).2 rfl
      · exact h.distinct

/-- The tag of an element is read as the element with nothing in it yet. -/
theorem readTag_front (hfront : IsFront front) {e : Element} (h : Writable e) :
    readTag (tagText e.name (front ++ e.attributes)) = .ok ⟨e.name, e.attributes, none, []⟩ := by
  have hkept : (front ++ e.attributes).filter (·.1 != "xmlns") = e.attributes := by
    have hown : e.attributes.filter (·.1 != "xmlns") = e.attributes := by
      rw [List.filter_eq_self]
      intro a ha
      simpa using (h.names a.1 (List.mem_map_of_mem ha)).2
    obtain rfl | rfl := hfront
    · exact hown
    · exact hown
  rw [readTag_tagText h.name (legible_front hfront h), hkept]

/-! ## Reading on -/

open Reading

variable {r r' : Reading} {rest : List Char}

/-- The reading of the first text goes on as the reading of what is behind. Where an offset would
be reported the text is read to its end, so offsets do not matter. -/
def GoesOn (r : Reading) (cs : List Char) (r' : Reading) (rest : List Char) : Prop :=
  ∀ offset, ∃ offset', readFrom r offset cs = readFrom r' offset' rest

theorem GoesOn.refl (r : Reading) (cs : List Char) : GoesOn r cs r cs := fun offset => ⟨offset, rfl⟩

theorem GoesOn.trans {r₁ r₂ r₃ : Reading} {cs₁ cs₂ cs₃ : List Char} (h : GoesOn r₁ cs₁ r₂ cs₂)
    (h' : GoesOn r₂ cs₂ r₃ cs₃) : GoesOn r₁ cs₁ r₃ cs₃ := by
  intro offset
  obtain ⟨offset', heq⟩ := h offset
  obtain ⟨offset'', heq'⟩ := h' offset'
  exact ⟨offset'', heq.trans heq'⟩

theorem goesOn_markup {cs : List Char} {markup : Markup} {n : Nat}
    (hread : Markup.read cs = .ok (markup, n)) (hrest : cs.drop n = rest)
    (hadd : ∀ offset, r.addMarkup offset markup = .ok r') : GoesOn r ('<' :: cs) r' rest := by
  intro offset
  rw [readFrom, if_pos rfl, hread]
  simp only [hadd, hrest]
  exact ⟨_, rfl⟩

theorem goesOn_text {text : String} (hne : text ≠ "") (hadd : r.addText text = .ok r') :
    GoesOn r ((escape text).toList ++ '<' :: rest) r' ('<' :: rest) := by
  intro offset
  have hplain : ∀ d ∈ (escape text).toList, d ≠ '<' := by
    rintro d hd rfl
    exact mem_escape hd (by decide)
  have hread : r.addRaw (escape text).toList = .ok r' := by
    rw [addRaw, unescape_escape]
    exact hadd
  obtain ⟨c, cs, hcs⟩ := List.exists_cons_of_ne_nil (escape_ne_nil hne)
  rw [hcs] at hplain hread ⊢
  have htail : (cs ++ '<' :: rest).takeWhile (· != '<') = cs := by
    rw [List.takeWhile_append_of_pos]
    · simp
    · intro d hd
      simpa using hplain d (by simp [hd])
  rw [List.cons_append, readFrom, if_neg (hplain c List.mem_cons_self), htail]
  simp only [hread, List.drop_left]
  exact ⟨_, rfl⟩

/-- A text between the tags of its element is found there unless it is empty. -/
theorem goesOn_innerText {e : Element} {key : List Char} {outer : List (List Char × Element)}
    {root : Option Element} {text : Option String} (hname : text ≠ none → e.name = "content")
    (htext : e.text = none) :
    GoesOn ⟨(key, e) :: outer, root⟩ (innerText text ++ '<' :: rest)
      ⟨(key, { e with text := text.filter (· != "") }) :: outer, root⟩ ('<' :: rest) := by
  obtain ⟨name, attributes, text', children⟩ := e
  obtain rfl : text' = none := htext
  cases text with
  | none => exact .refl _ _
  | some text =>
      obtain rfl : name = "content" := hname (by simp)
      by_cases hempty : text = ""
      · subst hempty
        exact .refl _ _
      · have hkept : (some text).filter (· != "") = some text := by simp [hempty]
        rw [hkept]
        apply goesOn_text hempty
        simp [addText]

theorem goesOn_opening {e : Element} (hfront : IsFront front) (h : Writable e) :
    GoesOn r ('<' :: (tagText e.name (front ++ e.attributes) ++ '>' :: rest))
      ⟨(e.name.toList, ⟨e.name, e.attributes, none, []⟩) :: r.opened, r.root⟩ rest := by
  apply goesOn_markup (read_opening h.name (legible_front hfront h).names rest)
  · exact List.drop_length_add_append _
  · intro offset
    simp only [addMarkup, readTag_front hfront h, tagName_tagText _ h.name]
    rfl

theorem goesOn_empty {e : Element} (hfront : IsFront front) (h : Writable e)
    (happend : r.append ⟨e.name, e.attributes, none, []⟩ = .ok r') :
    GoesOn r ('<' :: (tagText e.name (front ++ e.attributes) ++ '/' :: '>' :: rest)) r' rest := by
  apply goesOn_markup (read_empty h.name (legible_front hfront h).names rest)
  · exact List.drop_length_add_append _
  · intro offset
    simp only [addMarkup, readTag_front hfront h]
    exact happend

theorem goesOn_closing {name : String} {e : Element} {outer : List (List Char × Element)}
    {root : Option Element} (hname : IsName name)
    (happend : Reading.append ⟨outer, root⟩ e = .ok r') :
    GoesOn ⟨(name.toList, e) :: outer, root⟩ ('<' :: '/' :: (name.toList ++ '>' :: rest)) r' rest := by
  apply goesOn_markup (read_closing hname rest)
  · simp
  · intro offset
    simp only [addMarkup, if_true]
    exact happend

mutual

/-- A written element is read and goes to where complete elements go. -/
theorem goesOn_element {front : List (String × String)} {r r' : Reading} (e : Element)
    (h : e.Every Writable) (hfront : IsFront front)
    (happend : r.append e.withoutEmptyText = .ok r') (rest : List Char) :
    GoesOn r ((writeElement front e).toList ++ rest) r' rest := by
  match e with
  | ⟨name, attributes, text, children⟩ =>
      obtain ⟨hhere, hbelow⟩ := every_iff.mp h
      by_cases hfull : text ≠ none ∨ children ≠ []
      · obtain ⟨behind, hbehind⟩ := head_writeElements children ('/' :: (name.toList ++ '>' :: rest))
        -- the element is open behind its tag, then it gets its text and its children
        have hopen := @goesOn_opening front r
          (innerText text ++ '<' :: behind) ⟨name, attributes, text, children⟩ hfront hhere
        have htext := @goesOn_innerText behind ⟨name, attributes, none, []⟩ name.toList r.opened
          r.root text hhere.text rfl
        have hchildren := goesOn_elements children hbelow name.toList
          ⟨name, attributes, text.filter (· != ""), []⟩ r.opened r.root
          ('<' :: '/' :: (name.toList ++ '>' :: rest))
        have hclose := @goesOn_closing r' rest name (withoutEmptyText ⟨name, attributes, text, children⟩)
          r.opened r.root hhere.name happend
        rw [hbehind] at hchildren
        have hgoes := hopen.trans (htext.trans (hchildren.trans hclose))
        rw [writeElement_full _ _ _ hfull]
        simpa [hbehind] using hgoes
      · obtain ⟨rfl, rfl⟩ : text = none ∧ children = [] := by simpa using hfull
        have hempty := @goesOn_empty front r r' rest ⟨name, attributes, none, []⟩ hfront hhere happend
        rw [writeElement_empty]
        simpa using hempty

/-- Written elements become the last children of the element they stand in. -/
theorem goesOn_elements (es : List Element) (h : ∀ e ∈ es, e.Every Writable) (key : List Char)
    (parent : Element) (outer : List (List Char × Element)) (root : Option Element)
    (rest : List Char) :
    GoesOn ⟨(key, parent) :: outer, root⟩ ((writeElements es).toList ++ rest)
      ⟨(key, { parent with children := parent.children ++ withoutEmptyTexts es }) :: outer, root⟩
      rest := by
  match es with
  | [] =>
      obtain ⟨name, attributes, text, children⟩ := parent
      simpa [writeElements, withoutEmptyTexts] using GoesOn.refl _ rest
  | e :: es =>
      obtain ⟨hfirst, hes⟩ := List.forall_mem_cons.mp h
      have happend : Reading.append ⟨(key, parent) :: outer, root⟩ e.withoutEmptyText =
          .ok ⟨(key, { parent with children := parent.children ++ [e.withoutEmptyText] }) :: outer,
            root⟩ := rfl
      have hgoes := (goesOn_element e hfirst (.inl rfl) happend
        ((writeElements es).toList ++ rest)).trans (goesOn_elements es hes key
          { parent with children := parent.children ++ [e.withoutEmptyText] } outer root rest)
      simpa [writeElements, withoutEmptyTexts, String.toList_append] using hgoes

end

/-- A written tree is read back without the texts that are empty. -/
theorem read_write {e : Element} (h : e.Every Writable) : read (write e) = .ok e.withoutEmptyText := by
  have happend : Reading.append .empty e.withoutEmptyText =
      .ok ⟨[], some e.withoutEmptyText⟩ := rfl
  obtain ⟨offset, hread⟩ := goesOn_element e h (.inr rfl) happend [] 0
  obtain ⟨behind, hbehind⟩ := head_writeElement [("xmlns", namespaceIri)] e
  rw [List.append_nil, readFrom] at hread
  rw [read, write, hbehind]
  rw [hbehind] at hread
  exact hread

end Xml

end TopicQuery
