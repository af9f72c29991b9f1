import Mathlib.Data.List.TakeWhile
import TopicQuery.Xml.Read
import TopicQuery.Xml.Write

/-!
Written tags are read back. A reference between `&` and `;` stands for the character
it was written for, no mark of a tag is left in an escaped text, and so the name and
the attributes of a tag are found where they were written.
-/

namespace TopicQuery.Xml

open Text

/-! ## Escaped text -/

/-- The names that characters are referred to by. -/
def entityNames : List String := ["lt", "gt", "amp", "apos", "quot"]

/-- A character is written plainly or by a name that stands for it. -/
theorem entity?_cases (c : Char) :
    entity? c = none ∧ c ∉ ['<', '>', '&', '\'', '"'] ∨
      ∃ name ∈ entityNames, entity? c = some name ∧ named? name = some c := by
  by_cases hlt : c = '<'
  · subst hlt
    exact .inr ⟨"lt", by decide, rfl, rfl⟩
  by_cases hgt : c = '>'
  · subst hgt
    exact .inr ⟨"gt", by decide, rfl, rfl⟩
  by_cases hamp : c = '&'
  · subst hamp
    exact .inr ⟨"amp", by decide, rfl, rfl⟩
  by_cases hapos : c = '\''
  · subst hapos
    exact .inr ⟨"apos", by decide, rfl, rfl⟩
  by_cases hquot : c = '"'
  · subst hquot
    exact .inr ⟨"quot", by decide, rfl, rfl⟩
  · left
    simp [entity?, hlt, hgt, hamp, hapos, hquot]

/-- What is written for a character ends neither a text nor a value. -/
theorem mem_escapeChar {c d : Char} (h : d ∈ escapeChar c) : d ∉ ['<', '>', '\'', '"'] := by
  obtain ⟨hnone, hc⟩ | ⟨name, hname, hsome, -⟩ := entity?_cases c
  · simp only [escapeChar, hnone, List.mem_singleton] at h
    subst h
    intro hd
    apply hc
    simp only [List.mem_cons, List.not_mem_nil, or_false] at hd
    rcases hd with rfl | rfl | rfl | rfl <;> decide
  · simp only [escapeChar, hsome] at h
    have hnames : ∀ name ∈ entityNames,
        ('&' :: name.toList ++ [';']).all (· ∉ ['<', '>', '\'', '"']) = true := by decide
    exact of_decide_eq_true (List.all_eq_true.mp (hnames name hname) d h)

theorem unescapeFrom_reference {total offset : Nat} {name rest : List Char} {c : Char}
    (hname : ∀ d ∈ name, d ≠ '&' ∧ d ≠ ';') (hc : ∀ start, reference start name = .ok c) :
    unescapeFrom total offset ('&' :: (name ++ ';' :: rest)) =
      (unescapeFrom total (offset + byteSize name + 2) rest).map (c :: ·) := by
  have htake : (name ++ ';' :: rest).takeWhile (fun d => d != '&' && d != ';') = name := by
    rw [List.takeWhile_append_of_pos (by simpa using hname)]
    simp
  rw [unescapeFrom]
  simp only [if_true, htake, List.drop_left, hc, List.drop_length_add_append]
  simp [bind, Except.bind, Except.map, pure, Except.pure]

theorem unescapeFrom_plain {total offset : Nat} {c : Char} {rest : List Char} (hc : c ≠ '&') :
    unescapeFrom total offset (c :: rest) =
      (unescapeFrom total (offset + c.utf8Size) rest).map (c :: ·) := by
  rw [unescapeFrom, if_neg hc]
  rfl

/-- A named character is found by its name. -/
theorem reference_named {start : Nat} {name : String} {c : Char} (hname : name ∈ entityNames)
    (hc : named? name = some c) : reference start name.toList = .ok c := by
  have hhash : ∀ name ∈ entityNames, name.toList.head? ≠ some '#' := by decide
  unfold reference
  split
  · next digits heq => exact absurd (by rw [heq]; rfl) (hhash name hname)
  · rw [String.ofList_toList, hc]

theorem unescapeFrom_escape (total offset : Nat) (cs : List Char) :
    unescapeFrom total offset (cs.flatMap escapeChar) = .ok cs := by
  induction cs generalizing offset with
  | nil => rw [List.flatMap_nil, unescapeFrom]
  | cons c cs ih =>
      rw [List.flatMap_cons]
      obtain ⟨hnone, hc⟩ | ⟨name, hname, hsome, hnamed⟩ := entity?_cases c
      · have hamp : c ≠ '&' := by
          rintro rfl
          simp at hc
        simp only [escapeChar, hnone, List.singleton_append]
        rw [unescapeFrom_plain hamp, ih]
        rfl
      · have hplain : ∀ name ∈ entityNames, ∀ d ∈ name.toList, d ≠ '&' ∧ d ≠ ';' := by
          simp [entityNames]
        simp only [escapeChar, hsome, List.cons_append, List.append_assoc, List.nil_append]
        rw [unescapeFrom_reference (hplain name hname) fun _ => reference_named hname hnamed, ih]
        rfl

/-- An escaped text is read back as it was. -/
theorem unescape_escape (s : String) : unescape (escape s).toList = .ok s := by
  rw [unescape, escape, String.toList_ofList, unescapeFrom_escape]
  simp [Except.map]

theorem mem_escape {s : String} {d : Char} (h : d ∈ (escape s).toList) :
    d ∉ ['<', '>', '\'', '"'] := by
  rw [escape, String.toList_ofList] at h
  obtain ⟨c, -, hd⟩ := List.mem_flatMap.mp h
  exact mem_escapeChar hd

theorem escape_ne_nil {s : String} (h : s ≠ "") : (escape s).toList ≠ [] := by
  intro hnil
  have hread := unescape_escape s
  rw [hnil] at hread
  have hempty : unescape [] = .ok "" := by
    rw [unescape, unescapeFrom]
    rfl
  exact h (Except.ok.inj (hread.symm.trans hempty))

/-! ## Names and attributes -/

/-- The characters that mean something in a tag. -/
def marks : List Char := [' ', '\t', '\r', '\n', '=', '<', '>', '"', '\'', '/', '!', '?', ':']

/-- A text that stands for itself in a tag. -/
def IsName (name : String) : Prop := name.toList ≠ [] ∧ ∀ c ∈ name.toList, c ∉ marks

instance (name : String) : Decidable (IsName name) :=
  decidable_of_iff (name.toList ≠ [] ∧ name.toList.all (· ∉ marks) = true) (by simp [IsName])

theorem isSpace_eq_false {c : Char} (h : c ∉ marks) : isSpace c = false := by
  simp only [marks, List.mem_cons, not_or] at h
  simp [isSpace, h]

theorem not_mem_of_isName {name : String} {c : Char} (h : IsName name) (hc : c ∈ marks) :
    ∀ d ∈ name.toList, d ≠ c := by
  rintro d hd rfl
  exact h.2 d hd hc

theorem withoutPrefix_of_isName {name : String} (h : IsName name) :
    withoutPrefix name.toList = name.toList := by
  have hcolon : name.toList.dropWhile (· != ':') = [] := by
    rw [List.dropWhile_eq_nil_iff]
    intro c hc
    simpa using not_mem_of_isName h (c := ':') (by decide) c hc
  rw [withoutPrefix, hcolon]

/-- One attribute as it stands in a tag. -/
def attributeText (item : String × String) : List Char := (writeAttribute item).toList

/-- What a tag holds. -/
def tagText (name : String) (attributes : List (String × String)) : List Char :=
  name.toList ++ attributes.flatMap attributeText

theorem attributeText_eq (name value : String) :
    attributeText (name, value) =
      ' ' :: (name.toList ++ '=' :: '"' :: ((escape value).toList ++ ['"'])) := by
  simp [attributeText, writeAttribute, String.toList_append]

/-- An attribute whose parts are found one after the other. -/
theorem attributesFrom_eq {seen : List (List Char)}
    {cs rest tail value quoted text behind : List Char} {c : Char}
    (hname : cs.dropWhile isSpace = c :: rest)
    (htail : rest.takeWhile (fun c => c != '=' && !isSpace c) = tail)
    (hvalue : (rest.drop tail.length).dropWhile isSpace = '=' :: value)
    (hquoted : value.dropWhile isSpace = '"' :: quoted)
    (htext : quoted.takeWhile (· != '"') = text)
    (hbehind : quoted.drop text.length = '"' :: behind) (hseen : (c :: tail) ∉ seen) :
    attributesFrom seen cs = (c :: tail, text) :: attributesFrom ((c :: tail) :: seen) behind := by
  -- each match of the function is on one of the five texts that are given here
  rw [attributesFrom]
  split
  · next heq => simp [hname] at heq
  · next heq =>
    obtain ⟨rfl, rfl⟩ := List.cons.inj (hname.symm.trans heq)
    subst htail
    dsimp only
    split
    · next heq =>
      obtain ⟨-, rfl⟩ := List.cons.inj (hvalue.symm.trans heq)
      rw [if_neg hseen]
      split
      · next heq => simp [hquoted] at heq
      · next heq =>
        obtain ⟨rfl, rfl⟩ := List.cons.inj (hquoted.symm.trans heq)
        subst htext
        rw [if_pos (by decide)]
        split
        · next heq =>
          obtain ⟨-, rfl⟩ := List.cons.inj (hbehind.symm.trans heq)
          rfl
        · next heq => simp [hbehind] at heq
    · next hne => exact absurd hvalue (hne value)

/-- The first attribute of a tag is found with its value as it is written. -/
theorem attributesFrom_cons {seen : List (List Char)} {name value : String} {rest : List Char}
    (hname : IsName name) (hseen : name.toList ∉ seen) :
    attributesFrom seen (attributeText (name, value) ++ rest) =
      (name.toList, (escape value).toList) :: attributesFrom (name.toList :: seen) rest := by
  have hspace : ∀ d ∈ name.toList, isSpace d = false := fun d hd => isSpace_eq_false (hname.2 d hd)
  have hequals : ∀ d ∈ name.toList, d ≠ '=' := not_mem_of_isName hname (by decide)
  have hquote : ∀ d ∈ (escape value).toList, d ≠ '"' := by
    rintro d hd rfl
    exact mem_escape hd (by decide)
  rw [attributeText_eq]
  obtain ⟨c, tail, hcs⟩ := List.exists_cons_of_ne_nil hname.1
  rw [hcs] at hspace hequals hseen ⊢
  have hskip : (' ' :: (c :: tail ++ '=' :: '"' :: ((escape value).toList ++ ['"'])) ++
      rest).dropWhile isSpace =
        c :: (tail ++ '=' :: '"' :: ((escape value).toList ++ '"' :: rest)) := by
    have hc : isSpace c = false := hspace c List.mem_cons_self
    have hblank : isSpace ' ' = true := rfl
    simp [hblank, hc]
  have htail : (tail ++ '=' :: '"' :: ((escape value).toList ++ '"' :: rest)).takeWhile
      (fun c => c != '=' && !isSpace c) = tail := by
    rw [List.takeWhile_append_of_pos]
    · simp
    · intro d hd
      simp [hspace d (by simp [hd]), hequals d (by simp [hd])]
  have htext : ((escape value).toList ++ '"' :: rest).takeWhile (· != '"') =
      (escape value).toList := by
    rw [List.takeWhile_append_of_pos]
    · simp
    · simpa using hquote
  have hequal : (List.drop tail.length (tail ++ '=' :: '"' :: ((escape value).toList ++
      '"' :: rest))).dropWhile isSpace = '=' :: '"' :: ((escape value).toList ++ '"' :: rest) := by
    rw [List.drop_left]
    rfl
  exact attributesFrom_eq hskip htail hequal rfl htext List.drop_left hseen

theorem attributesFrom_attributes {seen : List (List Char)} {attributes : List (String × String)}
    (hnames : ∀ a ∈ attributes, IsName a.1) (hdistinct : (attributes.map Prod.fst).Nodup)
    (hseen : ∀ a ∈ attributes, a.1.toList ∉ seen) :
    attributesFrom seen (attributes.flatMap attributeText) =
      attributes.map fun a => (a.1.toList, (escape a.2).toList) := by
  induction attributes generalizing seen with
  | nil =>
      rw [List.flatMap_nil, attributesFrom]
      rfl
  | cons a attributes ih =>
      obtain ⟨ha, hattributes⟩ := List.forall_mem_cons.mp hnames
      obtain ⟨hfresh, hdistinct⟩ := List.nodup_cons.mp hdistinct
      obtain ⟨hseen, hrest⟩ := List.forall_mem_cons.mp hseen
      rw [List.flatMap_cons, attributesFrom_cons ha hseen, ih hattributes hdistinct]
      · rfl
      · intro b hb hmem
        obtain hb' | hb' := List.mem_cons.mp hmem
        · apply hfresh
          rw [← String.toList_injective hb']
          exact List.mem_map_of_mem hb
        · exact hrest b hb hb'

/-! ## Tags -/

theorem head?_attributes (attributes : List (String × String)) :
    ∀ c ∈ (attributes.flatMap attributeText).head?, c = ' ' := by
  cases attributes with
  | nil => simp
  | cons a attributes => simp [attributeText_eq a.1 a.2]

theorem tagName_tagText {name : String} (attributes : List (String × String)) (h : IsName name) :
    tagName (tagText name attributes) = name.toList := by
  have hrest : (attributes.flatMap attributeText).takeWhile (!isSpace ·) = [] := by
    cases hcs : attributes.flatMap attributeText with
    | nil => rfl
    | cons c cs =>
        obtain rfl := head?_attributes attributes c (by simp [hcs])
        rfl
  rw [tagName, tagText, List.takeWhile_append_of_pos, hrest, List.append_nil]
  intro d hd
  simp [isSpace_eq_false (h.2 d hd)]

/-- Attributes that can be told apart in a tag. -/
structure Legible (attributes : List (String × String)) : Prop where
  names : ∀ a ∈ attributes, IsName a.1
  distinct : (attributes.map Prod.fst).Nodup

theorem isDeclaration_iff {name : String} (h : IsName name) :
    isDeclaration name.toList = true ↔ name = "xmlns" := by
  have hprefix : "xmlns:".toList.isPrefixOf name.toList = false := by
    rw [Bool.eq_false_iff]
    intro hprefix
    have hcolon : ':' ∈ name.toList :=
      (List.isPrefixOf_iff_prefix.mp hprefix).subset (by decide)
    exact not_mem_of_isName h (by decide) ':' hcolon rfl
  rw [isDeclaration, hprefix, Bool.or_false, beq_iff_eq, String.toList_inj]

theorem mapM_readAttribute {attributes : List (String × String)}
    (h : ∀ a ∈ attributes, IsName a.1) :
    ((attributes.map fun a => (a.1.toList, (escape a.2).toList)).filter
      fun item => !isDeclaration item.1).mapM readAttribute =
        .ok (attributes.filter (·.1 != "xmlns")) := by
  induction attributes with
  | nil => rfl
  | cons a attributes ih =>
      obtain ⟨name, value⟩ := a
      obtain ⟨hname, hattributes⟩ := List.forall_mem_cons.mp h
      have hkept : (!isDeclaration name.toList) = (name != "xmlns") := by
        rw [Bool.eq_iff_iff]
        simp [← isDeclaration_iff hname]
      rw [List.map_cons, List.filter_cons, List.filter_cons, hkept]
      split
      · have hread : readAttribute (name.toList, (escape value).toList) = .ok (name, value) := by
          rw [readAttribute, unescape_escape, withoutPrefix_of_isName hname, String.ofList_toList]
        rw [List.mapM_cons, hread, ih hattributes]
        rfl
      · exact ih hattributes

/-- A tag is read as its name and its attributes, the declaration of the namespace left out. -/
theorem readTag_tagText {name : String} {attributes : List (String × String)} (h : IsName name)
    (hattributes : Legible attributes) :
    readTag (tagText name attributes) =
      .ok ⟨name, attributes.filter (·.1 != "xmlns"), none, []⟩ := by
  have hrest : (tagText name attributes).drop name.toList.length =
      attributes.flatMap attributeText := List.drop_left
  have hfound := @attributesFrom_attributes [] attributes hattributes.names hattributes.distinct
    (by simp)
  simp only [readTag, tagName_tagText attributes h, hrest, hfound,
    mapM_readAttribute hattributes.names, withoutPrefix_of_isName h, String.ofList_toList]
  rfl

/-! ## Markup -/

open Markup hiding read

theorem tagSize?_plain {cs rest : List Char} (h : ∀ c ∈ cs, c ∉ ['>', '\'', '"']) :
    tagSize? none (cs ++ rest) = (tagSize? none rest).map (· + cs.length) := by
  induction cs with
  | nil => simp
  | cons c cs ih =>
      obtain ⟨hc, hcs⟩ := List.forall_mem_cons.mp h
      simp only [List.mem_cons, List.not_mem_nil, or_false, not_or] at hc
      simp [tagSize?, hc, ih hcs, Function.comp_def, Nat.add_assoc]

theorem tagSize?_quoted {cs rest : List Char} (h : ∀ c ∈ cs, c ≠ '"') :
    tagSize? (some '"') (cs ++ '"' :: rest) = (tagSize? none rest).map (· + (cs.length + 1)) := by
  induction cs with
  | nil => simp [tagSize?]
  | cons c cs ih =>
      obtain ⟨hc, hcs⟩ := List.forall_mem_cons.mp h
      simp [tagSize?, hc, ih hcs, Function.comp_def, Nat.add_assoc]

theorem plain_of_isName {name : String} (h : IsName name) :
    ∀ c ∈ name.toList, c ∉ ['>', '\'', '"'] := by
  intro c hc hmem
  have hmarks : ∀ c ∈ ['>', '\'', '"'], c ∈ marks := by simp [marks]
  exact h.2 c hc (hmarks c hmem)

theorem tagSize?_attribute {name value : String} {rest : List Char} (h : IsName name) :
    tagSize? none (attributeText (name, value) ++ rest) =
      (tagSize? none rest).map (· + (attributeText (name, value)).length) := by
  have hfront : ∀ c ∈ ' ' :: (name.toList ++ ['=']), c ∉ ['>', '\'', '"'] := by
    intro c hc
    simp only [List.mem_cons, List.mem_append, List.not_mem_nil, or_false] at hc
    obtain rfl | hc | rfl := hc
    · decide
    · exact plain_of_isName h c hc
    · decide
  have hquote : ∀ d ∈ (escape value).toList, d ≠ '"' := by
    rintro d hd rfl
    exact mem_escape hd (by decide)
  have hsplit : attributeText (name, value) ++ rest =
      (' ' :: (name.toList ++ ['='])) ++ '"' :: ((escape value).toList ++ '"' :: rest) := by
    simp [attributeText_eq]
  have hopen : tagSize? none ('"' :: ((escape value).toList ++ '"' :: rest)) =
      (tagSize? (some '"') ((escape value).toList ++ '"' :: rest)).map (· + 1) := by
    simp [tagSize?]
  rw [hsplit, tagSize?_plain hfront, hopen, tagSize?_quoted hquote, attributeText_eq,
    Option.map_map, Option.map_map]
  apply congrArg (Option.map · _)
  funext n
  simp only [Function.comp_apply, List.length_cons, List.length_append, List.length_nil]
  omega

/-- A tag ends behind its attributes, whatever their values are. -/
theorem tagSize?_tagText {name : String} {attributes : List (String × String)} {rest : List Char}
    (h : IsName name) (hattributes : ∀ a ∈ attributes, IsName a.1) :
    tagSize? none (tagText name attributes ++ rest) =
      (tagSize? none rest).map (· + (tagText name attributes).length) := by
  have hlist : tagSize? none (attributes.flatMap attributeText ++ rest) =
      (tagSize? none rest).map (· + (attributes.flatMap attributeText).length) := by
    induction attributes with
    | nil => simp
    | cons a attributes ih =>
        obtain ⟨name, value⟩ := a
        obtain ⟨ha, hattributes⟩ := List.forall_mem_cons.mp hattributes
        rw [List.flatMap_cons, List.append_assoc, tagSize?_attribute ha, ih hattributes,
          Option.map_map]
        apply congrArg (Option.map · _)
        funext n
        simp only [Function.comp_apply, List.length_append]
        omega
  rw [tagText, List.append_assoc, tagSize?_plain (plain_of_isName h), hlist, Option.map_map]
  apply congrArg (Option.map · _)
  funext n
  simp only [Function.comp_apply, List.length_append]
  omega

/-- A tag between `<` and `>`. -/
theorem read_tag {c : Char} {cs rest : List Char} {markup : Markup} (hc : c ≠ '!') (hc' : c ≠ '?')
    (hsize : tagSize? none (c :: cs ++ '>' :: rest) = some (c :: cs).length)
    (h : tag (c :: cs) = .ok markup) :
    Markup.read (c :: cs ++ '>' :: rest) = .ok (markup, (c :: cs).length + 1) := by
  have hread : Markup.read (c :: cs ++ '>' :: rest) =
      close (c :: cs ++ '>' :: rest) (tagSize? none (c :: cs ++ '>' :: rest)) .unclosedTag tag := by
    unfold Markup.read
    split
    all_goals first
      | rfl
      | next heq => exact absurd (List.cons.inj heq).1 hc
      | next heq => exact absurd (List.cons.inj heq).1 hc'
  rw [hread, hsize, close, List.take_left, h]

/-- A tag begins with a character of its name. -/
theorem exists_cons_tagText {name : String} (attributes : List (String × String))
    (h : IsName name) : ∃ c cs, tagText name attributes = c :: cs ∧ c ∉ marks := by
  obtain ⟨c, cs, hcs⟩ := List.exists_cons_of_ne_nil h.1
  have hc : c ∉ marks := h.2 c (by simp [hcs])
  exact ⟨c, cs ++ attributes.flatMap attributeText, by simp [tagText, hcs], hc⟩

/-- A tag ends with a character of its name or with a quote. -/
theorem getLast?_tagText {name : String} (attributes : List (String × String)) (h : IsName name) :
    (tagText name attributes).getLast? ≠ some '/' := by
  intro hlast
  obtain rfl | ⟨before, a, rfl⟩ := List.eq_nil_or_concat attributes
  · rw [tagText, List.flatMap_nil, List.append_nil] at hlast
    exact not_mem_of_isName h (by decide) '/' (List.mem_of_getLast? hlast) rfl
  · have hquote : attributeText a =
        (' ' :: (a.1.toList ++ '=' :: '"' :: (escape a.2).toList)) ++ ['"'] := by
      simp [attributeText_eq a.1 a.2]
    rw [tagText, List.concat_eq_append, List.flatMap_append, List.flatMap_singleton, hquote,
      ← List.append_assoc, ← List.append_assoc, List.getLast?_concat] at hlast
    exact absurd hlast (by decide)

theorem read_opening {name : String} {attributes : List (String × String)} (h : IsName name)
    (hattributes : ∀ a ∈ attributes, IsName a.1) (rest : List Char) :
    Markup.read (tagText name attributes ++ '>' :: rest) =
      .ok (.opening (tagText name attributes), (tagText name attributes).length + 1) := by
  have hsize := @tagSize?_tagText _ _ ('>' :: rest) h hattributes
  have hlast := getLast?_tagText attributes h
  obtain ⟨c, cs, hcs, hc⟩ := exists_cons_tagText attributes h
  rw [hcs] at hsize hlast ⊢
  simp only [marks, List.mem_cons, not_or] at hc
  have htag : tag (c :: cs) = .ok (.opening (c :: cs)) := by
    unfold tag
    split
    · next heq => exact absurd (List.cons.inj heq).1 (by simp [hc])
    · split
      · next heq => exact absurd (by rw [List.getLast?_eq_head?_reverse, heq]; rfl) hlast
      · rfl
  exact read_tag (by simp [hc]) (by simp [hc]) (by simpa [tagSize?] using hsize) htag

theorem read_empty {name : String} {attributes : List (String × String)} (h : IsName name)
    (hattributes : ∀ a ∈ attributes, IsName a.1) (rest : List Char) :
    Markup.read (tagText name attributes ++ '/' :: '>' :: rest) =
      .ok (.empty (tagText name attributes), (tagText name attributes).length + 2) := by
  have hsize := @tagSize?_tagText _ _ ('/' :: '>' :: rest) h hattributes
  obtain ⟨c, cs, hcs, hc⟩ := exists_cons_tagText attributes h
  rw [hcs] at hsize ⊢
  simp only [marks, List.mem_cons, not_or] at hc
  have htag : tag (c :: (cs ++ ['/'])) = .ok (.empty (c :: cs)) := by
    unfold tag
    split
    · next heq => exact absurd (List.cons.inj heq).1 (by simp [hc])
    · simp
  have hread := @read_tag c (cs ++ ['/']) rest _ (by simp [hc]) (by simp [hc])
    (by simpa [tagSize?, Nat.add_comm] using hsize) htag
  simpa using hread

theorem read_closing {name : String} (h : IsName name) (rest : List Char) :
    Markup.read ('/' :: (name.toList ++ '>' :: rest)) =
      .ok (.closing name.toList, name.toList.length + 2) := by
  have hsize : tagSize? none ('/' :: name.toList ++ '>' :: rest) =
      some ('/' :: name.toList).length := by
    have hplain := @tagSize?_plain _ ('>' :: rest) (plain_of_isName h)
    simp [tagSize?, hplain]
  have htrim : trimEnd name.toList = name.toList := by
    have hkept : name.toList.reverse.dropWhile isSpace = name.toList.reverse := by
      cases hcs : name.toList.reverse with
      | nil => rfl
      | cons c cs =>
          have hc : c ∈ name.toList := List.mem_reverse.mp (by simp [hcs])
          simp [isSpace_eq_false (h.2 c hc)]
    have hne : name.toList.reverse.reverse.isEmpty = false := by simpa using h.1
    simp [trimEnd, hkept]
  have htag : tag ('/' :: name.toList) = .ok (.closing name.toList) := by
    rw [tag, htrim]
  exact read_tag (by decide) (by decide) hsize htag

end TopicQuery.Xml
