import TopicQuery.Proofs.Lexeme.Number
import TopicQuery.Rendering.Term

/-!
Written tokens. A token whose text has the form that the scanner gives it is read
again from its written form, whatever soft text stands behind it.
-/

namespace TopicQuery

open Text

/-- A token as it stands in rendered text. -/
def Token.written : Token → List Char
  | .atom kind value => (Style.atom kind value).toList
  | .fragment content => content.toList
  | t => t.text.toList

namespace Lexeme

/-- A name behind its sigil. -/
def IsName (first : Char → Bool) (cs : List Char) : Prop :=
  ∃ c w, cs = c :: w ∧ first c = true ∧ ∀ d ∈ w, isNamePart d = true

instance (first : Char → Bool) : (cs : List Char) → Decidable (IsName first cs)
  | [] => isFalse (by rintro ⟨c, w, h, -⟩; cases h)
  | c :: w =>
    decidable_of_iff (first c = true ∧ w.all isNamePart = true)
      ⟨fun h => ⟨c, w, rfl, h.1, List.all_eq_true.mp h.2⟩, by
        rintro ⟨c', w', h, hfirst, hparts⟩
        cases h
        exact ⟨hfirst, List.all_eq_true.mpr hparts⟩⟩

/-- A character that a number or a date begins with. -/
def isNumberStart (c : Char) : Bool := c.isDigit || c == '-' || c == '+' || c == '.'

/-- The text has the form of the atoms of a kind. -/
def ProperAtom (kind : AtomKind) (cs : List Char) : Prop :=
  match kind with
  | .var | .parameter => IsName isNameStart cs
  | .identifier => IsName isNameStart cs ∧ Keyword.ofText? (String.ofList cs) = none
  | .objectId => IsName isWord cs
  | .subjectIdentifier | .subjectLocator | .itemIdentifier => cs ≠ [] ∧ '"' ∉ cs
  | .iri => cs ≠ [] ∧ ∀ c ∈ cs, isIriPart c = true
  | .string => True
  | kind =>
    ∃ c w, cs = c :: w ∧ isNumberStart c = true ∧
      number? cs = some ⟨.atom kind (String.ofList cs), w.length⟩

end Lexeme

/-- The texts of the token have the form that the scanner gives them. -/
def Token.Proper : Token → Prop
  | .atom kind value => Lexeme.ProperAtom kind value.toList
  | .qname name =>
    Lexeme.IsName isNameStart name.qualifier.toList ∧ name.localPart.toList ≠ [] ∧
      ∀ c ∈ name.localPart.toList, isNamePart c = true
  | .curie name =>
    Lexeme.IsName isNameStart name.qualifier.toList ∧
      ∀ c ∈ name.localPart.toList, (c != ']' && !isBlank c) = true
  | .directive name => Lexeme.IsName isNameStart name.toList
  | _ => True

namespace Lexeme

variable {c : Char} {cs rest : List Char}

/-- The scanner reads a token from its written form in front of a text. -/
def Reads (t : Token) (rest : List Char) : Prop :=
  ∃ c w, t.written = c :: w ∧ read c (w ++ rest) = .ok ⟨t, w.length⟩

/-! ## Runs -/

theorem takeWhile_append_of_all {p : Char → Bool} (hcs : ∀ c ∈ cs, p c = true)
    (hrest : ∀ c ∈ rest.head?, p c = false) : (cs ++ rest).takeWhile p = cs := by
  have hrun : rest.takeWhile p = [] := by
    cases rest with
    | nil => rfl
    | cons c rest => simp [hrest c rfl]
  rw [List.takeWhile_append_of_pos hcs, hrun, List.append_nil]

theorem hard_isNamePart : Hard isNamePart := by decide

theorem nameRun_append (hcs : ∀ c ∈ cs, isNamePart c = true) (hrest : Soft rest) :
    nameRun (cs ++ rest) = cs :=
  takeWhile_append_of_all hcs fun c hc => hard_isNamePart c (hrest c hc)

theorem nameBody_append {first : Char → Bool} (hcs : IsName first cs) (hrest : Soft rest) :
    nameBody first (cs ++ rest) = some cs := by
  obtain ⟨c, w, rfl, hc, hw⟩ := hcs
  simp [nameBody, hc, nameRun_append hw hrest]

/-- A name in front of a colon or another character that no name holds. -/
theorem nameRun_append_cons (hcs : ∀ c ∈ cs, isNamePart c = true) (hc : isNamePart c = false) :
    nameRun (cs ++ c :: rest) = cs := takeWhile_append_of_all hcs (by simpa using hc)

theorem nameBody_append_cons {first : Char → Bool} (hcs : IsName first cs)
    (hc : isNamePart c = false) : nameBody first (cs ++ c :: rest) = some cs := by
  obtain ⟨d, w, rfl, hd, hw⟩ := hcs
  simp [nameBody, hd, nameRun_append_cons hw hc]

theorem head?_append_ne {d : Char} (hcs : d ∉ cs) (hrest : rest.head? ≠ some d) :
    (cs ++ rest).head? ≠ some d := by
  cases cs with
  | nil => exact hrest
  | cons c cs =>
      rintro h
      obtain rfl : c = d := by simpa using h
      simp at hcs

theorem not_mem_of_isNamePart {d : Char} (hcs : ∀ c ∈ cs, isNamePart c = true)
    (hd : isNamePart d = false) : d ∉ cs := fun h => by simp [hcs d h] at hd

/-! ## Words -/

theorem read_of_isNameStart (hc : isNameStart c = true) : read c rest = .ok (word c rest) := by
  have hne : ∀ d ∈ ['?', '"', '<', '$', '@', '%', '['], c ≠ d := by
    rintro d hd rfl
    simp only [List.mem_cons, List.not_mem_nil, or_false] at hd
    rcases hd with rfl | rfl | rfl | rfl | rfl | rfl | rfl <;> exact absurd hc (by decide)
  simp only [List.mem_cons, List.not_mem_nil, or_false, forall_eq_or_imp, forall_eq] at hne
  obtain ⟨h₁, h₂, h₃, h₄, h₅, h₆, h₇⟩ := hne
  simp only [read, h₁, h₂, h₃, h₄, h₅, h₆, h₇, hc, if_true, if_false]

theorem reference?_of_head?_ne (h : rest.head? ≠ some '"') : reference? c rest = none := by
  unfold reference?
  cases referenceKind? c with
  | none => rfl
  | some kind =>
      dsimp only [bind, Option.bind]
      split
      · simp at h
      · rfl

/-- A word that is neither a quoted reference nor a prefixed name. -/
theorem word_append (hcs : ∀ d ∈ cs, isNamePart d = true) (hrest : Soft rest) :
    word c (cs ++ rest) =
      match Keyword.ofText? (String.ofList (c :: cs)) with
      | some keyword => ⟨.keyword keyword, cs.length⟩
      | none => ⟨.atom .identifier (String.ofList (c :: cs)), cs.length⟩ := by
  have hreference : reference? c (cs ++ rest) = none :=
    reference?_of_head?_ne (head?_append_ne (not_mem_of_isNamePart hcs (by decide))
      (hrest.head?_ne (by decide)))
  have hqname : qname? c (cs ++ rest) = none := by
    unfold qname?
    simp only [nameRun_append hcs hrest, List.drop_left]
    split
    · next rest' => exact absurd rfl (hrest.head?_ne (by decide))
    · rfl
  unfold word
  rw [hreference, hqname, nameRun_append hcs hrest]
  exact Option.getD_none

theorem reads_keyword (k : Keyword) (hrest : Soft rest) : Reads (.keyword k) rest := by
  have hname : IsName isNameStart k.text.toList := by
    cases k <;> decide
  obtain ⟨c, w, hw, hc, hparts⟩ := hname
  refine ⟨c, w, hw, ?_⟩
  have hword : String.ofList (c :: w) = k.text := by rw [← hw, String.ofList_toList]
  rw [read_of_isNameStart hc, word_append hparts hrest, hword, Keyword.ofText?_text]

theorem reads_identifier {name : String} (h : (Token.atom .identifier name).Proper)
    (hrest : Soft rest) : Reads (.atom .identifier name) rest := by
  obtain ⟨⟨c, w, hw, hc, hparts⟩, hkeyword⟩ := h
  refine ⟨c, w, hw, ?_⟩
  have hword : String.ofList (c :: w) = name := by rw [← hw, String.ofList_toList]
  rw [hw, hword] at hkeyword
  rw [read_of_isNameStart hc, word_append hparts hrest, hword, hkeyword]

theorem reads_qname {name : QualifiedName} (h : (Token.qname name).Proper) (hrest : Soft rest) :
    Reads (.qname name) rest := by
  obtain ⟨qualifier, localPart⟩ := name
  obtain ⟨⟨c, w, hw, hc, hparts⟩, hne, hlocal⟩ := h
  have hqualifier : qualifier = String.ofList (c :: w) := by rw [← hw, String.ofList_toList]
  have hquote : (w ++ ':' :: (localPart.toList ++ rest)).head? ≠ some '"' :=
    head?_append_ne (not_mem_of_isNamePart hparts (by decide)) (by simp)
  have hqname : qname? c (w ++ ':' :: (localPart.toList ++ rest)) =
      some ⟨.qname ⟨qualifier, localPart⟩, w.length + localPart.toList.length + 1⟩ := by
    unfold qname?
    simp only [nameRun_append_cons hparts (by decide : isNamePart ':' = false), List.drop_left,
      nameRun_append hlocal hrest, List.isEmpty_iff, if_neg hne, hqualifier,
      String.ofList_toList]
  refine ⟨c, w ++ ':' :: localPart.toList, ?_, ?_⟩
  · simp [Token.written, Token.text, QualifiedName.text, hw]
  · rw [read_of_isNameStart hc, List.append_assoc, List.cons_append]
    simp only [word, reference?_of_head?_ne hquote, hqname, Option.none_or, Option.getD_some]
    simp only [List.length_append, List.length_cons, Nat.add_assoc]

/-! ## Quotes and brackets -/

theorem quoted_of_not_mem {s : String} (h : '"' ∉ s.toList) :
    (quoted s).toList = '"' :: (s.toList ++ ['"']) := by
  have hplain : ∀ cs : List Char, '"' ∉ cs →
      cs.flatMap (fun c => if c = '"' then ['"', '"'] else [c]) = cs := by
    intro cs hcs
    induction cs with
    | nil => rfl
    | cons c cs ih =>
        obtain ⟨hc, hcs⟩ := not_or.mp (mt List.mem_cons.mpr hcs)
        rw [List.flatMap_cons, ih hcs, if_neg (Ne.symm hc)]
        rfl
  simp [quoted, hplain _ h]

/-- The letter in front of a quoted reference. -/
def letter? : AtomKind → Option Char
  | .subjectIdentifier => some 'i'
  | .subjectLocator => some 'a'
  | .itemIdentifier => some 's'
  | _ => none

theorem reads_reference {kind : AtomKind} {letter : Char} (hletter : letter? kind = some letter)
    {value : String} (h : (Token.atom kind value).Proper) : Reads (.atom kind value) rest := by
  have hform : value.toList ≠ [] ∧ '"' ∉ value.toList := by
    cases kind <;> simp [letter?] at hletter <;> exact h
  have hkind : referenceKind? letter = some kind := by
    cases kind <;> simp [letter?] at hletter <;> subst hletter <;> rfl
  have hstart : isNameStart letter = true := by
    cases kind <;> simp [letter?] at hletter <;> subst hletter <;> decide
  have hwritten : (Token.atom kind value).written = letter :: '"' :: (value.toList ++ ['"']) := by
    cases kind <;> simp [letter?] at hletter <;> subst hletter <;>
      simp [Token.written, Style.atom, quoted_of_not_mem hform.2]
  refine ⟨letter, _, hwritten, ?_⟩
  have hbody : (value.toList ++ '"' :: rest).takeWhile (· != '"') = value.toList :=
    takeWhile_append_of_all (fun c hc => bne_iff_ne.mpr fun heq => hform.2 (heq ▸ hc)) (by simp)
  obtain ⟨c, cs, hcs⟩ := List.exists_cons_of_ne_nil hform.1
  have hreference : reference? letter ('"' :: (value.toList ++ '"' :: rest)) =
      some ⟨.atom kind value, value.toList.length + 2⟩ := by
    simp only [reference?, hkind, bind, Option.bind, hbody, List.drop_left]
    have hvalue : String.ofList (c :: cs) = value := by rw [← hcs, String.ofList_toList]
    rw [hcs]
    simp only [hvalue]
  rw [read_of_isNameStart hstart]
  simp only [List.cons_append, List.append_assoc, List.nil_append, word, hreference, Option.some_or,
    Option.getD_some]
  simp

theorem stringBody_append (value : List Char) (hrest : rest.head? ≠ some '"') :
    stringBody (value.flatMap (fun c => if c = '"' then ['"', '"'] else [c]) ++ '"' :: rest) =
      some (value, (value.flatMap (fun c => if c = '"' then ['"', '"'] else [c])).length + 1) := by
  induction value with
  | nil =>
      cases rest with
      | nil => rfl
      | cons c rest =>
          have hc : c ≠ '"' := by simpa using hrest
          simp [stringBody, hc]
  | cons c value ih =>
      by_cases hc : c = '"'
      · subst hc
        simp [stringBody, ih]
      · simp [stringBody, hc, ih]

theorem reads_string (value : String) (hrest : rest.head? ≠ some '"') :
    Reads (.atom .string value) rest := by
  refine ⟨'"', value.toList.flatMap (fun c => if c = '"' then ['"', '"'] else [c]) ++ ['"'], ?_, ?_⟩
  · simp [Token.written, Style.atom, AtomKind.write, quoted]
  · simp [read, stringBody_append value.toList hrest]

theorem reads_iri {value : String} (h : (Token.atom .iri value).Proper) :
    Reads (.atom .iri value) rest := by
  obtain ⟨hne, hparts⟩ := h
  refine ⟨'<', value.toList ++ ['>'], by simp [Token.written, Style.atom, AtomKind.write], ?_⟩
  have hbody : (value.toList ++ '>' :: rest).takeWhile isIriPart = value.toList :=
    takeWhile_append_of_all hparts (by simp [isIriPart])
  have hangle : angle (value.toList ++ '>' :: rest) =
      ⟨.atom .iri value, value.toList.length + 1⟩ := by
    simp only [angle, hbody, List.drop_left, List.isEmpty_iff, if_neg hne, String.ofList_toList]
  simp [read, hangle]

theorem reads_curie {name : QualifiedName} (h : (Token.curie name).Proper) :
    Reads (.curie name) rest := by
  obtain ⟨qualifier, localPart⟩ := name
  obtain ⟨hname, hlocal⟩ := h
  refine ⟨'[', qualifier.toList ++ ':' :: (localPart.toList ++ [']']), ?_, ?_⟩
  · simp [Token.written, Token.text, QualifiedName.text]
  · have hbody : (localPart.toList ++ ']' :: rest).takeWhile (fun c => c != ']' && !isBlank c) =
        localPart.toList := takeWhile_append_of_all hlocal (by simp)
    have hbracket : bracket (qualifier.toList ++ ':' :: (localPart.toList ++ ']' :: rest)) =
        some ⟨.curie ⟨qualifier, localPart⟩,
          qualifier.toList.length + localPart.toList.length + 2⟩ := by
      simp only [bracket, nameBody_append_cons hname (by decide : isNamePart ':' = false), bind,
        Option.bind, List.drop_left, hbody, String.ofList_toList]
    simp only [read, List.append_assoc, List.cons_append, List.nil_append, hbracket]
    simp
    omega

/-! ## Sigils -/

theorem reads_var {name : String} (h : (Token.atom .var name).Proper) (hrest : Soft rest) :
    Reads (.atom .var name) rest := by
  refine ⟨'$', name.toList, by simp [Token.written, Style.atom, AtomKind.write], ?_⟩
  simp [read, nameBody_append h hrest]

theorem reads_objectId {name : String} (h : (Token.atom .objectId name).Proper)
    (hrest : Soft rest) : Reads (.atom .objectId name) rest := by
  refine ⟨'@', name.toList, by simp [Token.written, Style.atom, AtomKind.write], ?_⟩
  simp [read, nameBody_append h hrest]

theorem reads_parameter {name : String} (h : (Token.atom .parameter name).Proper) :
    Reads (.atom .parameter name) rest := by
  refine ⟨'%', name.toList ++ ['%'], by simp [Token.written, Style.atom, AtomKind.write], ?_⟩
  have hname : nameBody isNameStart (name.toList ++ '%' :: rest) = some name.toList :=
    nameBody_append_cons h (by decide)
  simp [read, percent, hname]

theorem reads_directive {name : String} (h : (Token.directive name).Proper) (hrest : Soft rest) :
    Reads (.directive name) rest := by
  refine ⟨'%', name.toList, by simp [Token.written, Token.text], ?_⟩
  have hpercent : percent (name.toList ++ rest) = some ⟨.directive name, name.toList.length⟩ := by
    simp only [percent, nameBody_append h hrest, Option.map_some, List.drop_left]
    split
    · next rest' => exact absurd rfl (hrest.head?_ne (by decide))
    · simp
  simp [read, hpercent]

/-! ## Numbers and marks -/

theorem isNameStart_iff {c : Char} : isNameStart c = true ↔
    (65 ≤ c.toNat ∧ c.toNat ≤ 90) ∨ (97 ≤ c.toNat ∧ c.toNat ≤ 122) ∨ c = '_' := by
  have halpha : c.isAlpha = true ↔
      (65 ≤ c.toNat ∧ c.toNat ≤ 90) ∨ (97 ≤ c.toNat ∧ c.toNat ≤ 122) := by
    delta Char.isAlpha Char.isUpper Char.isLower
    simp only [Bool.or_eq_true, Bool.and_eq_true, decide_eq_true_eq, UInt32.le_iff_toNat_le,
      ge_iff_le]
    rfl
  rw [isNameStart, Bool.or_eq_true, halpha, beq_iff_eq, or_assoc]

theorem read_of_isNumberStart (hc : isNumberStart c = true) {l : Lexeme}
    (h : number? (c :: rest) = some l) : read c rest = .ok l := by
  have hne : ∀ d ∈ ['?', '"', '<', '$', '@', '%', '['], c ≠ d := by
    rintro d hd rfl
    simp only [List.mem_cons, List.not_mem_nil, or_false] at hd
    rcases hd with rfl | rfl | rfl | rfl | rfl | rfl | rfl <;> exact absurd hc (by decide)
  have hname : isNameStart c = false := by
    simp only [isNumberStart, Bool.or_eq_true, beq_iff_eq] at hc
    rcases hc with ((hdigit | rfl) | rfl) | rfl
    · simp only [Char.isDigit, Bool.and_eq_true, decide_eq_true_eq, UInt32.le_iff_toNat_le] at hdigit
      have hhigh : c.toNat ≤ 57 := hdigit.2
      refine Bool.eq_false_iff.mpr fun hstart => ?_
      obtain h | h | rfl := isNameStart_iff.mp hstart
      · omega
      · omega
      · exact absurd hhigh (by decide)
    all_goals decide
  simp only [List.mem_cons, List.not_mem_nil, or_false, forall_eq_or_imp, forall_eq] at hne
  obtain ⟨h₁, h₂, h₃, h₄, h₅, h₆, h₇⟩ := hne
  unfold isNumberStart at hc
  simp only [read, h₁, h₂, h₃, h₄, h₅, h₆, h₇, hname, hc, h, if_true, if_false, Bool.false_eq_true]

theorem reads_number {kind : AtomKind} (hkind : kind ∈ numberForms.map Prod.fst) {value : String}
    (h : (Token.atom kind value).Proper) (hrest : Soft rest) : Reads (.atom kind value) rest := by
  have hform : ∃ c w, value.toList = c :: w ∧ isNumberStart c = true ∧
      number? value.toList = some ⟨.atom kind value, w.length⟩ := by
    simp only [numberForms, List.map_cons, List.map_nil, List.mem_cons, List.not_mem_nil,
      or_false] at hkind
    rcases hkind with rfl | rfl | rfl | rfl <;> simpa [Token.Proper, ProperAtom] using h
  have hwritten : (Token.atom kind value).written = value.toList := by
    simp only [numberForms, List.map_cons, List.map_nil, List.mem_cons, List.not_mem_nil,
      or_false] at hkind
    rcases hkind with rfl | rfl | rfl | rfl <;> rfl
  obtain ⟨c, w, hw, hc, hnumber⟩ := hform
  refine ⟨c, w, hwritten.trans hw, read_of_isNumberStart hc ?_⟩
  rw [← List.cons_append, ← hw, number?_append hrest, hnumber]

/-- The marks that are read whatever soft text stands behind them. -/
def softMarks : List Symbol :=
  [.eq, .ne, .gt, .ge, .lparen, .rparen, .lbrace, .rbrace, .comma, .colon, .bar, .barBar, .implies,
    .dot, .hatHat]

theorem reads_mark {m : Symbol} (hm : m ∈ softMarks) (hrest : Soft rest) :
    Reads (.symbol m) rest := by
  have hcons : ∃ c w, m.text.toList = c :: w := by
    cases m <;> exact ⟨_, _, rfl⟩
  obtain ⟨c, w, hw⟩ := hcons
  refine ⟨c, w, hw, ?_⟩
  have hrest' : rest = [] ∨ ∃ d rest', rest = d :: rest' ∧ d ∈ boundaries := by
    cases rest with
    | nil => exact .inl rfl
    | cons d rest' => exact .inr ⟨d, rest', rfl, soft_cons.mp hrest⟩
  simp only [softMarks, List.mem_cons, List.not_mem_nil, or_false] at hm
  obtain rfl | ⟨d, rest', rfl, hd⟩ := hrest'
  · rcases hm with rfl | rfl | rfl | rfl | rfl | rfl | rfl | rfl | rfl | rfl | rfl | rfl | rfl |
      rfl | rfl <;> cases hw <;> rfl
  · simp only [boundaries, List.mem_cons, List.not_mem_nil, or_false] at hd
    rcases hm with rfl | rfl | rfl | rfl | rfl | rfl | rfl | rfl | rfl | rfl | rfl | rfl | rfl |
      rfl | rfl <;> cases hw <;> rcases hd with rfl | rfl | rfl | rfl | rfl | rfl | rfl <;> rfl

end Lexeme

end TopicQuery
