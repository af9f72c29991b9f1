import TopicQuery.Text.Word
import TopicQuery.Vocabulary

/-!
Words in a text. Words with one blank between them are found again, names are
words, and so a written list of kinds is read back.
-/

namespace TopicQuery

namespace Text

variable {cs rest : List Char}

/-- Some characters, none of them white space. -/
def IsUnbroken (cs : List Char) : Prop := cs ≠ [] ∧ ∀ c ∈ cs, isBlank c = false

instance (cs : List Char) : Decidable (IsUnbroken cs) :=
  decidable_of_iff (cs ≠ [] ∧ cs.all (fun c => !isBlank c) = true) (by simp [IsUnbroken])

theorem words_blank {c : Char} (hc : isBlank c = true) : words (c :: cs) = words cs :=
  if_pos hc

theorem words_last {c : Char} (hc : isBlank c = false) : words [c] = [[c]] :=
  if_neg (by simp [hc])

theorem words_cons_cons {c d : Char} (hc : isBlank c = false) : words (c :: d :: cs) =
    if isBlank d then [c] :: words (d :: cs)
    else
      match words (d :: cs) with
      | [] => [[c]]
      | w :: ws => (c :: w) :: ws := if_neg (by simp [hc])

theorem words_append (hcs : IsUnbroken cs) (hrest : ∀ c ∈ rest.head?, isBlank c = true) :
    words (cs ++ rest) = cs :: words rest := by
  obtain ⟨hne, hblank⟩ := hcs
  induction cs with
  | nil => exact absurd rfl hne
  | cons c cs ih =>
      have hc : isBlank c = false := hblank c (by simp)
      cases cs with
      | nil =>
          cases rest with
          | nil => exact words_last hc
          | cons d rest => exact (words_cons_cons hc).trans (if_pos (hrest d rfl))
      | cons d cs =>
          have hd : isBlank d = false := hblank d (by simp)
          have hwords := ih (by simp) fun e he => hblank e (by simp [he])
          rw [List.cons_append] at hwords
          rw [List.cons_append, List.cons_append, words_cons_cons hc, hwords, hd]
          rfl

/-- An unbroken text is one word. -/
theorem wordsOf_unbroken {s : String} (h : IsUnbroken s.toList) : wordsOf s = [s] := by
  have hwords := @words_append _ [] h (by simp)
  rw [List.append_nil] at hwords
  rw [wordsOf, hwords, List.map_cons, String.ofList_toList]
  rfl

theorem wordsOf_intercalate {ss : List String} (h : ∀ s ∈ ss, IsUnbroken s.toList) :
    wordsOf (String.intercalate " " ss) = ss := by
  induction ss with
  | nil => rfl
  | cons s ss ih =>
      have hs := h s (by simp)
      cases ss with
      | nil => exact wordsOf_unbroken hs
      | cons s' ss =>
          have hrest := ih fun t ht => h t (by simp [ht])
          have hblank : isBlank ' ' = true := by decide
          have hskip : ∀ cs, words (" ".toList ++ cs) = words cs := fun cs => words_blank hblank
          rw [String.intercalate_cons_cons, wordsOf, String.toList_append, String.toList_append,
            List.append_assoc, words_append hs (by simp [hblank]), hskip, List.map_cons,
            String.ofList_toList]
          exact congrArg (s :: ·) hrest

/-! ## Names -/

/-- The code points of white space. -/
def blankCodes : List Nat :=
  List.range' 9 5 ++ List.range' 0x2000 11 ++
    [0x20, 0x85, 0xA0, 0x1680, 0x2028, 0x2029, 0x202F, 0x205F, 0x3000]

theorem mem_blankCodes {c : Char} (h : isBlank c = true) : c.toNat ∈ blankCodes := by
  simp only [isBlank, Bool.or_eq_true, Bool.and_eq_true, decide_eq_true_eq, beq_iff_eq] at h
  simp only [blankCodes, List.mem_append, List.mem_range'_1, List.mem_cons, List.not_mem_nil,
    or_false]
  omega

theorem not_name_of_code : ∀ n ∈ blankCodes,
    isNameStart (Char.ofNat n) = false ∧ isNamePart (Char.ofNat n) = false := by
  decide +kernel

/-- No name holds white space. -/
theorem not_isBlank_of_name {c : Char} (h : isNameStart c = true ∨ isNamePart c = true) :
    isBlank c = false := by
  cases hblank : isBlank c with
  | false => rfl
  | true =>
      have hcode := not_name_of_code c.toNat (mem_blankCodes hblank)
      rw [Char.ofNat_toNat] at hcode
      obtain h | h := h
      · exact absurd (h.symm.trans hcode.1) (by decide)
      · exact absurd (h.symm.trans hcode.2) (by decide)

end Text

/-! ## Kinds -/

/-- A list of kinds is read as it was written. -/
@[simp] theorem Hint.ofListText?_listText (hints : List Hint) :
    ofListText? (listText hints) = some hints := by
  have hunbroken : ∀ hint : Hint, Text.IsUnbroken hint.text.toList := by
    intro hint
    cases hint <;> decide
  rw [ofListText?, listText, Text.wordsOf_intercalate (by simpa using fun hint _ => hunbroken hint)]
  induction hints with
  | nil => rfl
  | cons hint hints ih => simp [List.mapM_cons, ih]

end TopicQuery
