import Mathlib.Data.List.TakeWhile
import TopicQuery.Fragment

/-!
Where topic map content ends. It ends at the first gap: white space with a `from`
behind it that can begin a clause list. Whether there is a gap is seen from what
stands behind it up to the end of the line; other text in that place makes no gap
of what was none, as long as it goes on with a gap of its own.
-/

namespace TopicQuery.Fragment

open Text

variable {cs : List Char}

/-- White space is next, and behind it `from` in front of a clause list. -/
def BeginsGap (cs : List Char) : Prop :=
  blankRun cs ≠ [] ∧ startsClauses (cs.drop (blankRun cs).length) = true

instance : DecidablePred BeginsGap := fun _ => inferInstanceAs (Decidable (_ ∧ _))

/-! ## The first gap -/

theorem blankRun_cons_ne_nil {c : Char} : blankRun (c :: cs) ≠ [] ↔ isBlank c = true := by
  cases h : isBlank c <;> simp [blankRun, h]

theorem not_beginsGap_nil : ¬BeginsGap [] := fun h => h.1 rfl

theorem lt_length_of_beginsGap {n : Nat} (h : BeginsGap (cs.drop n)) : n < cs.length := by
  by_contra hn
  rw [List.drop_eq_nil_of_le (Nat.le_of_not_lt hn)] at h
  exact not_beginsGap_nil h

theorem not_beginsGap_newline : ¬BeginsGap ['\n'] := fun h => absurd h.2 (by decide)

/-- Content stops in front of a gap, and nowhere else but at the end of the text. -/
theorem split_cons_eq {c : Char} (h : ¬(c = '\n' ∧ cs = [])) :
    split (c :: cs) =
      if BeginsGap (c :: cs) then (0, (blankRun (c :: cs)).length)
      else ((split cs).1 + 1, (split cs).2) := by
  rw [split, if_neg h]
  refine ite_congr (propext ?_) (fun _ => rfl) fun _ => rfl
  rw [Bool.and_eq_true, BeginsGap, blankRun_cons_ne_nil]

/-- With a gap behind it content ends at the first one. -/
theorem split_of_beginsGap {n : Nat} (h : BeginsGap (cs.drop n))
    (hfirst : ∀ i < n, ¬BeginsGap (cs.drop i)) :
    split cs = (n, (blankRun (cs.drop n)).length) := by
  induction n generalizing cs with
  | zero =>
      cases cs with
      | nil => exact absurd h not_beginsGap_nil
      | cons c cs =>
          have hlast : ¬(c = '\n' ∧ cs = []) := by
            rintro ⟨rfl, rfl⟩
            exact not_beginsGap_newline h
          rw [List.drop_zero] at h ⊢
          rw [split_cons_eq hlast, if_pos h]
  | succ n ih =>
      cases cs with
      | nil => exact absurd h not_beginsGap_nil
      | cons c cs =>
          have hlast : ¬(c = '\n' ∧ cs = []) := by
            rintro ⟨rfl, rfl⟩
            rw [List.drop_succ_cons, List.drop_nil] at h
            exact not_beginsGap_nil h
          have hhere : ¬BeginsGap (c :: cs) := hfirst 0 (Nat.succ_pos n)
          have hgap : BeginsGap (cs.drop n) := h
          have hrest := ih hgap fun i hi => hfirst (i + 1) (Nat.succ_lt_succ hi)
          rw [split_cons_eq hlast, if_neg hhere, hrest]
          rfl

/-- What is split off by more than the end of the text is split off at the first gap. -/
theorem beginsGap_of_split (h : (split cs).2 ≠ 0) :
    BeginsGap (cs.drop (split cs).1) ∧ ∀ i < (split cs).1, ¬BeginsGap (cs.drop i) := by
  induction cs with
  | nil => exact absurd rfl h
  | cons c cs ih =>
      by_cases hlast : c = '\n' ∧ cs = []
      · obtain ⟨rfl, rfl⟩ := hlast
        exact absurd rfl h
      · rw [split_cons_eq hlast] at h ⊢
        split at h
        · next hgap =>
          rw [if_pos hgap]
          exact ⟨hgap, fun i hi => absurd hi (Nat.not_lt_zero i)⟩
        · next hgap =>
          rw [if_neg hgap]
          obtain ⟨hbegins, hfirst⟩ := ih h
          refine ⟨hbegins, fun i hi => ?_⟩
          cases i with
          | zero => exact hgap
          | succ i => exact hfirst i (Nat.lt_of_succ_lt_succ hi)

/-! ## Lines of clauses -/

theorem isClauseLine_append (kept rest : List Char) :
    isClauseLine (kept ++ rest) =
      if '\n' ∈ kept then isClauseLine kept else isClauseLine kept && isClauseLine rest := by
  induction kept with
  | nil => simp [isClauseLine]
  | cons c kept ih =>
      simp only [isClauseLine, List.cons_append, List.takeWhile_cons] at ih ⊢
      by_cases hc : c = '\n'
      · simp [hc]
      · have hmem : '\n' ∈ c :: kept ↔ '\n' ∈ kept := by simp [Ne.symm hc]
        simp only [hmem, bne_iff_ne, ne_eq, hc, not_false_eq_true, if_true, List.any_cons,
          Bool.not_or]
        rw [ih]
        split <;> simp [Bool.and_assoc]

/-- A line of clauses stays one if what stands behind its beginning is replaced by one. -/
theorem isClauseLine_replace {kept old new : List Char} (h : isClauseLine (kept ++ old) = true)
    (hnew : isClauseLine new = true) : isClauseLine (kept ++ new) = true := by
  rw [isClauseLine_append] at h ⊢
  split
  · next hmem => rwa [if_pos hmem] at h
  · next hmem =>
    rw [if_neg hmem, Bool.and_eq_true] at h
    rw [h.1, hnew]
    rfl

/-- Characters that are neither marks nor the end of a line change nothing. -/
theorem isClauseLine_append_of_clean {kept : List Char}
    (h : ∀ c ∈ kept, isContentMark c = false ∧ c ≠ '\n') (rest : List Char) :
    isClauseLine (kept ++ rest) = isClauseLine rest := by
  have hclean : isClauseLine kept = true := by
    rw [isClauseLine, Bool.not_eq_true', List.any_eq_false]
    exact fun c hc => by simp [(h c ((List.takeWhile_prefix _).subset hc)).1]
  have hmem : '\n' ∉ kept := fun hmem => (h _ hmem).2 rfl
  rw [isClauseLine_append, if_neg hmem, hclean, Bool.true_and]

theorem isContentMark_of_isBlank {c : Char} (h : isBlank c = true) : isContentMark c = false := by
  rw [Bool.eq_false_iff]
  intro hmark
  simp only [isContentMark, Bool.or_eq_true, beq_iff_eq] at hmark
  rcases hmark with (rfl | rfl) | rfl <;> exact absurd h (by decide)

theorem isClauseLine_of_hasClauseLine (h : hasClauseLine cs = true) : isClauseLine cs = true := by
  induction cs with
  | nil => cases h
  | cons c cs ih =>
      obtain ⟨hblank, hrest⟩ := Bool.and_eq_true_iff.mp h
      have hline : isClauseLine cs = true := (Bool.or_eq_true_iff.mp hrest).elim id ih
      by_cases hc : c = '\n'
      · simp [isClauseLine, hc]
      · have hclean : ∀ d ∈ [c], isContentMark d = false ∧ d ≠ '\n' := by
          simp [isContentMark_of_isBlank hblank, hc]
        exact (isClauseLine_append_of_clean hclean cs).trans hline

/-- The letters of `from`, in any case, are neither marks nor white space. -/
theorem letter_of_toLower {c : Char} (h : c.toLower ∈ ['f', 'r', 'o', 'm']) :
    isContentMark c = false ∧ isBlank c = false := by
  unfold Char.toLower at h
  split at h
  · next hupper =>
    have hlow : 65 ≤ c.toNat := hupper.1
    have hhigh : c.toNat ≤ 90 := hupper.2
    constructor
    · rw [Bool.eq_false_iff]
      intro hmark
      simp only [isContentMark, Bool.or_eq_true, beq_iff_eq] at hmark
      rcases hmark with (rfl | rfl) | rfl <;> exact absurd hlow (by decide)
    · simp only [isBlank, Bool.or_eq_false_iff, Bool.and_eq_false_iff, decide_eq_false_iff_not,
        beq_eq_false_iff_ne]
      omega
  · simp only [List.mem_cons, List.not_mem_nil, or_false] at h
    rcases h with rfl | rfl | rfl | rfl <;> decide

theorem mem_of_word {word : List Char} (h : word.map Char.toLower = ['f', 'r', 'o', 'm']) {c : Char}
    (hc : c ∈ word) : isContentMark c = false ∧ isBlank c = false :=
  letter_of_toLower (h ▸ List.mem_map_of_mem hc)

theorem hasClauseLine_append_of_blank {blanks : List Char} (hne : blanks ≠ [])
    (h : ∀ c ∈ blanks, isBlank c = true) (hline : isClauseLine cs = true) :
    hasClauseLine (blanks ++ cs) = true := by
  induction blanks with
  | nil => exact absurd rfl hne
  | cons b blanks ih =>
      rw [List.cons_append, hasClauseLine, h b List.mem_cons_self, Bool.true_and]
      cases blanks with
      | nil => simp [hline]
      | cons b' blanks =>
          rw [ih (by simp) fun c hc => h c (List.mem_cons_of_mem _ hc), Bool.or_true]

/-- In front of a gap there is a line of clauses. -/
theorem hasClauseLine_of_beginsGap (h : BeginsGap cs) : hasClauseLine cs = true := by
  obtain ⟨hne, hstarts⟩ := h
  have hblanks : ∀ c ∈ blankRun cs, isBlank c = true := fun c hc => List.mem_takeWhile_imp hc
  obtain ⟨hword, hline⟩ := Bool.and_eq_true_iff.mp hstarts
  have hbehind : isClauseLine (cs.drop (blankRun cs).length) = true := by
    rw [← List.take_append_drop 4 (cs.drop (blankRun cs).length), isClauseLine_append_of_clean]
    · exact isClauseLine_of_hasClauseLine hline
    · intro c hc
      obtain ⟨hmark, hblank⟩ := mem_of_word (beq_iff_eq.mp hword) hc
      exact ⟨hmark, by rintro rfl; exact absurd hblank (by decide)⟩
  have hsplit : blankRun cs ++ cs.drop (blankRun cs).length = cs :=
    List.prefix_iff_eq_append.mp (List.takeWhile_prefix _)
  rw [← hsplit]
  exact hasClauseLine_append_of_blank hne hblanks hbehind

/-! ## Replacing what stands behind content -/

/-- Behind a gap any other text makes no line of clauses of what was none. -/
theorem hasClauseLine_replace {n : Nat} {new : List Char} (hgap : BeginsGap (cs.drop n))
    (h : hasClauseLine (cs.take n ++ new) = true) : hasClauseLine cs = true := by
  induction n generalizing cs with
  | zero => exact hasClauseLine_of_beginsGap hgap
  | succ n ih =>
      cases cs with
      | nil => exact absurd hgap not_beginsGap_nil
      | cons c cs =>
          obtain ⟨hblank, hrest⟩ := Bool.and_eq_true_iff.mp h
          have hbehind : isClauseLine cs = true ∨ hasClauseLine cs = true := by
            refine (Bool.or_eq_true_iff.mp hrest).imp (fun hline => ?_) fun hline => ih hgap hline
            have hold := isClauseLine_of_hasClauseLine (hasClauseLine_of_beginsGap hgap)
            have hwhole := isClauseLine_replace hline hold
            rwa [List.drop_succ_cons, List.take_append_drop] at hwhole
          rw [hasClauseLine, hblank, Bool.true_and, Bool.or_eq_true]
          exact hbehind

/-- Behind a gap another text that begins with a blank makes no `from` of what was none. -/
theorem startsClauses_replace {n : Nat} {new : List Char} (hgap : BeginsGap (cs.drop n))
    (h : startsClauses (cs.take n ++ ' ' :: new) = true) : startsClauses cs = true := by
  obtain ⟨hword, hline⟩ := Bool.and_eq_true_iff.mp h
  have hlength : (cs.take n).length = n :=
    List.length_take_of_le (lt_length_of_beginsGap hgap).le
  by_cases hn : 4 ≤ n
  · obtain ⟨m, rfl⟩ := Nat.exists_eq_add_of_le hn
    have htake : (cs.take (4 + m) ++ ' ' :: new).take 4 = cs.take 4 := by
      rw [List.take_append_of_le_length (by omega), List.take_take, Nat.min_eq_left hn]
    have hdrop : (cs.take (4 + m) ++ ' ' :: new).drop 4 = (cs.drop 4).take m ++ ' ' :: new := by
      rw [List.drop_append_of_le_length (by omega), List.drop_take, Nat.add_sub_cancel_left]
    rw [htake] at hword
    rw [hdrop] at hline
    rw [← List.drop_drop] at hgap
    rw [startsClauses, hword, hasClauseLine_replace hgap hline]
    rfl
  · -- the blank would be a letter of the word
    have hmem : ' ' ∈ (cs.take n ++ ' ' :: new).take 4 := by
      rw [List.take_append, List.take_of_length_le (by omega), hlength]
      obtain ⟨k, hk⟩ : ∃ k, 4 - n = k + 1 := ⟨3 - n, by omega⟩
      simp [hk]
    exact absurd (mem_of_word (beq_iff_eq.mp hword) hmem).2 (by decide)

theorem blankRun_of_startsClauses (h : startsClauses cs = true) : blankRun cs = [] := by
  cases cs with
  | nil => rfl
  | cons c cs =>
      have hword := beq_iff_eq.mp (Bool.and_eq_true_iff.mp h).1
      have hc := (mem_of_word hword List.mem_cons_self).2
      rw [blankRun, List.takeWhile_cons_of_neg (by simp [hc])]

/-- A gap goes on with white space, or with the word behind it. -/
theorem beginsGap_cons {c : Char} :
    BeginsGap (c :: cs) ↔ isBlank c = true ∧ (BeginsGap cs ∨ startsClauses cs = true) := by
  rw [BeginsGap, blankRun_cons_ne_nil]
  refine and_congr_right fun hc => ?_
  have hdrop : (c :: cs).drop (blankRun (c :: cs)).length = cs.drop (blankRun cs).length := by
    rw [blankRun, List.takeWhile_cons_of_pos hc]
    rfl
  rw [hdrop]
  constructor
  · intro h
    by_cases hne : blankRun cs = []
    · exact .inr (by rwa [hne] at h)
    · exact .inl ⟨hne, h⟩
  · rintro (⟨-, h⟩ | h)
    · exact h
    · rwa [blankRun_of_startsClauses h]

/-- Behind a gap another text that begins with a blank makes no gap of what was none. -/
theorem beginsGap_replace {n : Nat} {new : List Char} (hgap : BeginsGap (cs.drop n))
    (h : BeginsGap (cs.take n ++ ' ' :: new)) : BeginsGap cs := by
  induction n generalizing cs with
  | zero => exact hgap
  | succ n ih =>
      cases cs with
      | nil => exact absurd hgap not_beginsGap_nil
      | cons c cs =>
          obtain ⟨hblank, hbehind⟩ := beginsGap_cons.mp h
          exact beginsGap_cons.mpr ⟨hblank, hbehind.imp (ih hgap) (startsClauses_replace hgap)⟩

/-- The content of a text that goes on is content in front of another `from` as well. -/
theorem split_replace (h : (split cs).2 ≠ 0) (rest : List Char) :
    split (cs.take (split cs).1 ++ " from \n".toList ++ rest) = ((split cs).1, 1) := by
  obtain ⟨hgap, hfirst⟩ := beginsGap_of_split h
  generalize (split cs).1 = n at hgap hfirst ⊢
  have hlength : (cs.take n).length = n :=
    List.length_take_of_le (lt_length_of_beginsGap hgap).le
  have htext : ∀ i ≤ n, (cs.take n ++ " from \n".toList ++ rest).drop i =
      (cs.drop i).take (n - i) ++ ' ' :: ("from \n".toList ++ rest) := by
    intro i hi
    rw [List.append_assoc, List.drop_append_of_le_length (hi.trans_eq hlength.symm), List.drop_take]
    rfl
  have hhere : (cs.take n ++ " from \n".toList ++ rest).drop n = " from \n".toList ++ rest := by
    rw [htext n le_rfl, Nat.sub_self]
    rfl
  have hnew : BeginsGap (" from \n".toList ++ rest) := ⟨by simp [blankRun, isBlank], by rfl⟩
  rw [split_of_beginsGap (n := n) (hhere ▸ hnew) fun i hi hearlier => ?_, hhere]
  · rfl
  · refine hfirst i hi (beginsGap_replace (n := n - i) ?_ (htext i hi.le ▸ hearlier))
    rwa [List.drop_drop, Nat.add_sub_cancel' hi.le]

end TopicQuery.Fragment
