import Mathlib.Data.List.Infix
import TopicQuery.Proofs.Spelled
import TopicQuery.Rendering

/-!
The ends of texts. What is written for a statement without a condition loses every
`from` at its end that has a blank behind it, whether the statement or the topic
map content in it put the word there; and topic map content that is read again
loses a `from` at its end that has white space in front of it.
-/

namespace TopicQuery

open Text

/-! ## Trimming -/

namespace Style

/-- The text that is taken off the end. -/
def finalFrom : List Char := "from ".toList

theorem withoutFinalFrom_append (cs : List Char) :
    withoutFinalFrom (cs ++ finalFrom) = withoutFinalFrom cs := by
  have hfrom : finalFrom.length = 5 := rfl
  have hlength : (cs ++ finalFrom).length = cs.length + 5 := by rw [List.length_append, hfrom]
  rw [withoutFinalFrom, hlength, Nat.add_sub_cancel, List.take_left, List.drop_left, if_pos]
  exact ⟨Nat.le_add_left 5 _, rfl⟩

theorem withoutFinalFrom_of_not {cs : List Char} (h : ¬finalFrom <:+ cs) :
    withoutFinalFrom cs = cs := by
  rw [withoutFinalFrom]
  refine if_neg ?_
  rintro ⟨-, hdrop⟩
  exact h ⟨cs.take (cs.length - 5),
    (congrArg (cs.take (cs.length - 5) ++ ·) hdrop.symm).trans (List.take_append_drop _ cs)⟩

/-- The text taken off the end does not begin inside what stands in front. -/
def Stops (lead : List Char) : Prop := ∀ cs, finalFrom <:+ lead ++ cs → finalFrom <:+ cs

/-- A text that ends with a blank stops the trimming, unless the word stands in front of the blank. -/
theorem stops_of_end (front : List Char) {c : Char} (hc : c ≠ 'm') : Stops (front ++ [c, ' ']) := by
  rintro cs ⟨before, hbefore⟩
  obtain ⟨between, hlead, hfrom⟩ | ⟨between, -, hcs⟩ := List.append_eq_append_iff.mp hbefore
  · have hprefix : between.reverse <+: ' ' :: c :: front.reverse := by
      refine ⟨before.reverse, ?_⟩
      rw [← List.reverse_append, ← hlead]
      simp
    have hinit : between ∈ finalFrom.inits := (List.mem_inits _ _).mpr ⟨cs, hfrom.symm⟩
    have hblank : ∀ xs ∈ finalFrom.inits, xs.reverse.head? = some ' ' →
        xs.reverse.tail.head? = some 'm' := by decide
    have hnil : between = [] := by
      refine List.reverse_eq_nil_iff.mp ?_
      cases hreverse : between.reverse with
      | nil => rfl
      | cons d ds =>
          rw [hreverse, List.cons_prefix_cons] at hprefix
          obtain ⟨rfl, hds⟩ := hprefix
          have hhead := hblank between hinit (by rw [hreverse]; rfl)
          rw [hreverse, List.tail_cons] at hhead
          obtain ⟨e, rfl⟩ : ∃ e, ds = 'm' :: e := by
            cases ds with
            | nil => cases hhead
            | cons e es => exact ⟨es, by rw [Option.some.inj hhead]⟩
          exact absurd (List.cons_prefix_cons.mp hds).1.symm hc
    rw [hfrom, hnil]
    exact List.suffix_rfl
  · exact ⟨between, hcs.symm⟩

/-- What stands in front of a text stays as it is. -/
theorem withoutFinalFrom_lead {lead : List Char} (hlead : Stops lead) (cs : List Char) :
    ∃ kept, withoutFinalFrom (lead ++ cs) = lead ++ kept ∧ kept <+: cs ∧
      (kept = cs ↔ ¬finalFrom <:+ cs) := by
  induction hn : cs.length using Nat.strong_induction_on generalizing cs with
  | _ n ih =>
  subst hn
  by_cases h : finalFrom <:+ cs
  · obtain ⟨shorter, rfl⟩ := h
    obtain ⟨kept, hkept, hprefix, -⟩ := ih shorter.length (by simp [finalFrom]) shorter rfl
    refine ⟨kept, ?_, hprefix.trans (List.prefix_append _ _), ?_⟩
    · rw [← List.append_assoc, withoutFinalFrom_append, hkept]
    · have hlength := hprefix.length_le
      refine iff_of_false (fun heq => ?_) (fun hnot => hnot (List.suffix_append _ _))
      have := congrArg List.length heq
      simp [finalFrom] at this
      omega
  · exact ⟨cs, withoutFinalFrom_of_not fun hall => h (hlead cs hall), List.prefix_rfl, by simp [h]⟩

end Style

/-! ## Topic map content -/

namespace Fragment

/-- The text ends with white space and `from`, in any case. -/
def EndsBeforeClauses (cs : List Char) : Prop :=
  ∃ b w, isBlank b = true ∧ w.map Char.toLower = ['f', 'r', 'o', 'm'] ∧ (b :: w) <:+ cs

variable {c : Char} {cs : List Char}

theorem isClauseLine_newline (cs : List Char) : isClauseLine (cs ++ ['\n']) = isClauseLine cs := by
  have htake : (cs ++ ['\n']).takeWhile (· != '\n') = cs.takeWhile (· != '\n') := by
    induction cs with
    | nil => rfl
    | cons c cs ih => simp only [List.cons_append, List.takeWhile_cons, ih]
  rw [isClauseLine, htake, isClauseLine]

/-- A newline at the end makes a line of clauses only where nothing stood before. -/
theorem hasClauseLine_newline (hne : cs ≠ []) :
    hasClauseLine (cs ++ ['\n']) = hasClauseLine cs := by
  induction cs with
  | nil => exact absurd rfl hne
  | cons c cs ih =>
      cases cs with
      | nil => cases h : isBlank c <;> simp [hasClauseLine, h, isClauseLine]
      | cons d ds =>
          have hrest := ih (by simp)
          have hcons : ∀ ds, hasClauseLine (c :: ds) =
              (isBlank c && (isClauseLine ds || hasClauseLine ds)) := fun _ => rfl
          rw [List.cons_append, hcons, hcons, hrest, isClauseLine_newline]

/-- With a newline behind it a text begins with clauses if it did before or is `from` alone. -/
theorem startsClauses_newline (cs : List Char) :
    startsClauses (cs ++ ['\n']) =
      (startsClauses cs || cs.map Char.toLower == ['f', 'r', 'o', 'm']) := by
  match cs with
  | [] => decide
  | [c] => simp [startsClauses]
  | [c, d] => simp [startsClauses]
  | [c, d, e] =>
      have hnewline : Char.toLower '\n' = '\n' := by decide
      simp [startsClauses, hnewline]
  | [c, d, e, f] => simp [startsClauses, hasClauseLine, isClauseLine, isBlank]
  | c :: d :: e :: f :: g :: cs =>
      have hline : hasClauseLine (g :: (cs ++ ['\n'])) = hasClauseLine (g :: cs) :=
        @hasClauseLine_newline (g :: cs) (by simp)
      simp [startsClauses, hline]

theorem endsBeforeClauses_cons :
    EndsBeforeClauses (c :: cs) ↔
      EndsBeforeClauses cs ∨ isBlank c = true ∧ cs.map Char.toLower = ['f', 'r', 'o', 'm'] := by
  constructor
  · rintro ⟨b, w, hb, hw, hsuffix⟩
    obtain heq | hsuffix := List.suffix_cons_iff.mp hsuffix
    · obtain ⟨rfl, rfl⟩ := List.cons.inj heq
      exact .inr ⟨hb, hw⟩
    · exact .inl ⟨b, w, hb, hw, hsuffix⟩
  · rintro (⟨b, w, hb, hw, hsuffix⟩ | ⟨hc, hcs⟩)
    · exact ⟨b, w, hb, hw, hsuffix.trans (List.suffix_cons _ _)⟩
    · exact ⟨c, cs, hc, hcs, List.suffix_rfl⟩

/-- A split that leaves nothing between white space and the end leaves a text of four characters. -/
theorem endsBeforeClauses_of_run (hc : isBlank c = true)
    (h : ((c :: cs).drop (blankRun (c :: cs)).length).map Char.toLower = ['f', 'r', 'o', 'm']) :
    EndsBeforeClauses (c :: cs) := by
  induction cs generalizing c with
  | nil => simp [blankRun, hc] at h
  | cons d cs ih =>
      rw [blankRun, List.takeWhile_cons_of_pos hc, List.length_cons, List.drop_succ_cons] at h
      by_cases hd : isBlank d = true
      · exact endsBeforeClauses_cons.mpr (.inl (ih hd h))
      · rw [List.takeWhile_cons_of_neg hd] at h
        exact ⟨c, d :: cs, hc, h, List.suffix_rfl⟩

/-- The split of a text that begins with one more character. -/
theorem split_cons (h : ¬(c = '\n' ∧ cs = [])) :
    split (c :: cs) =
      if isBlank c && startsClauses ((c :: cs).drop (blankRun (c :: cs)).length) then
        (0, (blankRun (c :: cs)).length)
      else ((split cs).1 + 1, (split cs).2) := by
  rw [split, if_neg h]

theorem split_newline_le (cs : List Char) : (split (cs ++ ['\n'])).1 ≤ cs.length := by
  induction cs with
  | nil => decide
  | cons c cs ih =>
      rw [List.cons_append, split_cons (by simp)]
      split
      · exact Nat.zero_le _
      · exact Nat.succ_le_succ ih

/-- Nothing follows a split that takes the whole text. -/
theorem split_newline_gap (h : (split (cs ++ ['\n'])).1 = cs.length) :
    (split (cs ++ ['\n'])).2 = 0 := by
  induction cs with
  | nil => decide
  | cons c cs ih =>
      rw [List.cons_append, split_cons (by simp)] at h ⊢
      split at h
      · cases h
      · next hsplit =>
        rw [if_neg hsplit]
        exact ih (Nat.succ.inj h)

/-- White space in front of a text that is not white space alone. -/
theorem drop_blankRun_newline (cs : List Char) :
    (cs ++ ['\n']).drop (blankRun (cs ++ ['\n'])).length =
      if cs.drop (blankRun cs).length = [] then []
      else cs.drop (blankRun cs).length ++ ['\n'] := by
  induction cs with
  | nil => decide
  | cons c cs ih =>
      by_cases hc : isBlank c = true
      · simpa [blankRun, List.takeWhile_cons_of_pos hc] using ih
      · simp [blankRun, hc]

/-- A character that is written `f` in lower case. -/
theorem eq_of_toLower (h : c.toLower = 'f') : c = 'f' ∨ c = 'F' := by
  unfold Char.toLower at h
  split at h
  · next hupper =>
    have hhigh : c.toNat ≤ 90 := hupper.2
    have hval : (c.toNat + 32) % 4294967296 = 102 := by
      simpa [UInt32.toNat_add] using congrArg (fun d => d.val.toNat) h
    have hnat : c.val.toNat = 'F'.val.toNat := by
      simp
      omega
    exact .inr (Char.ext (UInt32.toNat_inj.mp hnat))
  · exact .inl h

/-- White space in front of `from` ends where the word begins. -/
theorem drop_blankRun_of_word (hc : isBlank c = true)
    (h : cs.map Char.toLower = ['f', 'r', 'o', 'm']) :
    (c :: cs).drop (blankRun (c :: cs)).length = cs := by
  cases cs with
  | nil => cases h
  | cons d cs =>
      have hd : isBlank d = false := by
        obtain rfl | rfl := eq_of_toLower (List.cons.inj h).1 <;> decide
      simp [blankRun, hc, hd]

/-- With a newline behind it content that ends with white space and `from` is split there at last. -/
theorem split_newline_lt (h : EndsBeforeClauses cs) : (split (cs ++ ['\n'])).1 < cs.length := by
  induction cs with
  | nil =>
      obtain ⟨b, w, -, -, hsuffix⟩ := h
      cases List.suffix_nil.mp hsuffix
  | cons c cs ih =>
      rw [List.cons_append, split_cons (by simp)]
      obtain hcs | ⟨hc, hword⟩ := endsBeforeClauses_cons.mp h
      · split
        · exact Nat.succ_pos _
        · exact Nat.succ_lt_succ (ih hcs)
      · have hne : cs ≠ [] := by
          rintro rfl
          cases hword
        rw [← List.cons_append, drop_blankRun_newline, drop_blankRun_of_word hc hword, if_neg hne,
          startsClauses_newline, hword, hc]
        simp

/-- Other content that was taken whole is taken whole with a newline behind it. -/
theorem split_newline_of_not (hwhole : (split cs).1 = cs.length) (h : ¬EndsBeforeClauses cs) :
    (split (cs ++ ['\n'])).1 = cs.length := by
  induction cs with
  | nil => decide
  | cons c cs ih =>
      have hlast : ¬(c = '\n' ∧ cs = []) := by
        rintro ⟨rfl, rfl⟩
        simp [split] at hwhole
      rw [split_cons hlast] at hwhole
      split at hwhole
      · cases hwhole
      next hstarts =>
      have hrest := ih (Nat.succ.inj hwhole) fun hcs => h (endsBeforeClauses_cons.mpr (.inl hcs))
      rw [List.cons_append, split_cons (by simp), ← List.cons_append, drop_blankRun_newline,
        if_neg, List.length_cons, hrest]
      rw [Bool.and_eq_true, not_and, Bool.not_eq_true] at hstarts ⊢
      intro hc
      split
      · rfl
      · rw [startsClauses_newline, hstarts hc, Bool.false_or, beq_eq_false_iff_ne]
        exact fun hword => h (endsBeforeClauses_of_run hc hword)

end Fragment

end TopicQuery
