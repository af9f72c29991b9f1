import TopicQuery.Failure
import TopicQuery.Proofs.Inserted.Split

/-!
Topic map content ends where it first may: at the end of the text, in front of a newline that
ends the text, or in front of white space and a `from` that can begin a clause list. The
places are byte offsets, and what is read behind `insert` is the content up to such a place.
-/

namespace TopicQuery

open Text

namespace Fragment

/-! ## Byte offsets -/

/-- The byte offset stands between two characters of a text, or at one of its ends. -/
def IsBoundary (cs : List Char) (offset : Nat) : Prop :=
  ∃ front back, cs = front ++ back ∧ byteSize front = offset

variable {cs front back : List Char}

theorem byteSize_eq_zero (h : byteSize cs = 0) : cs = [] := by
  cases cs with
  | nil => rfl
  | cons c cs =>
      have hsize := c.utf8Size_pos
      rw [byteSize] at h
      omega

theorem dropBytes?_byteSize (front back : List Char) :
    dropBytes? (byteSize front) (front ++ back) = some back := by
  induction front with
  | nil => simp [byteSize, dropBytes?]
  | cons c front ih =>
      have hsize := c.utf8Size_pos
      obtain ⟨n, hn⟩ : ∃ n, c.utf8Size + byteSize front = n + 1 :=
        ⟨c.utf8Size + byteSize front - 1, by omega⟩
      rw [byteSize, hn, List.cons_append, dropBytes?, if_pos (by omega),
        show n + 1 - c.utf8Size = byteSize front by omega, ih]

/-- Of two places in a text the one with the smaller offset comes first. -/
theorem eq_append_of_byteSize_le {front' back' : List Char} (h : front ++ back = front' ++ back')
    (hle : byteSize front ≤ byteSize front') : ∃ between, front' = front ++ between ∧
      back = between ++ back' := by
  obtain ⟨between, hfront, hback⟩ | ⟨between, hfront, hback⟩ := List.append_eq_append_iff.mp h
  · exact ⟨between, hfront, hback⟩
  · rw [hfront, byteSize_append] at hle
    obtain rfl : between = [] := byteSize_eq_zero (by omega)
    exact ⟨[], by simpa using hfront.symm, by simpa using hback.symm⟩

/-! ## Gaps -/

/-- White space, and behind it `from` in front of white space that a line without content marks follows. -/
structure IsGap (gap rest : List Char) : Prop where
  nonempty : gap ≠ []
  blank : ∀ c ∈ gap, isBlank c = true
  /-- The white space may be cut anywhere behind its first character. -/
  clauses : ∃ word blanks line, rest = word ++ (blanks ++ line) ∧
    word.map Char.toLower = ['f', 'r', 'o', 'm'] ∧ blanks ≠ [] ∧
    (∀ c ∈ blanks, isBlank c = true) ∧ ∀ c ∈ line.takeWhile (· ≠ '\n'), c ∉ ['"', '.', '#']

theorem isClauseLine_iff :
    isClauseLine cs = true ↔ ∀ c ∈ cs.takeWhile (· ≠ '\n'), c ∉ ['"', '.', '#'] := by
  have hline : (fun c : Char => c != '\n') = fun c => decide (c ≠ '\n') := by
    funext c
    rw [Bool.eq_iff_iff]
    simp
  rw [isClauseLine, Bool.not_eq_true', List.any_eq_false, hline]
  simp [isContentMark, or_assoc]

theorem hasClauseLine_iff : hasClauseLine cs = true ↔ ∃ blanks line, cs = blanks ++ line ∧
    blanks ≠ [] ∧ (∀ c ∈ blanks, isBlank c = true) ∧ isClauseLine line = true := by
  constructor
  · intro h
    induction cs with
    | nil => cases h
    | cons c cs ih =>
        obtain ⟨hblank, hrest⟩ := Bool.and_eq_true_iff.mp h
        obtain hline | hlater := Bool.or_eq_true_iff.mp hrest
        · exact ⟨[c], cs, rfl, by simp, by simpa using hblank, hline⟩
        · obtain ⟨blanks, line, rfl, -, hblanks, hline⟩ := ih hlater
          exact ⟨c :: blanks, line, rfl, by simp, List.forall_mem_cons.mpr ⟨hblank, hblanks⟩, hline⟩
  · rintro ⟨blanks, line, rfl, hne, hblanks, hline⟩
    exact hasClauseLine_append_of_blank hne hblanks hline

theorem startsClauses_iff : startsClauses cs = true ↔ ∃ word blanks line,
    cs = word ++ (blanks ++ line) ∧ word.map Char.toLower = ['f', 'r', 'o', 'm'] ∧ blanks ≠ [] ∧
      (∀ c ∈ blanks, isBlank c = true) ∧ isClauseLine line = true := by
  rw [startsClauses, Bool.and_eq_true, beq_iff_eq, hasClauseLine_iff]
  constructor
  · rintro ⟨hword, blanks, line, hrest, hclauses⟩
    exact ⟨cs.take 4, blanks, line, by rw [← hrest, List.take_append_drop], hword, hclauses⟩
  · rintro ⟨word, blanks, line, rfl, hword, hclauses⟩
    have hlength : word.length = 4 := by simpa using congrArg List.length hword
    rw [List.take_left' hlength, List.drop_left' hlength]
    exact ⟨hword, blanks, line, rfl, hclauses⟩

/-- White space in front of what is none is the longest run of it. -/
theorem IsGap.blankRun_eq {gap rest : List Char} (h : IsGap gap rest) :
    blankRun (gap ++ rest) = gap := by
  obtain ⟨word, blanks, line, rfl, hword, -⟩ := h.clauses
  obtain ⟨c, word, rfl⟩ := List.exists_cons_of_ne_nil (l := word) (by rintro rfl; cases hword)
  have hc : isBlank c = false := (mem_of_word hword List.mem_cons_self).2
  rw [blankRun, List.takeWhile_append_of_pos h.blank, List.cons_append,
    List.takeWhile_cons_of_neg (by simp [hc]), List.append_nil]

/-- A text begins with a gap exactly if a split in two shows it to. -/
theorem beginsGap_append {gap rest : List Char} (hgap : blankRun (gap ++ rest) = gap) :
    BeginsGap (gap ++ rest) ↔ IsGap gap rest := by
  rw [BeginsGap, hgap, List.drop_left, startsClauses_iff]
  simp only [isClauseLine_iff]
  constructor
  · rintro ⟨hne, hclauses⟩
    have hblank : ∀ c ∈ gap, isBlank c = true := by
      intro c hc
      rw [← hgap] at hc
      exact List.mem_takeWhile_imp hc
    exact ⟨hne, hblank, hclauses⟩
  · intro h
    exact ⟨h.nonempty, h.clauses⟩

/-! ## Where content may end -/

/-- Content may end in front of this text, and as many characters lie between it and the query. -/
inductive CanEnd : List Char → Nat → Prop
  | atEnd : CanEnd [] 0
  | newline : CanEnd ['\n'] 0
  | gap {cs : List Char} (h : BeginsGap cs) : CanEnd cs (blankRun cs).length

/-- Content ends where it may, and nowhere before. -/
theorem split_least (cs : List Char) :
    CanEnd (cs.drop (split cs).1) (split cs).2 ∧ ∀ i < (split cs).1, ∀ n, ¬CanEnd (cs.drop i) n := by
  induction cs with
  | nil => exact ⟨.atEnd, fun i hi => absurd hi (Nat.not_lt_zero i)⟩
  | cons c cs ih =>
      by_cases hlast : c = '\n' ∧ cs = []
      · obtain ⟨rfl, rfl⟩ := hlast
        exact ⟨.newline, fun i hi => absurd hi (Nat.not_lt_zero i)⟩
      · rw [split_cons_eq hlast]
        split
        · next hgap => exact ⟨.gap hgap, fun i hi => absurd hi (Nat.not_lt_zero i)⟩
        · next hgap =>
          refine ⟨ih.1, fun i hi n hend => ?_⟩
          cases i with
          | zero =>
              generalize htext : (c :: cs).drop 0 = text at hend
              obtain rfl : c :: cs = text := htext
              cases hend with
              | newline => exact hlast ⟨rfl, rfl⟩
              | gap h => exact hgap h
          | succ i => exact ih.2 i (Nat.lt_of_succ_lt_succ hi) n hend

/--
Content may end at the first offset, and the query goes on at the second: both are the end of
the text or the place in front of its final newline, or a gap lies between them.
-/
inductive Admits (cs : List Char) : Nat → Nat → Prop
  | atEnd : Admits cs (byteSize cs) (byteSize cs)
  | newline {front : List Char} (h : cs = front ++ ['\n']) :
      Admits cs (byteSize front) (byteSize front)
  | gap {front gap rest : List Char} (h : cs = front ++ (gap ++ rest)) (hgap : IsGap gap rest) :
      Admits cs (byteSize front) (byteSize (front ++ gap))

theorem admits_of_canEnd {n : Nat} (h : CanEnd back n) :
    Admits (front ++ back) (byteSize front) (byteSize (front ++ back.take n)) := by
  cases h with
  | atEnd =>
      rw [List.take_nil, List.append_nil]
      exact .atEnd
  | newline =>
      rw [List.take_zero, List.append_nil]
      exact .newline rfl
  | gap h =>
      have hsplit : blankRun back ++ back.drop (blankRun back).length = back :=
        List.prefix_iff_eq_append.mp (List.takeWhile_prefix _)
      have hrun : back.take (blankRun back).length = blankRun back :=
        (List.prefix_iff_eq_take.mp (List.takeWhile_prefix _)).symm
      rw [hrun]
      have hgap : IsGap (blankRun back) (back.drop (blankRun back).length) :=
        (beginsGap_append (by rw [hsplit])).mp (by rwa [hsplit])
      exact .gap (by rw [hsplit]) hgap

theorem canEnd_of_admits {offset resume : Nat} (h : Admits cs offset resume) :
    ∃ front back n, cs = front ++ back ∧ byteSize front = offset ∧ CanEnd back n := by
  cases h with
  | atEnd => exact ⟨cs, [], 0, (List.append_nil cs).symm, rfl, .atEnd⟩
  | @newline front h => exact ⟨front, ['\n'], 0, h, rfl, .newline⟩
  | @gap front gap rest h hgap =>
      exact ⟨front, gap ++ rest, _, h, rfl, .gap ((beginsGap_append hgap.blankRun_eq).mpr hgap)⟩

/-- The content behind an offset, the gap behind it, and what follows. -/
theorem splitAt?_eq (front back : List Char) : ∃ content gap rest, back = content ++ (gap ++ rest) ∧
    split back = (content.length, gap.length) ∧
    splitAt? (front ++ back) (byteSize front) =
      some (byteSize (front ++ content), byteSize (front ++ content ++ gap)) := by
  obtain ⟨hend, -⟩ := split_least back
  have hcontent : (split back).1 ≤ back.length := by
    by_contra hlong
    have hlast := (split_least back).2 back.length (by omega) 0
    rw [List.drop_length] at hlast
    exact hlast .atEnd
  have hgap : (split back).2 ≤ (back.drop (split back).1).length := by
    generalize (split back).2 = n, back.drop (split back).1 = rest at hend
    cases hend with
    | atEnd => exact Nat.zero_le _
    | newline => exact Nat.zero_le _
    | gap _ => exact (List.takeWhile_prefix _).length_le
  refine ⟨back.take (split back).1, (back.drop (split back).1).take (split back).2,
    (back.drop (split back).1).drop (split back).2, ?_, ?_, ?_⟩
  · rw [List.take_append_drop, List.take_append_drop]
  · rw [List.length_take_of_le hcontent, List.length_take_of_le hgap]
  · rw [splitAt?, dropBytes?_byteSize, Option.map_some]
    simp only [byteSize_append]

/-- Content that begins at a place of a text ends at the first place where it may. -/
theorem splitAt?_admits (front back : List Char) :
    ∃ stop resume, splitAt? (front ++ back) (byteSize front) = some (stop, resume) ∧
      byteSize front ≤ stop ∧ stop ≤ resume ∧ resume ≤ byteSize (front ++ back) ∧
      Admits (front ++ back) stop resume ∧
      ∀ offset other, byteSize front ≤ offset → offset < stop → ¬Admits (front ++ back) offset other := by
  obtain ⟨content, gap, rest, rfl, hsplit, heq⟩ := splitAt?_eq front back
  obtain ⟨hend, hfirst⟩ := split_least (content ++ (gap ++ rest))
  rw [hsplit] at hend hfirst
  refine ⟨_, _, heq, by simp, by simp, by simp, ?_, ?_⟩
  · rw [List.drop_left] at hend
    have hadmits : Admits (front ++ content ++ (gap ++ rest)) _ _ := admits_of_canEnd hend
    rwa [List.take_left, List.append_assoc front] at hadmits
  · rintro offset other hstart hstop hadmits
    obtain ⟨front', back', n, hcs, rfl, hend'⟩ := canEnd_of_admits hadmits
    obtain ⟨between, rfl, hbehind⟩ := eq_append_of_byteSize_le hcs hstart
    refine hfirst between.length ?_ n (by rwa [hbehind, List.drop_left])
    by_contra hlong
    -- the place would lie behind the content
    have hfront : content <+: between := List.prefix_of_prefix_length_le
      (List.prefix_append content (gap ++ rest)) (hbehind ▸ List.prefix_append between back')
      (Nat.le_of_not_lt hlong)
    obtain ⟨more, rfl⟩ := hfront
    simp only [byteSize_append] at hstop
    omega

end Fragment

/-! ## What is read behind `insert` -/

open Fragment

/-- Topic map content is read up to where it ends, unless no white space stands in front of it. -/
theorem Scan.content_cases (front rest : List Char) (place : Position) :
    rest = [] ∧ ofText .content place rest = done ∨
    (∃ c behind, rest = c :: behind ∧ isBlank c = false ∧
      ofText .content place rest = broken (.noBlankAfterInsert c) place) ∨
    ∃ blanks content gap behind, rest = blanks ++ (content ++ (gap ++ behind)) ∧ blanks ≠ [] ∧
      splitAt? (front ++ rest) (byteSize (front ++ blanks)) =
        some (byteSize (front ++ blanks ++ content), byteSize (front ++ blanks ++ content ++ gap)) ∧
      ofText .content place rest = cons ⟨.fragment (String.ofList content), place.advance blanks⟩
        (ofText .query (place.advance (blanks ++ (content ++ gap))) behind) := by
  cases rest with
  | nil =>
      rw [ofText.eq_def]
      exact .inl ⟨rfl, rfl⟩
  | cons c rest =>
      by_cases hc : isBlank c = true
      · obtain ⟨content, gap, behind, hrest, hsplit, hplaces⟩ :=
          splitAt?_eq (front ++ c :: blankRun rest) (rest.drop (blankRun rest).length)
        have hblanks : blankRun rest ++ rest.drop (blankRun rest).length = rest :=
          List.prefix_iff_eq_append.mp (List.takeWhile_prefix _)
        refine .inr (.inr ⟨c :: blankRun rest, content, gap, behind, ?_, by simp, ?_, ?_⟩)
        · rw [← hrest, List.cons_append, hblanks]
        · rwa [List.append_assoc, List.cons_append, hblanks] at hplaces
        · rw [ofText.eq_def .content]
          simp only [hc, if_true, hsplit]
          rw [hrest, List.take_left, ← List.append_assoc, ← List.length_append, List.take_left,
            List.drop_left]
          simp only [Position.advance_append]
      · rw [Bool.not_eq_true] at hc
        rw [ofText.eq_def]
        exact .inr (.inl ⟨c, rest, rfl, hc, if_neg (by simp [hc])⟩)

/--
Topic map content that begins at a character of a text ends at the first place behind it where
content may end. So what is read behind `insert` is cut there, and nothing can go wrong with
it but that no white space stands in front of it: no text breaks an invariant.
-/
theorem content_ends (text : String) :
    (∀ start, IsBoundary text.toList start →
      ∃ stop resume, splitAt? text.toList start = some (stop, resume) ∧
        start ≤ stop ∧ stop ≤ resume ∧ resume ≤ byteSize text.toList ∧
        Admits text.toList stop resume ∧
        ∀ offset other, start ≤ offset → offset < stop → ¬Admits text.toList offset other) ∧
    (∀ front rest place, text.toList = front ++ rest →
      rest = [] ∧ Scan.ofText .content place rest = .done ∨
      (∃ c behind, rest = c :: behind ∧ isBlank c = false ∧
        Scan.ofText .content place rest = .broken (.noBlankAfterInsert c) place) ∨
      ∃ blanks content gap behind, rest = blanks ++ (content ++ (gap ++ behind)) ∧ blanks ≠ [] ∧
        splitAt? text.toList (byteSize (front ++ blanks)) = some
          (byteSize (front ++ blanks ++ content), byteSize (front ++ blanks ++ content ++ gap)) ∧
        Scan.ofText .content place rest =
          .cons ⟨.fragment (String.ofList content), place.advance blanks⟩
            (.ofText .query (place.advance (blanks ++ (content ++ gap))) behind)) ∧
    ∀ plus fault broken, (parse text plus).fault = some fault →
      Failure.ofParse fault ≠ .invariant broken := by
  refine ⟨?_, fun front rest place htext => ?_, fun plus fault broken _ => ?_⟩
  · rintro start ⟨front, back, htext, rfl⟩
    rw [htext]
    exact splitAt?_admits front back
  · rw [htext]
    exact Scan.content_cases front rest place
  · cases fault <;> exact nofun

/-- Of two `from` the first has a mark on its line, and the second begins a line of clauses. -/
theorem content_ends_second :
    let text := "é from \"x\"\n from\nq($x)"
    IsBoundary text.toList 2 ∧ splitAt? text.toList 2 = some (11, 13) ∧
      Admits text.toList 11 13 ∧
      ∀ offset other, 2 ≤ offset → offset < 11 → ¬Admits text.toList offset other := by
  intro text
  have htext : ['é'] ++ text.toList.tail = text.toList := by decide
  have hsize : byteSize ['é'] = 2 := by decide
  have hstart : IsBoundary text.toList 2 := ⟨['é'], text.toList.tail, htext.symm, hsize⟩
  have hsplit : splitAt? text.toList 2 = some (11, 13) := by
    have hrest := dropBytes?_byteSize ['é'] text.toList.tail
    rw [htext, hsize] at hrest
    rw [splitAt?, hrest]
    decide +kernel
  obtain ⟨stop, resume, hends, -, -, -, hadmits, hfirst⟩ := (content_ends text).1 2 hstart
  obtain ⟨rfl, rfl⟩ : 11 = stop ∧ 13 = resume := by simpa using hsplit.symm.trans hends
  exact ⟨hstart, hsplit, hadmits, hfirst⟩

end TopicQuery
