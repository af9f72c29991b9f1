import Mathlib.Algebra.GroupWithZero.Nat
import TopicQuery.Proofs.Lexeme.Scanned
import TopicQuery.Proofs.Unconditional.Trimming

/-!
Scanned texts. Tokens take up at least the characters they are written with, and
topic map content at the end of a text is all that stands behind `insert`.
-/

namespace TopicQuery

open Text

/-! ## The length of tokens -/

/-- How many characters some tokens are written with. -/
def span (ts : List Token) : Nat := (ts.map fun t => t.written.length).sum

@[simp] theorem span_nil : span [] = 0 := rfl

@[simp] theorem span_cons (t : Token) (ts : List Token) :
    span (t :: ts) = t.written.length + span ts := by simp [span]

@[simp] theorem span_append (ts us : List Token) : span (ts ++ us) = span ts + span us := by
  simp [span]

namespace Scan

/-- The tokens of a scan without their places. -/
def plain (scan : Scan) : List Token := scan.tokens.map PlacedToken.token

theorem span_fromToken {place : Position} {cs : List Char}
    (ih : ∀ mode place (ds : List Char), ds.length < cs.length →
      span (ofText mode place ds).plain ≤ ds.length) :
    span (fromToken place cs).plain ≤ cs.length := by
  unfold fromToken
  split
  · exact Nat.zero_le _
  · exact Nat.zero_le _
  · next c rest _ =>
    split
    · exact Nat.zero_le _
    · next l hl =>
      have htaken := Lexeme.taken_read hl
      have hwritten := htaken.written
      have hextra := htaken.extra
      have hrest := ih (.behind l.token) (place.advance (c :: rest.take l.extra))
        (rest.drop l.extra) (by simp only [List.length_drop, List.length_cons]; omega)
      rw [List.length_drop] at hrest
      simp only [plain] at hrest
      split <;>
        · simp only [plain, cons, done, List.map_cons, List.map_nil, span_cons, span_nil,
            List.length_cons]
          omega

/-- The tokens of a text are together no longer than the text. -/
theorem span_ofText (mode : ScanMode) (place : Position) (cs : List Char) :
    span (ofText mode place cs).plain ≤ cs.length := by
  induction hn : cs.length using Nat.strong_induction_on generalizing mode place cs with
  | _ n ih =>
  subst hn
  have ih' : ∀ mode place (ds : List Char), ds.length < cs.length →
      span (ofText mode place ds).plain ≤ ds.length :=
    fun mode place ds hlt => ih ds.length hlt mode place ds rfl
  cases mode with
  | query =>
      rw [ofText_query]
      have hle : (cs.drop (ignorableSize cs)).length ≤ cs.length := by simp
      exact (span_fromToken fun mode place ds hlt => ih' mode place ds (hlt.trans_le hle)).trans hle
  | content =>
      rw [ofText.eq_def]
      dsimp only
      split
      · exact Nat.zero_le _
      · next c rest =>
        split
        · set content := rest.drop (blankRun rest).length with hcontent
          have hlength : content.length ≤ rest.length := by simp [hcontent]
          have hrest := ih' .query (place.advance (c :: blankRun rest) |>.advance
            (content.take ((Fragment.split content).1 + (Fragment.split content).2)))
            (content.drop ((Fragment.split content).1 + (Fragment.split content).2)) (by
              simp only [List.length_drop, List.length_cons]; omega)
          simp only [List.length_drop, plain] at hrest
          simp only [plain, cons, List.map_cons, span_cons, Token.written, String.toList_ofList,
            List.length_take, List.length_cons]
          omega
        · exact Nat.zero_le _

end Scan

/-- What a text is scanned as, and what stands behind it. -/
theorem plain_of_sealed {ts : List Token} {text : String} (h : Sealed ts text) (rest : List Char)
    (place : Text.Position) :
    ∃ place', (Scan.ofText .query place (text.toList ++ rest)).plain =
      ts ++ (Scan.ofText .query place' rest).plain := by
  obtain ⟨placed, place', hplaced, hscan⟩ := h rest place
  exact ⟨place', by rw [hscan, Scan.plain, Scan.append, List.map_append, hplaced]; rfl⟩

/-! ## Content at the end of a text -/

namespace Fragment

/-- Topic map content that is all there is behind `insert`, but for a newline at the end. -/
structure Whole (content : List Char) : Prop where
  begins : ∀ c ∈ content.head?, isBlank c = false
  ends : (split content).1 = content.length ∨ (split (content ++ ['\n'])).1 = content.length

/-- Without a gap nothing but a newline stands behind the content. -/
theorem drop_split {cs : List Char} (h : (split cs).2 = 0) :
    cs.drop (split cs).1 = [] ∨ cs.drop (split cs).1 = ['\n'] := by
  induction cs with
  | nil => exact .inl rfl
  | cons c cs ih =>
      by_cases hlast : c = '\n' ∧ cs = []
      · obtain ⟨rfl, rfl⟩ := hlast
        exact .inr rfl
      · rw [split_cons hlast] at h ⊢
        split at h
        · next hstarts =>
          have hblank : isBlank c = true := (Bool.and_eq_true_iff.mp hstarts).1
          simp [blankRun, hblank] at h
        · next hstarts =>
          rw [if_neg hstarts, List.drop_succ_cons]
          exact ih h

/-- Behind a gap a word begins. -/
theorem drop_gap {cs : List Char} (h : (split cs).2 ≠ 0) :
    ∃ c rest, cs.drop ((split cs).1 + (split cs).2) = c :: rest ∧ isNameStart c = true := by
  induction cs with
  | nil => exact absurd rfl h
  | cons c cs ih =>
      by_cases hlast : c = '\n' ∧ cs = []
      · obtain ⟨rfl, rfl⟩ := hlast
        exact absurd rfl h
      · rw [split_cons hlast] at h ⊢
        split at h
        · next hstarts =>
          rw [if_pos hstarts, Nat.zero_add]
          have hword := (Bool.and_eq_true_iff.mp hstarts).2
          cases hdrop : (c :: cs).drop (blankRun (c :: cs)).length with
          | nil => simp [hdrop, startsClauses] at hword
          | cons d rest =>
              refine ⟨d, rest, rfl, ?_⟩
              simp only [hdrop, startsClauses, List.take_succ_cons, List.map_cons, Bool.and_eq_true,
                beq_iff_eq, List.cons.injEq] at hword
              obtain rfl | rfl := eq_of_toLower hword.1.1 <;> decide
        · next hstarts =>
          rw [if_neg hstarts, Nat.succ_add, List.drop_succ_cons]
          exact ih h

theorem head?_drop_blankRun {c : Char} {cs : List Char}
    (h : c ∈ (cs.drop (blankRun cs).length).head?) : isBlank c = false := by
  induction cs with
  | nil => cases h
  | cons d cs ih =>
      by_cases hd : isBlank d = true
      · rw [blankRun, List.takeWhile_cons_of_pos hd, List.length_cons, List.drop_succ_cons] at h
        exact ih h
      · rw [blankRun, List.takeWhile_cons_of_neg hd] at h
        obtain rfl := Option.some.inj h
        exact Bool.eq_false_iff.mpr hd

theorem split_le (cs : List Char) : (split cs).1 ≤ cs.length := by
  induction cs with
  | nil => exact Nat.le_refl _
  | cons c cs ih =>
      by_cases hlast : c = '\n' ∧ cs = []
      · obtain ⟨rfl, rfl⟩ := hlast
        exact Nat.zero_le _
      · rw [split_cons hlast]
        split
        · exact Nat.zero_le _
        · exact Nat.succ_le_succ ih

theorem whole_of_split {cs : List Char} (hbegins : ∀ c ∈ cs.head?, isBlank c = false)
    (h : (split cs).2 = 0) : Whole (cs.take (split cs).1) := by
  have hsplit := List.take_append_drop (split cs).1 cs
  have hlength : (cs.take (split cs).1).length = (split cs).1 :=
    List.length_take_of_le (split_le cs)
  refine ⟨fun c hc => hbegins c ?_, ?_⟩
  · rw [List.head?_take] at hc
    split at hc
    · cases hc
    · exact hc
  · rw [hlength]
    obtain hdrop | hdrop := drop_split h
    · rw [hdrop, List.append_nil] at hsplit
      exact .inl (by rw [hsplit])
    · rw [hdrop] at hsplit
      exact .inr (by rw [hsplit])

end Fragment

namespace Scan

theorem word_ne_symbol (c : Char) (rest : List Char) (m : Symbol) :
    (Lexeme.word c rest).token ≠ .symbol m := by
  have hreference : ∀ l ∈ Lexeme.reference? c rest, l.token ≠ .symbol m := by
    intro l hl
    simp only [Lexeme.reference?, Option.mem_def, Option.bind_eq_bind,
      Option.bind_eq_some_iff] at hl
    obtain ⟨kind, -, hl⟩ := hl
    split at hl
    · split at hl
      · cases hl
        simp
      · cases hl
    · cases hl
  have hqname : ∀ l ∈ Lexeme.qname? c rest, l.token ≠ .symbol m := by
    intro l hl
    simp only [Lexeme.qname?] at hl
    split at hl
    · split at hl
      · cases hl
      · cases hl
        simp
    · cases hl
  unfold Lexeme.word
  cases hfirst : Lexeme.reference? c rest with
  | some l => exact hreference l hfirst
  | none =>
      cases hsecond : Lexeme.qname? c rest with
      | some l => exact hqname l hsecond
      | none =>
          simp only [Option.or_none, Option.getD_none]
          split <;> simp

/-- The content is what a text begins with, and the tokens are what is scanned behind it. -/
def HoldsContent (content : String) (post : List Token) : Prop :=
  ∃ (cs : List Char) (place : Position), (∀ c ∈ cs.head?, isBlank c = false) ∧
    content.toList = cs.take (Fragment.split cs).1 ∧
    post = (ofText .query place (cs.drop ((Fragment.split cs).1 + (Fragment.split cs).2))).plain

theorem holdsContent_of_content {place : Position} {cs : List Char} {content : String}
    {post : List Token} (htokens : (ofText .content place cs).plain = .fragment content :: post) :
    HoldsContent content post := by
  rw [ofText.eq_def] at htokens
  cases cs with
  | nil => cases htokens
  | cons c rest =>
      dsimp only at htokens
      split at htokens
      · obtain ⟨hcontent, hrest⟩ := List.cons.inj htokens
        refine ⟨rest.drop (blankRun rest).length, _, fun c hc => Fragment.head?_drop_blankRun hc, ?_,
          hrest.symm⟩
        rw [← Token.fragment.inj hcontent, String.toList_ofList]
      · cases htokens

/-- What is scanned as topic map content behind `insert` was split off from a text. -/
theorem holdsContent_of_insert {mode : ScanMode} {place : Position} {cs : List Char}
    {content : String} {pre post : List Token}
    (htokens : (ofText mode place cs).plain =
      pre ++ .keyword .insert :: .fragment content :: post) : HoldsContent content post := by
  induction hn : cs.length using Nat.strong_induction_on generalizing mode place cs pre with
  | _ n ih =>
  subst hn
  cases mode with
  | query =>
      rw [ofText_query] at htokens
      have hle : (cs.drop (ignorableSize cs)).length ≤ cs.length := by simp
      generalize cs.drop (ignorableSize cs) = ds at htokens hle
      generalize place.advance (cs.take (ignorableSize cs)) = place at htokens
      unfold fromToken at htokens
      split at htokens
      · simp [plain, done] at htokens
      · simp [plain, broken] at htokens
      · next c rest hcomment =>
        split at htokens
        · simp [plain, broken] at htokens
        · next l hl =>
          have hshorter : (rest.drop l.extra).length < cs.length := by
            simp only [List.length_drop, List.length_cons] at hle ⊢
            omega
          split at htokens
          · have hlength := congrArg List.length htokens
            simp [plain, cons, done] at hlength
            omega
          · cases pre with
            | nil =>
                obtain ⟨hinsert, hrest⟩ := List.cons.inj htokens
                have hmode : ScanMode.behind l.token = .content := if_pos hinsert
                rw [hmode] at hrest
                exact holdsContent_of_content hrest
            | cons t pre => exact ih _ hshorter (List.cons.inj htokens).2 rfl
  | content =>
      rw [ofText.eq_def] at htokens
      cases cs with
      | nil => simp [plain, done] at htokens
      | cons c rest =>
          dsimp only at htokens
          split at htokens
          · cases pre with
            | nil => cases (List.cons.inj htokens).1
            | cons t pre =>
                refine ih _ ?_ (List.cons.inj htokens).2 rfl
                simp only [List.length_drop, List.length_cons]
                omega
          · simp [plain, broken] at htokens

/-- Topic map content at the end of a text is whole. -/
theorem whole_of_insert {mode : ScanMode} {place : Position} {cs : List Char} {content : String}
    {pre post : List Token}
    (htokens : (ofText mode place cs).plain =
      pre ++ .keyword .insert :: .fragment content :: post)
    (hpost : post = [] ∨ post = [.symbol .question]) : Fragment.Whole content.toList := by
  obtain ⟨ds, place', hbegins, hcontent, hbehind⟩ := holdsContent_of_insert htokens
  rw [hcontent]
  refine Fragment.whole_of_split hbegins ?_
  -- a word behind the content would be scanned as one
  by_contra hgap
  obtain ⟨d, rest, hdrop, hd⟩ := Fragment.drop_gap hgap
  have hread : Lexeme.read d rest = .ok (Lexeme.word d rest) := Lexeme.read_of_isNameStart hd
  rw [hdrop, ofText_token hread (word_ne_symbol d rest .question)] at hbehind
  obtain rfl | rfl := hpost
  · cases hbehind
  · exact word_ne_symbol d rest .question (List.cons.inj hbehind).1.symm

/-! ## Content with a newline behind it -/

theorem ofText_insert (place : Position) (xs : List Char) :
    ∃ place', ofText .query place ("insert".toList ++ ' ' :: xs) =
      cons ⟨.keyword .insert, place⟩ (ofText .content place' (' ' :: xs)) := by
  obtain ⟨c, w, hwritten, hread⟩ := @Lexeme.reads_keyword (' ' :: xs) .insert (by simp [Soft, boundaries])
  have hword : (Token.keyword .insert).written = "insert".toList := rfl
  rw [← hword, hwritten, List.cons_append, ofText_token hread (by simp), List.drop_left]
  exact ⟨_, rfl⟩

/-- What stands behind `insert` and a blank is split where the content ends. -/
theorem ofText_split {cs : List Char} (hbegins : ∀ c ∈ cs.head?, isBlank c = false)
    (place : Position) :
    ∃ place' place'', ofText .content place (' ' :: cs) =
      cons ⟨.fragment (String.ofList (cs.take (Fragment.split cs).1)), place'⟩
        (ofText .query place'' (cs.drop ((Fragment.split cs).1 + (Fragment.split cs).2))) := by
  have hnone : blankRun cs = [] := by
    cases cs with
    | nil => rfl
    | cons c cs => rw [blankRun, List.takeWhile_cons_of_neg (by simp [hbegins c rfl])]
  rw [ofText.eq_def]
  dsimp only
  rw [if_pos (by decide)]
  simp only [hnone, List.length_nil, List.drop_zero]
  exact ⟨_, _, rfl⟩

/-- What is scanned of topic map content with a newline behind it. -/
theorem ofText_content {kept : List Char} (hbegins : ∀ c ∈ kept.head?, isBlank c = false)
    (place : Position) :
    ∃ place' place'', ofText .content place (' ' :: (kept ++ ['\n'])) =
      cons ⟨.fragment (String.ofList (kept.take (Fragment.split (kept ++ ['\n'])).1)), place'⟩
        (ofText .query place'' ((kept ++ ['\n']).drop ((Fragment.split (kept ++ ['\n'])).1 +
          (Fragment.split (kept ++ ['\n'])).2))) := by
  cases kept with
  | nil =>
      rw [ofText.eq_def]
      dsimp only
      rw [if_pos (by decide)]
      have hdone : ∀ p, ofText .query p [] = done := fun p => by
        rw [ofText_query]
        simp [fromToken]
      have hnewline : ofText .query place ['\n'] = done := by rw [ofText_blank (by decide), hdone]
      refine ⟨place.advance [' ', '\n'], place, ?_⟩
      exact congrArg (cons _) ((hdone _).trans hnewline.symm)
  | cons c kept =>
      rw [← List.take_append_of_le_length (Fragment.split_newline_le (c :: kept))]
      refine ofText_split ?_ place
      exact hbegins

/-- Content that is taken whole is scanned again. -/
theorem finishes_insert {kept : List Char} (hbegins : ∀ c ∈ kept.head?, isBlank c = false)
    (h : (Fragment.split (kept ++ ['\n'])).1 = kept.length) :
    Finishes [.keyword .insert, .fragment (String.ofList kept)]
      ("insert ".toList ++ (kept ++ ['\n'])) := by
  intro place
  obtain ⟨start, hinsert⟩ := ofText_insert place (kept ++ ['\n'])
  obtain ⟨place', place'', hcontent⟩ := ofText_content hbegins start
  have hend : Finishes [] ['\n'] := (spells_blank (by decide)).finishes finishes_nil
  rw [show "insert ".toList ++ (kept ++ ['\n']) = "insert".toList ++ ' ' :: (kept ++ ['\n']) from rfl,
    hinsert, hcontent, Fragment.split_newline_gap h, h, Nat.add_zero, List.drop_left,
    List.take_length]
  obtain ⟨htokens, hfault⟩ := hend place''
  exact ⟨congrArg (fun ts => Token.keyword .insert :: .fragment (String.ofList kept) :: ts) htokens,
    hfault⟩

/-- Of any other content less is scanned. -/
theorem fragment_insert {kept : List Char} (hbegins : ∀ c ∈ kept.head?, isBlank c = false)
    (place : Position) :
    ∃ rest, (ofText .query place ("insert ".toList ++ (kept ++ ['\n']))).plain =
      .keyword .insert :: .fragment (String.ofList
        (kept.take (Fragment.split (kept ++ ['\n'])).1)) :: rest := by
  obtain ⟨start, hinsert⟩ := ofText_insert place (kept ++ ['\n'])
  obtain ⟨place', place'', hcontent⟩ := ofText_content hbegins start
  rw [show "insert ".toList ++ (kept ++ ['\n']) = "insert".toList ++ ' ' :: (kept ++ ['\n']) from rfl,
    hinsert, hcontent]
  exact ⟨_, rfl⟩

end Scan

end TopicQuery
