import TopicQuery.Proofs.Inserted.Split
import TopicQuery.Proofs.Lexeme.Exact
import TopicQuery.Proofs.Unconditional.Scanned

/-!
Tokens tile the text. Between the characters of two tokens stand only white space
and comments, and the place of a token or of a mistake is what can be counted off
from the text in front of it.
-/

namespace TopicQuery

open Text

namespace Text

/-- The characters behind the last newline. -/
def lastLine (front : List Char) : List Char := (front.reverse.takeWhile (· != '\n')).reverse

theorem lastLine_concat (front : List Char) (c : Char) :
    lastLine (front ++ [c]) = if c = '\n' then [] else lastLine front ++ [c] := by
  by_cases hc : c = '\n' <;> simp [lastLine, hc]

namespace Position

/-- The place behind the front of a text, counted in bytes, newlines and bytes of the last line. -/
def behind (front : List Char) : Position :=
  ⟨byteSize front, front.count '\n' + 1, byteSize (lastLine front) + 1⟩

theorem step_behind (front : List Char) (c : Char) :
    (behind front).step c = behind (front ++ [c]) := by
  by_cases hc : c = '\n'
  · subst hc
    simp [step, behind, lastLine_concat, byteSize, Char.utf8Size]
  · have hcount : [c].count '\n' = 0 := List.count_eq_zero.mpr (by simpa using Ne.symm hc)
    simp only [step, if_neg hc, behind, lastLine_concat, byteSize_append, byteSize,
      List.count_append, hcount]
    congr 1
    omega

/-- Steps over characters lead to the place that is counted off. -/
theorem advance_behind (front cs : List Char) :
    (behind front).advance cs = behind (front ++ cs) := by
  induction cs generalizing front with
  | nil => rw [advance_nil, List.append_nil]
  | cons c cs ih =>
      have hstep : (behind front).advance (c :: cs) = ((behind front).step c).advance cs := rfl
      rw [hstep, step_behind, ih, List.append_assoc, List.singleton_append]

end Position

end Text

/-! ## White space and comments -/

/-- White space and comments; a comment ends at the first mark that closes it. -/
inductive Ignorable : List Char → Prop
  | nil : Ignorable []
  | blank {c : Char} {cs : List Char} (blank : isBlank c = true) (rest : Ignorable cs) :
      Ignorable (c :: cs)
  | comment {body cs : List Char} (closed : ¬['*', '/'] <:+: body ++ ['*'])
      (rest : Ignorable cs) : Ignorable ('/' :: '*' :: (body ++ '*' :: '/' :: cs))

theorem ignorable_of_blank {cs : List Char} (h : ∀ c ∈ cs, isBlank c = true) : Ignorable cs := by
  induction cs with
  | nil => exact .nil
  | cons c cs ih =>
      exact .blank (h c List.mem_cons_self) (ih fun d hd => h d (List.mem_cons_of_mem _ hd))

/-- A comment is measured up to its first closing mark. -/
theorem commentSize_eq_some {cs : List Char} {n : Nat} (h : commentSize cs = some n) :
    ∃ body rest, cs = body ++ '*' :: '/' :: rest ∧ n = body.length + 2 ∧
      ¬['*', '/'] <:+: body ++ ['*'] := by
  fun_induction commentSize cs generalizing n with
  | case1 => cases h
  | case2 rest =>
      cases h
      refine ⟨[], rest, rfl, rfl, fun hmark => ?_⟩
      simpa using hmark.length_le
  | case3 c cs hclosed ih =>
      obtain ⟨m, hm, rfl⟩ := Option.map_eq_some_iff.mp h
      obtain ⟨body, rest, rfl, rfl, hbody⟩ := ih hm
      refine ⟨c :: body, rest, rfl, rfl, fun hmark => ?_⟩
      rw [List.cons_append, List.infix_cons_iff] at hmark
      obtain hfirst | hmark := hmark
      · -- the mark would stand at the front of the text
        obtain ⟨rfl, hslash⟩ := List.cons_prefix_cons.mp hfirst
        cases body with
        | nil => simp at hslash
        | cons d body =>
            obtain ⟨rfl, -⟩ := List.cons_prefix_cons.mp hslash
            exact hclosed _ rfl rfl
      · exact hbody hmark

theorem ignorable_take (cs : List Char) : Ignorable (cs.take (ignorableSize cs)) := by
  fun_induction ignorableSize cs with
  | case1 => exact .nil
  | case2 rest n hn ih =>
      obtain ⟨body, tail, rfl, rfl, hbody⟩ := commentSize_eq_some hn
      have hdrop : (body ++ '*' :: '/' :: tail).drop (body.length + 2) = tail := by
        rw [← List.drop_drop, List.drop_left]
        rfl
      rw [hdrop] at ih ⊢
      have htake : ('/' :: '*' :: (body ++ '*' :: '/' :: tail)).take
          (body.length + 2 + 2 + ignorableSize tail) =
          '/' :: '*' :: (body ++ '*' :: '/' :: tail.take (ignorableSize tail)) := by
        rw [show body.length + 2 + 2 + ignorableSize tail =
            (body.length + (ignorableSize tail + 1 + 1)) + 1 + 1 by omega,
          List.take_succ_cons, List.take_succ_cons, List.take_length_add_append,
          List.take_succ_cons, List.take_succ_cons]
      rw [htake]
      exact .comment hbody ih
  | case3 => exact .nil
  | case4 c rest _ hblank ih =>
      rw [Nat.add_comm, List.take_succ_cons]
      exact .blank hblank ih
  | case5 => exact .nil

/-! ## Tiled texts -/

/-- What may stand between two tokens; next to topic map content there is only white space. -/
structure Separates (previous next : Option Token) (gap : List Char) : Prop where
  ignorable : Ignorable gap
  blank : (∃ content, previous = some (.fragment content) ∨ next = some (.fragment content)) →
    ∀ c ∈ gap, isBlank c = true

/--
What a token stands for. Only topic map content can be empty, and it stands nowhere but
behind `insert`.
-/
structure Occupies (previous : Option Token) (t : Token) (lexeme : List Char) : Prop where
  characters : t.StandsAs lexeme
  content : (lexeme ≠ [] ∧ ∀ content, t ≠ .fragment content) ∨
    ((∃ content, t = .fragment content) ∧ previous = some (.keyword .insert))

/--
The scan of the rest of a text that stands behind a token and a front: each token
stands for its own characters, at the place that is counted off in front of them.
Behind a question mark nothing is scanned; otherwise what is behind the last token
and in front of a mistake separates like what is between tokens.
-/
inductive Tiles : Option Token → List Char → List Char → Scan → Prop
  | finish {previous : Option Token} {front gap : List Char}
      (query : previous ≠ some (.symbol .question)) (separates : Separates previous none gap) :
      Tiles previous front gap .done
  | question {front rest : List Char} : Tiles (some (.symbol .question)) front rest .done
  | fault {previous : Option Token} {front gap rest : List Char} {c : Char} {fault : LexicalFault}
      (query : previous ≠ some (.symbol .question)) (separates : Separates previous none gap) :
      Tiles previous front (gap ++ c :: rest) (.broken fault (.behind (front ++ gap)))
  | token {previous : Option Token} {front gap lexeme rest : List Char} {t : Token} {scan : Scan}
      (query : previous ≠ some (.symbol .question)) (separates : Separates previous (some t) gap)
      (stands : Occupies previous t lexeme)
      (behind : Tiles (some t) (front ++ gap ++ lexeme) rest scan) :
      Tiles previous front (gap ++ (lexeme ++ rest)) (.cons ⟨t, .behind (front ++ gap)⟩ scan)

namespace Scan

/-! ## Single tokens -/

/-- Behind a gap the next token stands for its own characters. -/
theorem tiles_fromToken {previous : Option Token} {front gap cs : List Char}
    (hquery : previous ≠ some (.symbol .question)) (hignorable : Ignorable gap)
    (hblank : ∀ content, previous = some (.fragment content) → ∀ c ∈ gap, isBlank c = true)
    (ih : ∀ t front (ds : List Char), ds.length < cs.length → (∀ content, t ≠ .fragment content) →
      t ≠ .symbol .question → Tiles (some t) front ds (ofText (.behind t) (.behind front) ds)) :
    Tiles previous front (gap ++ cs) (fromToken (.behind (front ++ gap)) cs) := by
  have hend : Separates previous none gap := by
    refine ⟨hignorable, ?_⟩
    rintro ⟨content, h⟩
    exact hblank content (h.resolve_right (by simp))
  unfold fromToken
  split
  · rw [List.append_nil]
    exact .finish hquery hend
  · exact .fault hquery hend
  · next c rest hcomment =>
    cases hread : Lexeme.read c rest with
    | error fault => exact .fault hquery hend
    | ok l =>
        obtain ⟨hcharacters, hwhole⟩ := Lexeme.exact_read hread
        have hgap : Separates previous (some l.token) gap := by
          refine ⟨hignorable, ?_⟩
          rintro ⟨content, h⟩
          exact hblank content (h.resolve_right fun h => hwhole content (Option.some.inj h))
        have hstands : Occupies previous l.token (c :: rest.take l.extra) :=
          ⟨hcharacters, .inl ⟨by simp, hwhole⟩⟩
        have hcs : c :: rest = c :: rest.take l.extra ++ rest.drop l.extra := by simp
        dsimp only
        split
        · next hquestion =>
          rw [hcs]
          refine .token hquery hgap hstands ?_
          rw [hquestion]
          exact .question
        · next hquestion =>
          rw [Position.advance_behind]
          conv => arg 3; rw [hcs]
          refine .token hquery hgap hstands (ih _ _ _ ?_ hwhole hquestion)
          simp only [List.length_drop, List.length_cons]
          omega

/-! ## Topic map content -/

theorem blankRun_begins (cs : List Char) : blankRun cs <+: cs := List.takeWhile_prefix _

/-- The gap behind content is white space. -/
theorem blank_gap {cs : List Char} :
    ∀ c ∈ (cs.drop (Fragment.split cs).1).take (Fragment.split cs).2, isBlank c = true := by
  intro c hc
  by_cases hgap : (Fragment.split cs).2 = 0
  · rw [hgap, List.take_zero] at hc
    cases hc
  · obtain ⟨hbegins, hfirst⟩ := Fragment.beginsGap_of_split hgap
    have hsplit : (Fragment.split cs).2 = (blankRun (cs.drop (Fragment.split cs).1)).length :=
      congrArg Prod.snd (Fragment.split_of_beginsGap hbegins hfirst)
    rw [hsplit, Lexeme.take_of_prefix (blankRun_begins _)] at hc
    exact List.mem_takeWhile_imp hc

/-- Behind content and its gap no comment is skipped. -/
theorem blank_behind_gap {cs rest : List Char}
    (h : cs.drop ((Fragment.split cs).1 + (Fragment.split cs).2) = rest) :
    ∀ c ∈ rest.take (ignorableSize rest), isBlank c = true := by
  intro c hc
  by_cases hgap : (Fragment.split cs).2 = 0
  · rw [hgap, Nat.add_zero] at h
    obtain hend | hend := Fragment.drop_split hgap
    · rw [← h, hend, List.take_nil] at hc
      cases hc
    · rw [← h, hend] at hc
      have hmem := List.mem_of_mem_take hc
      obtain rfl := List.mem_singleton.mp hmem
      decide
  · obtain ⟨d, tail, hdrop, hd⟩ := Fragment.drop_gap hgap
    have hread : Lexeme.read d tail = .ok (Lexeme.word d tail) := Lexeme.read_of_isNameStart hd
    rw [← h, hdrop, (ignorableSize_of_read hread).1, List.take_zero] at hc
    cases hc

/-! ## Whole texts -/

/-- Behind white space that is passed over already, the rest of a gap is skipped. -/
theorem tiles_query {previous : Option Token} (front passed : List Char) {cs : List Char}
    (hquery : previous ≠ some (.symbol .question))
    (hignorable : Ignorable (passed ++ cs.take (ignorableSize cs)))
    (hblank : ∀ content, previous = some (.fragment content) →
      ∀ c ∈ passed ++ cs.take (ignorableSize cs), isBlank c = true)
    (ih : ∀ t front (ds : List Char), ds.length < cs.length → (∀ content, t ≠ .fragment content) →
      t ≠ .symbol .question → Tiles (some t) front ds (ofText (.behind t) (.behind front) ds)) :
    Tiles previous front (passed ++ cs) (ofText .query (.behind (front ++ passed)) cs) := by
  have hcs : passed ++ cs = passed ++ cs.take (ignorableSize cs) ++ cs.drop (ignorableSize cs) := by
    rw [List.append_assoc, List.take_append_drop]
  have hle : (cs.drop (ignorableSize cs)).length ≤ cs.length := by simp
  rw [ofText_query, Position.advance_behind, List.append_assoc, hcs]
  exact tiles_fromToken hquery hignorable hblank fun t front ds hlt =>
    ih t front ds (hlt.trans_le hle)

/-- From any token on the rest of a text is tiled. -/
theorem tiles_behind (t : Token) (front cs : List Char) (hwhole : ∀ content, t ≠ .fragment content)
    (hquestion : t ≠ .symbol .question) :
    Tiles (some t) front cs (ofText (.behind t) (.behind front) cs) := by
  induction hn : cs.length using Nat.strong_induction_on generalizing t front cs with
  | _ n ih =>
  subst hn
  have hquery : some t ≠ some (.symbol .question) := fun h => hquestion (Option.some.inj h)
  have ih' : ∀ t front (ds : List Char), ds.length < cs.length →
      (∀ content, t ≠ .fragment content) → t ≠ .symbol .question →
      Tiles (some t) front ds (ofText (.behind t) (.behind front) ds) :=
    fun t front ds hlt hwhole hquestion => ih _ hlt t front ds hwhole hquestion rfl
  by_cases hinsert : t = .keyword .insert
  · subst hinsert
    have hmode : ScanMode.behind (.keyword .insert) = .content := rfl
    rw [hmode, ofText.eq_def]
    dsimp only
    split
    · exact .finish hquery ⟨.nil, by simp⟩
    · next c rest =>
      split
      · next hc =>
        set blanks := blankRun rest with hblanks
        set content := rest.drop blanks.length with hcontent
        set size := (Fragment.split content).1 with hsize
        set gap := (Fragment.split content).2 with hgap
        have hrun : ∀ d ∈ c :: blanks, isBlank d = true := fun d hd => by
          obtain rfl | hd := List.mem_cons.mp hd
          · exact hc
          · exact List.mem_takeWhile_imp hd
        have hrest : blanks ++ content = rest := by
          conv_rhs => rw [← List.take_append_drop blanks.length rest]
          rw [Lexeme.take_of_prefix (blankRun_begins rest)]
        have htext : c :: rest = (c :: blanks) ++ (content.take size ++ content.drop size) := by
          rw [List.take_append_drop, List.cons_append, hrest]
        have hgaps : ∀ d ∈ (content.drop size).take gap ++ (content.drop (size + gap)).take
            (ignorableSize (content.drop (size + gap))), isBlank d = true := fun d hd =>
          (List.mem_append.mp hd).elim (blank_gap d) (blank_behind_gap rfl d)
        rw [Position.advance_behind, Position.advance_behind, List.take_add, ← List.append_assoc,
          htext]
        refine .token hquery ⟨ignorable_of_blank hrun, fun _ => hrun⟩ ?_ ?_
        · exact ⟨String.toList_ofList.symm, .inr ⟨⟨_, rfl⟩, rfl⟩⟩
        · have hdrop : content.drop size =
              (content.drop size).take gap ++ content.drop (size + gap) := by
            rw [← List.drop_drop, List.take_append_drop]
          conv => arg 3; rw [hdrop]
          refine tiles_query _ _ (by simp) (ignorable_of_blank hgaps) (fun _ _ => hgaps) ?_
          intro t front ds hlt
          refine ih' t front ds (hlt.trans ?_)
          simp only [hcontent, List.length_drop, List.length_cons]
          omega
      · have hfault : Tiles _ front ([] ++ c :: rest) (broken (.noBlankAfterInsert c) _) :=
          .fault hquery ⟨.nil, by simp⟩
        rwa [List.append_nil] at hfault
  · have hmode : ScanMode.behind t = .query := if_neg hinsert
    have hfront : Position.behind front = .behind (front ++ []) := by rw [List.append_nil]
    rw [hmode, hfront]
    exact tiles_query front [] hquery (ignorable_take cs)
      (fun content h => absurd (Option.some.inj h) (hwhole content)) ih'

theorem tiles_text (text : String) : Tiles none [] text.toList (scan text) :=
  tiles_query [] [] nofun (ignorable_take _) (fun _ => nofun) fun t front ds _ =>
    tiles_behind t front ds

end Scan

/-! ## Offsets -/

/-- No token of the rest of a text stands within the front. -/
theorem Tiles.offset_le {previous : Option Token} {front rest : List Char} {scan : Scan}
    (h : Tiles previous front rest scan) : ∀ t ∈ scan.tokens, byteSize front ≤ t.place.offset := by
  induction h with
  | finish | question | fault => exact fun _ => nofun
  | @token _ front gap lexeme _ t scan _ _ _ _ ih =>
      intro u hu
      obtain rfl | hu := List.mem_cons.mp hu
      · simp [Position.behind]
      · have hle := ih u hu
        simp only [byteSize_append] at hle
        omega

theorem Tiles.pairwise_offset {previous : Option Token} {front rest : List Char} {scan : Scan}
    (h : Tiles previous front rest scan) :
    scan.tokens.Pairwise fun t u => t.place.offset ≤ u.place.offset := by
  induction h with
  | finish | question | fault => exact .nil
  | token _ _ _ hbehind ih =>
      refine .cons (fun u hu => ?_) ih
      have hle := hbehind.offset_le u hu
      rw [byteSize_append] at hle
      exact Nat.le_of_add_right_le hle

/--
Tokens tile the text: they stand one behind the other in it with nothing but white
space and comments between them, and their places, like the place of a mistake,
are right.
-/
theorem scan_tiles (text : String) :
    Tiles none [] text.toList (scan text) ∧
      (scan text).tokens.Pairwise fun t u => t.place.offset ≤ u.place.offset :=
  ⟨Scan.tiles_text text, (Scan.tiles_text text).pairwise_offset⟩

end TopicQuery
