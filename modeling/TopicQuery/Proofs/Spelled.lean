import Mathlib.Data.List.Forall2
import TopicQuery.Proofs.Lexeme.Written
import TopicQuery.Proofs.Phrase.Clause

/-!
Spelled tokens. Text spells tokens if the scanner makes them of it wherever it
stands in front of soft text, and goes on behind it. Texts are put together from
spelled ones with separators between them.
-/

namespace TopicQuery

open Text

namespace Scan

/-- Some tokens in front of a scan. -/
def append (placed : List PlacedToken) (scan : Scan) : Scan :=
  ⟨placed ++ scan.tokens, scan.fault⟩

/-- The scan of a text that begins with a token or is over. -/
def fromToken (place : Position) : List Char → Scan
  | [] => done
  | '/' :: '*' :: _ => broken .unterminatedComment place
  | c :: rest =>
    match Lexeme.read c rest with
    | .error fault => broken fault place
    | .ok lexeme =>
      if lexeme.token = .symbol .question then cons ⟨lexeme.token, place⟩ done
      else
        cons ⟨lexeme.token, place⟩
          (ofText (.behind lexeme.token) (place.advance (c :: rest.take lexeme.extra))
            (rest.drop lexeme.extra))

theorem fromToken_cons {c : Char} {rest : List Char}
    (hcomment : ∀ tail, c = '/' → rest = '*' :: tail → False) (place : Position) :
    fromToken place (c :: rest) =
      match Lexeme.read c rest with
      | .error fault => broken fault place
      | .ok lexeme =>
        if lexeme.token = .symbol .question then cons ⟨lexeme.token, place⟩ done
        else
          cons ⟨lexeme.token, place⟩
            (ofText (.behind lexeme.token) (place.advance (c :: rest.take lexeme.extra))
              (rest.drop lexeme.extra)) := by
  unfold fromToken
  split
  · next h => cases h
  · next h =>
    cases h
    exact (hcomment _ rfl rfl).elim
  · next h =>
    cases h
    rfl

theorem ofText_query (place : Position) (cs : List Char) :
    ofText .query place cs =
      fromToken (place.advance (cs.take (ignorableSize cs))) (cs.drop (ignorableSize cs)) := by
  rw [ofText.eq_def]
  dsimp only
  split
  · next h => rw [h]; rfl
  · next h => rw [h]; rfl
  · next c rest hcomment h =>
    rw [h]
    exact (fromToken_cons hcomment _).symm

/-! ## White space -/

theorem ignorableSize_blank {b : Char} (h : isBlank b = true) (cs : List Char) :
    ignorableSize (b :: cs) = ignorableSize cs + 1 := by
  rw [ignorableSize.eq_def]
  split
  · next heq => cases heq
  · next heq =>
    cases heq
    exact absurd h (by decide)
  · next heq =>
    cases heq
    rw [if_pos h, Nat.add_comm]

theorem ofText_blank {b : Char} (h : isBlank b = true) (cs : List Char) (place : Position) :
    ofText .query place (b :: cs) = ofText .query (place.advance [b]) cs := by
  rw [ofText_query, ofText_query, ignorableSize_blank h]
  rfl

/-! ## Single tokens -/

variable {c : Char} {cs rest : List Char} {l : Lexeme}

theorem isBlank_head_of_mark {m : Symbol} (h : m.text.toList.isPrefixOf (c :: rest) = true) :
    isBlank c = false := by
  cases m <;>
    · simp only [Symbol.text] at h
      obtain rfl : _ = c := by
        have := (List.isPrefixOf_iff_prefix.mp h)
        exact (List.cons_prefix_cons.mp this).1
      decide

theorem isBlank_of_isNameStart (h : isNameStart c = true) : isBlank c = false := by
  obtain h | h | rfl := Lexeme.isNameStart_iff.mp h
  · simp [isBlank]
    omega
  · simp [isBlank]
    omega
  · decide

theorem isBlank_of_isNumberStart (h : Lexeme.isNumberStart c = true) : isBlank c = false := by
  simp only [Lexeme.isNumberStart, Char.isDigit, Bool.or_eq_true, Bool.and_eq_true,
    decide_eq_true_eq, beq_iff_eq, UInt32.le_iff_toNat_le, ge_iff_le] at h
  rcases h with ((⟨hlow, hhigh⟩ | rfl) | rfl) | rfl
  · have : 48 ≤ c.toNat := hlow
    have : c.toNat ≤ 57 := hhigh
    simp [isBlank]
    omega
  all_goals decide

/-- What a token is read from is neither white space nor a comment. -/
theorem ignorableSize_of_read (h : Lexeme.read c rest = .ok l) :
    ignorableSize (c :: rest) = 0 ∧ ∀ tail, c = '/' → rest = '*' :: tail → False := by
  have hcomment : ∀ tail, c = '/' → rest = '*' :: tail → False := by
    rintro tail rfl rfl
    exact absurd h (by simp [show Lexeme.read '/' ('*' :: tail) = .error (.unexpected '/') from rfl])
  have hblank : isBlank c = false := by
    refine Bool.eq_false_iff.mpr fun hblank => ?_
    have hne : ∀ d ∈ ['?', '"', '<', '$', '@', '%', '['], c ≠ d := by
      rintro d hd rfl
      simp only [List.mem_cons, List.not_mem_nil, or_false] at hd
      rcases hd with rfl | rfl | rfl | rfl | rfl | rfl | rfl <;> exact absurd hblank (by decide)
    have hname : isNameStart c = false :=
      Bool.eq_false_iff.mpr fun hname => by simp [isBlank_of_isNameStart hname] at hblank
    have hnumber : Lexeme.isNumberStart c = false :=
      Bool.eq_false_iff.mpr fun hnumber => by simp [isBlank_of_isNumberStart hnumber] at hblank
    simp only [List.mem_cons, List.not_mem_nil, or_false, forall_eq_or_imp, forall_eq] at hne
    obtain ⟨h₁, h₂, h₃, h₄, h₅, h₆, h₇⟩ := hne
    unfold Lexeme.isNumberStart at hnumber
    simp only [Lexeme.read, h₁, h₂, h₃, h₄, h₅, h₆, h₇, hname, hnumber, if_false,
      Bool.false_eq_true] at h
    cases hmark : Lexeme.mark? (c :: rest) with
    | none => simp [hmark] at h
    | some found =>
        obtain ⟨m, hm, -⟩ := Option.map_eq_some_iff.mp hmark
        have hprefix : m.text.toList.isPrefixOf (c :: rest) = true :=
          List.find?_some (p := fun m : Symbol => m.text.toList.isPrefixOf (c :: rest)) hm
        simp [isBlank_head_of_mark hprefix] at hblank
  refine ⟨?_, hcomment⟩
  rw [ignorableSize.eq_def]
  split
  · next heq => cases heq
  · next heq =>
    cases heq
    exact (hcomment _ rfl rfl).elim
  · next heq =>
    cases heq
    rw [hblank]
    rfl

/-- A token is taken from the front of the text. -/
theorem ofText_token (h : Lexeme.read c rest = .ok l) (hquestion : l.token ≠ .symbol .question)
    (place : Position) :
    ofText .query place (c :: rest) =
      cons ⟨l.token, place⟩ (ofText (.behind l.token) (place.advance (c :: rest.take l.extra))
        (rest.drop l.extra)) := by
  obtain ⟨hsize, hcomment⟩ := ignorableSize_of_read h
  rw [ofText_query, hsize, List.drop_zero, List.take_zero, Position.advance_nil,
    fromToken_cons hcomment]
  simp only [h, if_neg hquestion]

theorem ofText_question (place : Position) :
    ofText .query place ('?' :: rest) = cons ⟨.symbol .question, place⟩ done := by
  have h : Lexeme.read '?' rest = .ok ⟨.symbol .question, 0⟩ := rfl
  obtain ⟨hsize, hcomment⟩ := ignorableSize_of_read h
  rw [ofText_query, hsize, List.drop_zero, List.take_zero, Position.advance_nil,
    fromToken_cons hcomment]
  simp only [h, if_true]

/-! ## Texts of several tokens -/

/-- In front of the rest the text is scanned as the tokens, and the scan goes on behind it. -/
def Spells (ts : List Token) (cs rest : List Char) : Prop :=
  ∀ place, ∃ placed place', placed.map PlacedToken.token = ts ∧
    ofText .query place (cs ++ rest) = append placed (ofText .query place' rest)

theorem spells_nil : Spells [] [] rest := fun place => ⟨[], place, rfl, rfl⟩

theorem Spells.append {ts us : List Token} {ds : List Char} (h : Spells ts cs (ds ++ rest))
    (h' : Spells us ds rest) : Spells (ts ++ us) (cs ++ ds) rest := by
  intro place
  obtain ⟨placed, place', hplaced, hscan⟩ := h place
  obtain ⟨placed', place'', hplaced', hscan'⟩ := h' place'
  refine ⟨placed ++ placed', place'', by simp [hplaced, hplaced'], ?_⟩
  rw [List.append_assoc, hscan, hscan']
  simp [Scan.append]

theorem spells_blank {b : Char} (h : isBlank b = true) : Spells [] [b] rest := fun place =>
  ⟨[], place.advance [b], rfl, ofText_blank h rest place⟩

theorem spells_token {t : Token} (h : Lexeme.Reads t rest) (hquestion : t ≠ .symbol .question)
    (hinsert : t ≠ .keyword .insert) : Spells [t] t.written rest := by
  obtain ⟨c, w, hw, hread⟩ := h
  intro place
  refine ⟨[⟨t, place⟩], place.advance (c :: w), rfl, ?_⟩
  rw [hw, List.cons_append, ofText_token hread hquestion]
  simp [ScanMode.behind, hinsert, cons, Scan.append]

/-- The whole text is scanned as the tokens. -/
def Finishes (ts : List Token) (cs : List Char) : Prop :=
  ∀ place, (ofText .query place cs).tokens.map PlacedToken.token = ts ∧
    (ofText .query place cs).fault = none

theorem finishes_nil : Finishes [] [] := by
  intro place
  rw [ofText_query]
  simp [fromToken, done]

theorem finishes_question : Finishes [.symbol .question] ('?' :: rest) := by
  intro place
  rw [ofText_question]
  exact ⟨rfl, rfl⟩

theorem Spells.finishes {ts us : List Token} (h : Spells ts cs rest) (h' : Finishes us rest) :
    Finishes (ts ++ us) (cs ++ rest) := by
  intro place
  obtain ⟨placed, place', hplaced, hscan⟩ := h place
  obtain ⟨htokens, hfault⟩ := h' place'
  rw [hscan]
  exact ⟨by simp [Scan.append, hplaced, htokens], hfault⟩

end Scan

/-! ## Spelled and sealed texts -/

/-- The text spells the tokens in front of soft text. -/
def Spelled (ts : List Token) (s : String) : Prop := ∀ rest, Soft rest → Scan.Spells ts s.toList rest

/-- The text spells the tokens whatever stands behind it. -/
def Sealed (ts : List Token) (s : String) : Prop := ∀ rest, Scan.Spells ts s.toList rest

section

variable {ts us : List Token} {s s' : String}

theorem Soft.append {cs rest : List Char} (hcs : Soft cs) (hrest : Soft rest) :
    Soft (cs ++ rest) := by
  cases cs with
  | nil => exact hrest
  | cons c cs => exact hcs

theorem Soft.append_left {cs : List Char} (hcs : Soft cs) (hne : cs ≠ []) (rest : List Char) :
    Soft (cs ++ rest) := by
  obtain ⟨c, cs, rfl⟩ := List.exists_cons_of_ne_nil hne
  exact hcs

theorem Sealed.spelled (h : Sealed ts s) : Spelled ts s := fun rest _ => h rest

theorem sealed_nil : Sealed [] "" := fun _ => Scan.spells_nil

theorem Sealed.append (h : Sealed ts s) (h' : Sealed us s') : Sealed (ts ++ us) (s ++ s') := by
  intro rest
  rw [String.toList_append]
  exact (h _).append (h' rest)

theorem Sealed.append_spelled (h : Sealed ts s) (h' : Spelled us s') :
    Spelled (ts ++ us) (s ++ s') := by
  intro rest hrest
  rw [String.toList_append]
  exact (h _).append (h' rest hrest)

theorem Spelled.append (h : Spelled ts s) (h' : Spelled us s') (hsoft : Soft s'.toList) :
    Spelled (ts ++ us) (s ++ s') := by
  intro rest hrest
  rw [String.toList_append]
  exact (h _ (hsoft.append hrest)).append (h' rest hrest)

/-- Behind a spelled text stands a separator. -/
theorem Spelled.append_sealed (h : Spelled ts s) (h' : Sealed us s') (hsoft : Soft s'.toList)
    (hne : s'.toList ≠ []) : Sealed (ts ++ us) (s ++ s') := by
  intro rest
  rw [String.toList_append]
  exact (h _ (hsoft.append_left hne rest)).append (h' rest)

theorem Spelled.finishes (h : Spelled ts s) {cs : List Char} (hsoft : Soft cs)
    (h' : Scan.Finishes us cs) : Scan.Finishes (ts ++ us) (s.toList ++ cs) :=
  (h cs hsoft).finishes h'

theorem Sealed.finishes (h : Sealed ts s) {cs : List Char} (h' : Scan.Finishes us cs) :
    Scan.Finishes (ts ++ us) (s.toList ++ cs) := (h cs).finishes h'

/-! ## Separators -/

theorem sealed_blank : Sealed [] " " := fun _ => Scan.spells_blank (by decide)

theorem sealed_newline : Sealed [] "\n" := fun _ => Scan.spells_blank (by decide)

theorem Spelled.blank (h : Spelled ts s) : Sealed ts (s ++ " ") := by
  have := h.append_sealed sealed_blank (by decide) (by decide)
  rwa [List.append_nil] at this

theorem Sealed.behind_blank (h : Sealed ts s) : Sealed ts (" " ++ s) := sealed_blank.append h

theorem Spelled.behind_blank (h : Spelled ts s) : Spelled ts (" " ++ s) :=
  sealed_blank.append_spelled h

theorem spelled_token {t : Token} (h : ∀ rest, Soft rest → Lexeme.Reads t rest)
    (hquestion : t ≠ .symbol .question) (hinsert : t ≠ .keyword .insert) :
    Spelled [t] (String.ofList t.written) := by
  intro rest hrest
  rw [String.toList_ofList]
  exact Scan.spells_token (h rest hrest) hquestion hinsert

theorem sealed_token {t : Token} (h : ∀ rest, Lexeme.Reads t rest)
    (hquestion : t ≠ .symbol .question) (hinsert : t ≠ .keyword .insert) :
    Sealed [t] (String.ofList t.written) := by
  intro rest
  rw [String.toList_ofList]
  exact Scan.spells_token (h rest) hquestion hinsert

theorem spelled_keyword (k : Keyword) (hk : k ≠ .insert) : Spelled [.keyword k] k.text := by
  have := spelled_token (fun _ => Lexeme.reads_keyword k) (by simp) (by simpa using hk)
  rwa [show (Token.keyword k).written = k.text.toList from rfl, String.ofList_toList] at this

theorem spelled_mark {m : Symbol} (hm : m ∈ Lexeme.softMarks) : Spelled [.symbol m] m.text := by
  have hquestion : m ≠ .question := by
    rintro rfl
    simp [Lexeme.softMarks] at hm
  have := spelled_token (fun _ => Lexeme.reads_mark hm) (by simpa using hquestion) (by simp)
  rwa [show (Token.symbol m).written = m.text.toList from rfl, String.ofList_toList] at this

/-- The marks that are read whatever stands behind them. -/
def freeMarks : List Symbol := [.eq, .lparen, .rparen, .lbrace, .rbrace, .comma, .hatHat]

theorem sealed_mark {m : Symbol} (hm : m ∈ freeMarks) : Sealed [.symbol m] m.text := by
  have hreads : ∀ rest, Lexeme.Reads (.symbol m) rest := by
    intro rest
    simp only [freeMarks, List.mem_cons, List.not_mem_nil, or_false] at hm
    rcases hm with rfl | rfl | rfl | rfl | rfl | rfl | rfl <;> exact ⟨_, _, rfl, rfl⟩
  have hquestion : m ≠ .question := by
    rintro rfl
    simp [freeMarks] at hm
  have := sealed_token hreads (by simpa using hquestion) (by simp)
  rwa [show (Token.symbol m).written = m.text.toList from rfl, String.ofList_toList] at this

/-- The sign of a comparison between blanks. -/
theorem sealed_comparison (operator : Comparison) :
    Sealed [.symbol (Phrase.operatorSymbol operator)] (" " ++ operator.sign ++ " ") := by
  intro rest
  have hreads : Lexeme.Reads (.symbol (Phrase.operatorSymbol operator)) (' ' :: rest) := by
    cases operator <;> exact ⟨_, _, rfl, rfl⟩
  have hsign : operator.sign.toList = (Token.symbol (Phrase.operatorSymbol operator)).written := by
    cases operator <;> rfl
  have htoken := Scan.spells_token hreads (by cases operator <;> simp [Phrase.operatorSymbol])
    (by simp)
  rw [← hsign] at htoken
  rw [String.toList_append, String.toList_append, List.append_assoc]
  exact (Scan.spells_blank (by decide)).append
    (htoken.append (Scan.spells_blank (by decide)) : Scan.Spells ([_] ++ []) _ rest)

/-! ## Lists -/

theorem commaList_cons_cons (s s' : String) (ss : List String) :
    commaList (s :: s' :: ss) = s ++ ", " ++ commaList (s' :: ss) := String.intercalate_cons_cons

/-- What stands between commas is spelled one after the other. -/
theorem spelled_commaList {α : Type} {tokens : α → List Token} {xs : List α} {ss : List String}
    (h : List.Forall₂ (fun x s => Spelled (tokens x) s) xs ss) :
    Spelled (Phrase.listed tokens xs) (commaList ss) := by
  have hcomma : Sealed [.symbol .comma] ", " := (sealed_mark (by decide)).append sealed_blank
  induction h with
  | nil => exact sealed_nil.spelled
  | @cons x s xs ss hfirst hrest ih =>
      cases hrest with
      | nil => simpa [Phrase.listed, commaList] using hfirst
      | @cons y s' ys ss' hsecond hrest =>
          have hall := (hfirst.append_sealed hcomma (by decide) (by decide)).append_spelled ih
          rw [List.append_assoc] at hall
          rw [commaList_cons_cons]
          exact hall

end

/-! ## Texts that spell the same -/

/-- The text spells some tokens. -/
def Legible (s : String) : Prop := ∃ ts, Spelled ts s

/-- The texts spell the same tokens. -/
def SpelledAlike (s s' : String) : Prop := ∃ ts, Spelled ts s ∧ Spelled ts s'

theorem Legible.alike {s : String} (h : Legible s) : SpelledAlike s s :=
  h.imp fun _ hts => ⟨hts, hts⟩

theorem SpelledAlike.commaList {ss ss' : List String} (h : List.Forall₂ SpelledAlike ss ss') :
    SpelledAlike (commaList ss) (commaList ss') := by
  have hlists : ∃ tss : List (List Token), List.Forall₂ Spelled tss ss ∧
      List.Forall₂ Spelled tss ss' := by
    induction h with
    | nil => exact ⟨[], .nil, .nil⟩
    | cons hfirst _ ih =>
        obtain ⟨ts, hs, hs'⟩ := hfirst
        obtain ⟨tss, hss, hss'⟩ := ih
        exact ⟨ts :: tss, .cons hs hss, .cons hs' hss'⟩
  obtain ⟨tss, hss, hss'⟩ := hlists
  exact ⟨Phrase.listed id tss, spelled_commaList hss, spelled_commaList hss'⟩

theorem legible_commaList {ss : List String} (h : ∀ s ∈ ss, Legible s) :
    Legible (commaList ss) := by
  have halike : List.Forall₂ SpelledAlike ss ss := List.forall₂_same.mpr fun s hs => (h s hs).alike
  exact (SpelledAlike.commaList halike).imp fun _ hts => hts.1

end TopicQuery
