import Mathlib.Data.List.TakeWhile
import TopicQuery.Proofs.Spelled

/-!
Scanned tokens. The texts in every token that the scanner makes have the form
they are written in, and no token is written longer than the text it was read
from.
-/

namespace TopicQuery

open Text

namespace Lexeme

/-- What a scanner may take from the front of a text behind its first character. -/
structure Taken (rest : List Char) (l : Lexeme) : Prop where
  proper : l.token.Proper
  written : l.token.written.length ≤ l.extra + 1
  extra : l.extra ≤ rest.length

variable {c : Char} {cs rest : List Char} {l : Lexeme}

/-! ## Names -/

theorem isNamePart_nameRun (cs : List Char) : ∀ d ∈ nameRun cs, isNamePart d = true :=
  fun _ hd => List.mem_takeWhile_imp hd

theorem length_nameRun_le (cs : List Char) : (nameRun cs).length ≤ cs.length :=
  (List.takeWhile_sublist _).length_le

theorem nameBody_isName {first : Char → Bool} {name : List Char} (h : nameBody first cs = some name) :
    IsName first name ∧ name.length ≤ cs.length := by
  cases cs with
  | nil => simp [nameBody] at h
  | cons c cs =>
      simp only [nameBody] at h
      split at h
      · next hc =>
        cases h
        exact ⟨⟨c, nameRun cs, rfl, hc, isNamePart_nameRun cs⟩,
          Nat.succ_le_succ (length_nameRun_le cs)⟩
      · cases h

/-- Behind a run of characters a text is shorter by the run. -/
theorem length_drop_cons {d : Char} {ds : List Char} {n : Nat} (h : cs.drop n = d :: ds) :
    cs.length = n + ds.length + 1 := by
  have hlength := congrArg List.length h
  simp only [List.length_drop, List.length_cons] at hlength
  omega

/-! ## Angles and percent signs -/

theorem taken_angle (rest : List Char) : Taken rest (angle rest) := by
  unfold angle
  dsimp only
  split
  · next tail htail =>
    split
    · exact ⟨trivial, by decide, Nat.zero_le _⟩
    · next hne =>
      have hlength := length_drop_cons htail
      refine ⟨⟨?_, ?_⟩, ?_, by dsimp only; omega⟩
      · simpa using hne
      · intro c hc
        rw [String.toList_ofList] at hc
        exact List.mem_takeWhile_imp hc
      · simp [Token.written, Style.atom, AtomKind.write]
  · split
    · exact ⟨trivial, by decide, by simp⟩
    · exact ⟨trivial, by decide, Nat.zero_le _⟩

theorem taken_percent (h : percent rest = some l) : Taken rest l := by
  obtain ⟨name, hname, hl⟩ := Option.map_eq_some_iff.mp h
  obtain ⟨hisName, hle⟩ := nameBody_isName hname
  split at hl
  · next tail htail =>
    cases hl
    have hlength := length_drop_cons htail
    refine ⟨by simpa [Token.Proper, ProperAtom] using hisName, ?_, by dsimp only; omega⟩
    simp [Token.written, Style.atom, AtomKind.write]
  · cases hl
    exact ⟨by simpa [Token.Proper] using hisName, by simp [Token.written, Token.text], hle⟩

theorem taken_bracket (h : bracket rest = some l) : Taken rest l := by
  obtain ⟨name, hname, hl⟩ := Option.bind_eq_some_iff.mp h
  obtain ⟨hisName, -⟩ := nameBody_isName hname
  split at hl
  · next tail htail =>
    dsimp only at hl
    split at hl
    · next behind hbehind =>
      cases hl
      have hlength := length_drop_cons htail
      have hlength' := length_drop_cons hbehind
      refine ⟨⟨by simpa using hisName, fun c hc => ?_⟩, ?_, by dsimp only; omega⟩
      · rw [String.toList_ofList] at hc
        exact List.mem_takeWhile_imp (p := fun c => c != ']' && !isBlank c) hc
      · simp [Token.written, Token.text, QualifiedName.text]
        omega
    · cases hl
  · cases hl

/-! ## Words -/

theorem taken_reference (h : reference? c rest = some l) : Taken rest l := by
  obtain ⟨kind, hkind, hl⟩ := Option.bind_eq_some_iff.mp h
  split at hl
  · next tail =>
    dsimp only at hl
    split at hl
    · next d ds behind hbody hbehind =>
      cases hl
      have hlength := length_drop_cons hbehind
      have hquote : '"' ∉ d :: ds := fun hmem => by
        rw [← hbody] at hmem
        simpa using List.mem_takeWhile_imp hmem
      have hform : kind = .subjectIdentifier ∨ kind = .subjectLocator ∨ kind = .itemIdentifier := by
        unfold referenceKind? at hkind
        split at hkind <;> cases hkind <;> simp
      have hquoted : (quoted (String.ofList (d :: ds))).toList.length = ds.length + 3 := by
        rw [quoted_of_not_mem (by rwa [String.toList_ofList]), String.toList_ofList]
        simp
      rw [hbody] at hlength ⊢
      refine ⟨?_, ?_, by simp only [List.length_cons] at hlength ⊢; omega⟩
      · rcases hform with rfl | rfl | rfl <;>
          exact ⟨by rw [String.toList_ofList]; simp, by rwa [String.toList_ofList]⟩
      · rcases hform with rfl | rfl | rfl <;>
          · rw [Token.written, Style.atom, String.toList_append, List.length_append, hquoted]
            simp
            omega
    · cases hl
  · cases hl

theorem taken_qname (hc : isNameStart c = true) (h : qname? c rest = some l) : Taken rest l := by
  unfold qname? at h
  dsimp only at h
  split at h
  · next tail htail =>
    split at h
    · cases h
    · next hne =>
      cases h
      have hlength := length_drop_cons htail
      have hle := length_nameRun_le tail
      refine ⟨⟨⟨c, _, String.toList_ofList, hc, isNamePart_nameRun rest⟩, ?_, ?_⟩, ?_, ?_⟩
      · simpa using hne
      · simpa using isNamePart_nameRun tail
      · simp [Token.written, Token.text, QualifiedName.text]
        omega
      · dsimp only
        omega
  · cases h

theorem length_keyword {w : String} {k : Keyword} (h : Keyword.ofText? w = some k) :
    k.text.toList.length = w.toList.length := by
  have hfound := List.find?_some (p := fun k : Keyword => k.text.toList == w.toList.map Char.toLower) h
  rw [beq_iff_eq.mp hfound, List.length_map]

theorem taken_word (hc : isNameStart c = true) (rest : List Char) : Taken rest (word c rest) := by
  have hrun := length_nameRun_le rest
  unfold word
  cases hreference : reference? c rest with
  | some l => exact taken_reference hreference
  | none =>
      cases hqname : qname? c rest with
      | some l => exact taken_qname hc hqname
      | none =>
          dsimp only [Option.or_none, Option.getD_none]
          split
          · next keyword hkeyword =>
            have hlength := length_keyword hkeyword
            refine ⟨trivial, ?_, hrun⟩
            simpa [Token.written, Token.text] using Nat.le_of_eq hlength
          · next hkeyword =>
            refine ⟨⟨⟨c, _, String.toList_ofList, hc, isNamePart_nameRun rest⟩, ?_⟩, ?_, hrun⟩
            · simpa using hkeyword
            · simp [Token.written, Style.atom, AtomKind.write]

/-! ## Strings, numbers and marks -/

theorem stringBody_length {value : List Char} {n : Nat} (h : stringBody cs = some (value, n)) :
    n = (value.flatMap fun c => if c = '"' then ['"', '"'] else [c]).length + 1 ∧ n ≤ cs.length := by
  fun_induction stringBody cs generalizing value n with
  | case1 => cases h
  | case2 cs ih =>
      obtain ⟨⟨value', n'⟩, hbody, heq⟩ := Option.map_eq_some_iff.mp h
      cases heq
      obtain ⟨hn, hle⟩ := ih hbody
      simp only [List.flatMap_cons, if_true, List.length_append, List.length_cons, List.length_nil]
      omega
  | case3 cs =>
      cases h
      simp
  | case4 c cs _ hquote ih =>
      obtain ⟨⟨value', n'⟩, hbody, heq⟩ := Option.map_eq_some_iff.mp h
      cases heq
      obtain ⟨hn, hle⟩ := ih hbody
      have hc : c ≠ '"' := hquote
      simp only [List.flatMap_cons, if_neg hc, List.length_append, List.length_cons, List.length_nil]
      omega

theorem taken_number (hc : isNumberStart c = true) (h : number? (c :: rest) = some l) :
    Taken rest l := by
  obtain ⟨kind, n, hkind, hpos, hle, rfl, htake⟩ := number?_take h
  obtain ⟨n, rfl⟩ : ∃ m, n = m + 1 := ⟨n - 1, by omega⟩
  simp only [List.length_cons, Nat.add_le_add_iff_right] at hle
  rw [List.take_succ_cons] at htake ⊢
  have hlength : (rest.take n).length = n := List.length_take_of_le hle
  refine ⟨?_, ?_, by simpa using hle⟩
  · have hform : ∃ d w, (String.ofList (c :: rest.take n)).toList = d :: w ∧
        isNumberStart d = true ∧ number? (String.ofList (c :: rest.take n)).toList =
          some ⟨.atom kind (String.ofList (String.ofList (c :: rest.take n)).toList), w.length⟩ := by
      simp only [String.toList_ofList]
      exact ⟨c, _, rfl, hc, by simpa [hlength] using htake⟩
    simp only [numberForms, List.map_cons, List.map_nil, List.mem_cons, List.not_mem_nil,
      or_false] at hkind
    rcases hkind with rfl | rfl | rfl | rfl <;> exact hform
  · have hwritten : (Token.atom kind (String.ofList (c :: rest.take n))).written =
        c :: rest.take n := by
      simp only [numberForms, List.map_cons, List.map_nil, List.mem_cons, List.not_mem_nil,
        or_false] at hkind
      rcases hkind with rfl | rfl | rfl | rfl <;>
        simp [Token.written, Style.atom, AtomKind.write]
    rw [hwritten]
    simp [hlength]

theorem taken_mark (h : mark? (c :: rest) = some l) : Taken rest l := by
  obtain ⟨m, hfound, rfl⟩ := Option.map_eq_some_iff.mp h
  have hprefix : m.text.toList.isPrefixOf (c :: rest) = true :=
    List.find?_some (p := fun m : Symbol => m.text.toList.isPrefixOf (c :: rest)) hfound
  have hle := (List.isPrefixOf_iff_prefix.mp hprefix).length_le
  have hlength : m.text.toList.length = m.text.length := String.length_toList
  rw [List.length_cons] at hle
  refine ⟨trivial, ?_, ?_⟩
  · simp only [Token.written, Token.text]
    omega
  · dsimp only
    omega

/-- What the scanner makes of the front of a text. -/
theorem taken_read (h : read c rest = .ok l) : Taken rest l := by
  unfold read at h
  by_cases hquestion : c = '?'
  · rw [if_pos hquestion] at h
    cases h
    exact ⟨trivial, by decide, Nat.zero_le _⟩
  rw [if_neg hquestion] at h
  by_cases hquote : c = '"'
  · rw [if_pos hquote] at h
    split at h
    · next value n hbody =>
      cases h
      obtain ⟨hn, hle⟩ := stringBody_length hbody
      refine ⟨trivial, ?_, hle⟩
      simp [Token.written, Style.atom, AtomKind.write, quoted, hn]
    · cases h
  rw [if_neg hquote] at h
  by_cases hangle : c = '<'
  · rw [if_pos hangle] at h
    cases h
    exact taken_angle rest
  rw [if_neg hangle] at h
  by_cases hdollar : c = '$'
  · rw [if_pos hdollar] at h
    split at h
    · next name hname =>
      cases h
      obtain ⟨hisName, hle⟩ := nameBody_isName hname
      refine ⟨by simpa [Token.Proper, ProperAtom] using hisName, ?_, hle⟩
      simp [Token.written, Style.atom, AtomKind.write]
    · cases h
  rw [if_neg hdollar] at h
  by_cases hat : c = '@'
  · rw [if_pos hat] at h
    split at h
    · next name hname =>
      cases h
      obtain ⟨hisName, hle⟩ := nameBody_isName hname
      refine ⟨by simpa [Token.Proper, ProperAtom] using hisName, ?_, hle⟩
      simp [Token.written, Style.atom, AtomKind.write]
    · cases h
  rw [if_neg hat] at h
  by_cases hpercent : c = '%'
  · rw [if_pos hpercent] at h
    split at h
    · next found hfound =>
      cases h
      exact taken_percent hfound
    · cases h
  rw [if_neg hpercent] at h
  by_cases hbracket : c = '['
  · rw [if_pos hbracket] at h
    split at h
    · next found hfound =>
      cases h
      exact taken_bracket hfound
    · cases h
  rw [if_neg hbracket] at h
  split at h
  · next hname =>
    cases h
    exact taken_word hname rest
  split at h
  · next hnumber =>
    split at h
    · next found hfound =>
      cases h
      exact taken_number hnumber hfound
    · split at h
      · cases h
        exact ⟨trivial, by decide, Nat.zero_le _⟩
      · cases h
  · split at h
    · next found hfound =>
      cases h
      exact taken_mark hfound
    · cases h

end Lexeme

namespace Scan

/-- The token is one that could be scanned from a text of the length. -/
def Possible (length : Nat) (t : PlacedToken) : Prop :=
  t.token.Proper ∧ t.token.written.length ≤ length

theorem Possible.mono {m n : Nat} {t : PlacedToken} (h : Possible m t) (hle : m ≤ n) :
    Possible n t := ⟨h.1, h.2.trans hle⟩

theorem possible_fromToken {place : Position} {cs : List Char}
    (ih : ∀ mode place (ds : List Char), ds.length < cs.length →
      ∀ t ∈ (ofText mode place ds).tokens, Possible ds.length t) :
    ∀ t ∈ (fromToken place cs).tokens, Possible cs.length t := by
  unfold fromToken
  split
  · simp [done]
  · simp [broken]
  · next c rest _ =>
    split
    · simp [broken]
    · next l hl =>
      have htaken := Lexeme.taken_read hl
      have hfirst : Possible (c :: rest).length ⟨l.token, place⟩ :=
        ⟨htaken.proper, htaken.written.trans (Nat.succ_le_succ htaken.extra)⟩
      split
      · simpa [cons, done] using hfirst
      · have hshorter : (rest.drop l.extra).length < (c :: rest).length := by
          simp only [List.length_drop, List.length_cons]
          omega
        intro t ht
        obtain rfl | ht := List.mem_cons.mp ht
        · exact hfirst
        · exact (ih _ _ _ hshorter t ht).mono (Nat.le_of_lt hshorter)

/-- Every scanned token has the form of its kind and is no longer than the text. -/
theorem possible_of_mem {mode : ScanMode} {place : Position} {cs : List Char} {t : PlacedToken}
    (ht : t ∈ (ofText mode place cs).tokens) : Possible cs.length t := by
  induction hn : cs.length using Nat.strong_induction_on generalizing mode place cs t with
  | _ n ih =>
  subst hn
  have ih' : ∀ mode place (ds : List Char), ds.length < cs.length →
      ∀ t ∈ (ofText mode place ds).tokens, Possible ds.length t :=
    fun mode place ds hlt t ht => ih ds.length hlt ht rfl
  cases mode with
  | query =>
      rw [ofText_query] at ht
      have hle : (cs.drop (ignorableSize cs)).length ≤ cs.length := by simp
      exact (possible_fromToken (fun mode place ds hlt => ih' mode place ds (hlt.trans_le hle)) t
        ht).mono hle
  | content =>
      rw [ofText.eq_def] at ht
      dsimp only at ht
      split at ht
      · simp [done] at ht
      · next c rest =>
        split at ht
        · obtain rfl | ht := List.mem_cons.mp ht
          · refine ⟨trivial, ?_⟩
            simp only [Token.written, String.toList_ofList, List.length_take, List.length_drop,
              List.length_cons]
            omega
          · have hshorter : ((rest.drop (blankRun rest).length).drop
                ((Fragment.split (rest.drop (blankRun rest).length)).1 +
                  (Fragment.split (rest.drop (blankRun rest).length)).2)).length <
                  (c :: rest).length := by
              simp only [List.length_drop, List.length_cons]
              omega
            exact (ih' _ _ _ hshorter t ht).mono (Nat.le_of_lt hshorter)
        · simp [broken] at ht

end Scan

theorem proper_of_mem_scan {text : String} {t : PlacedToken} (ht : t ∈ (scan text).tokens) :
    t.token.Proper := (Scan.possible_of_mem ht).1

end TopicQuery
