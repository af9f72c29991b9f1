import TopicQuery.Proofs.Lexeme.Scanned

/-!
The characters of a token. What the scanner takes from the front of a text is
the token as it is displayed, character by character; only reserved words are
recognized in any case.
-/

namespace TopicQuery

open Text

/-- The characters that a token was read from. -/
def Token.StandsAs (t : Token) (cs : List Char) : Prop :=
  match t with
  | .keyword word => cs.map Char.toLower = word.text.toList
  | .fragment content => cs = content.toList
  | t => cs = t.text.toList

namespace Lexeme

variable {c : Char} {cs rest : List Char} {l : Lexeme}

/-- A lexeme with the characters behind its first one that it takes up. -/
structure Exact (c : Char) (rest : List Char) (l : Lexeme) : Prop where
  characters : l.token.StandsAs (c :: rest.take l.extra)
  whole : ∀ content, l.token ≠ .fragment content

/-! ## Names -/

/-- In front of a text stands a piece of it and what begins behind the piece. -/
theorem eq_append_of_drop {piece : List Char} {d : Char} {tail : List Char}
    (hpiece : piece <+: cs) (h : cs.drop piece.length = d :: tail) : cs = piece ++ d :: tail := by
  obtain ⟨behind, rfl⟩ := hpiece
  rw [List.drop_left] at h
  rw [h]

theorem take_of_prefix {piece : List Char} (h : piece <+: cs) : cs.take piece.length = piece :=
  List.prefix_iff_eq_take.mp h |>.symm

theorem take_closed (piece : List Char) (d : Char) (tail : List Char) :
    (piece ++ d :: tail).take (piece.length + 1) = piece ++ [d] := by
  rw [List.take_length_add_append]
  rfl

theorem nameRun_begins (cs : List Char) : nameRun cs <+: cs := List.takeWhile_prefix _

theorem nameBody_begins {first : Char → Bool} {name : List Char}
    (h : nameBody first cs = some name) : name <+: cs := by
  cases cs with
  | nil => simp [nameBody] at h
  | cons c cs =>
      simp only [nameBody] at h
      split at h
      · cases h
        exact List.cons_prefix_cons.mpr ⟨rfl, nameRun_begins cs⟩
      · cases h

/-- A sigil with the name behind it. -/
theorem exact_sigil {kind : AtomKind} {sigil : String} {first : Char → Bool} {name : List Char}
    (hwrite : ∀ value, kind.write value = sigil ++ value) (hsigil : sigil.toList = [c])
    (h : nameBody first rest = some name) :
    Exact c rest ⟨.atom kind (String.ofList name), name.length⟩ := by
  refine ⟨?_, by simp⟩
  simp [Token.StandsAs, Token.text, hwrite, hsigil, take_of_prefix (nameBody_begins h)]

/-! ## Angles and percent signs -/

theorem exact_angle (rest : List Char) : Exact '<' rest (angle rest) := by
  unfold angle
  dsimp only
  split
  · next tail htail =>
    split
    · exact ⟨by simp [Token.StandsAs, Token.text, Symbol.text], by simp⟩
    · have hrest := eq_append_of_drop (List.takeWhile_prefix _) htail
      refine ⟨?_, by simp⟩
      generalize rest.takeWhile isIriPart = body at hrest
      subst hrest
      simp [Token.StandsAs, Token.text, AtomKind.write, take_closed]
  · split
    · exact ⟨by simp [Token.StandsAs, Token.text, Symbol.text], by simp⟩
    · exact ⟨by simp [Token.StandsAs, Token.text, Symbol.text], by simp⟩

theorem exact_percent (h : percent rest = some l) : Exact '%' rest l := by
  obtain ⟨name, hname, hl⟩ := Option.map_eq_some_iff.mp h
  have hprefix := nameBody_begins hname
  split at hl
  · next tail htail =>
    cases hl
    have hrest := eq_append_of_drop hprefix htail
    refine ⟨?_, by simp⟩
    subst hrest
    simp [Token.StandsAs, Token.text, AtomKind.write, take_closed]
  · cases hl
    refine ⟨?_, by simp⟩
    simp [Token.StandsAs, Token.text, take_of_prefix hprefix]

theorem exact_bracket (h : bracket rest = some l) : Exact '[' rest l := by
  obtain ⟨name, hname, hl⟩ := Option.bind_eq_some_iff.mp h
  split at hl
  · next tail htail =>
    dsimp only at hl
    split at hl
    · next behind hbehind =>
      cases hl
      have hrest := eq_append_of_drop (nameBody_begins hname) htail
      have htail := eq_append_of_drop (List.takeWhile_prefix _) hbehind
      refine ⟨?_, by simp⟩
      generalize tail.takeWhile (fun c => c != ']' && !isBlank c) = body at htail
      subst htail hrest
      have hcount : name.length + body.length + 2 = (name ++ ':' :: (body ++ [']'])).length := by
        simp
        omega
      have htake : (name ++ ':' :: (body ++ ']' :: behind)).take (name.length + body.length + 2) =
          name ++ ':' :: (body ++ [']']) := by
        rw [hcount]
        exact take_of_prefix ⟨behind, by simp⟩
      simp [Token.StandsAs, Token.text, QualifiedName.text, htake]
    · cases hl
  · cases hl

/-! ## Words -/

theorem exact_reference (h : reference? c rest = some l) : Exact c rest l := by
  obtain ⟨kind, hkind, hl⟩ := Option.bind_eq_some_iff.mp h
  split at hl
  · next tail =>
    dsimp only at hl
    split at hl
    · next d ds behind hbody hbehind =>
      cases hl
      have htail := eq_append_of_drop (List.takeWhile_prefix _) hbehind
      refine ⟨?_, by simp⟩
      rw [hbody] at htail ⊢
      subst htail
      rw [List.take_succ_cons, take_closed]
      unfold referenceKind? at hkind
      split at hkind <;> cases hkind <;> simp [Token.StandsAs, Token.text, AtomKind.write]
    · cases hl
  · cases hl

theorem exact_qname (h : qname? c rest = some l) : Exact c rest l := by
  unfold qname? at h
  dsimp only at h
  split at h
  · next tail htail =>
    split at h
    · cases h
    · cases h
      have hrest := eq_append_of_drop (nameRun_begins rest) htail
      refine ⟨?_, by simp⟩
      generalize nameRun rest = name at hrest
      have hcount : name.length + (nameRun tail).length + 1 =
          (name ++ ':' :: nameRun tail).length := by
        simp
        omega
      have htake : rest.take (name.length + (nameRun tail).length + 1) =
          name ++ ':' :: nameRun tail := by
        rw [hcount]
        refine take_of_prefix ?_
        rw [hrest]
        exact List.prefix_append_right_inj name |>.mpr
          (List.cons_prefix_cons.mpr ⟨rfl, nameRun_begins tail⟩)
      simp [Token.StandsAs, Token.text, QualifiedName.text, htake]
  · cases h

theorem exact_word (c : Char) (rest : List Char) : Exact c rest (word c rest) := by
  unfold word
  cases hreference : reference? c rest with
  | some l => exact exact_reference hreference
  | none =>
      cases hqname : qname? c rest with
      | some l => exact exact_qname hqname
      | none =>
          dsimp only [Option.or_none, Option.getD_none]
          split
          · next keyword hkeyword =>
            have hfound := List.find?_some
              (p := fun k : Keyword => k.text.toList == _) hkeyword
            rw [beq_iff_eq, String.toList_ofList] at hfound
            refine ⟨?_, by simp⟩
            simp [Token.StandsAs, take_of_prefix (nameRun_begins rest), hfound]
          · refine ⟨?_, by simp⟩
            simp [Token.StandsAs, Token.text, AtomKind.write, take_of_prefix (nameRun_begins rest)]

/-! ## Strings, numbers and marks -/

theorem stringBody_take {value : List Char} {n : Nat} (h : stringBody cs = some (value, n)) :
    cs.take n = value.flatMap (fun c => if c = '"' then ['"', '"'] else [c]) ++ ['"'] := by
  fun_induction stringBody cs generalizing value n with
  | case1 => cases h
  | case2 cs ih =>
      obtain ⟨⟨value', n'⟩, hbody, heq⟩ := Option.map_eq_some_iff.mp h
      cases heq
      simp [ih hbody]
  | case3 cs =>
      cases h
      rfl
  | case4 c cs _ hquote ih =>
      obtain ⟨⟨value', n'⟩, hbody, heq⟩ := Option.map_eq_some_iff.mp h
      cases heq
      have hc : c ≠ '"' := hquote
      simp [ih hbody, hc]

theorem exact_string {value : List Char} {n : Nat} (h : stringBody rest = some (value, n)) :
    Exact '"' rest ⟨.atom .string (String.ofList value), n⟩ := by
  refine ⟨?_, by simp⟩
  simp [Token.StandsAs, Token.text, AtomKind.write, quoted, stringBody_take h]

theorem exact_number (h : number? (c :: rest) = some l) : Exact c rest l := by
  obtain ⟨kind, n, hkind, hpos, -, rfl, -⟩ := number?_take h
  obtain ⟨n, rfl⟩ : ∃ m, n = m + 1 := ⟨n - 1, by omega⟩
  refine ⟨?_, by simp⟩
  simp only [numberForms, List.map_cons, List.map_nil, List.mem_cons, List.not_mem_nil,
    or_false] at hkind
  rcases hkind with rfl | rfl | rfl | rfl <;> simp [Token.StandsAs, Token.text, AtomKind.write]

theorem exact_mark (h : mark? (c :: rest) = some l) : Exact c rest l := by
  obtain ⟨m, hfound, rfl⟩ := Option.map_eq_some_iff.mp h
  have hprefix : m.text.toList.isPrefixOf (c :: rest) = true :=
    List.find?_some (p := fun m : Symbol => m.text.toList.isPrefixOf (c :: rest)) hfound
  refine ⟨?_, by simp⟩
  have htake := take_of_prefix (List.isPrefixOf_iff_prefix.mp hprefix)
  obtain ⟨n, hn⟩ : ∃ n, m.text.toList.length = n + 1 := by
    cases m <;> exact ⟨_, rfl⟩
  rw [hn, List.take_succ_cons] at htake
  rw [String.length_toList] at hn
  simp [Token.StandsAs, Token.text, hn, htake]

/-- A token is read from its own characters. -/
theorem exact_read (h : read c rest = .ok l) : Exact c rest l := by
  unfold read at h
  by_cases hquestion : c = '?'
  · rw [if_pos hquestion] at h
    cases h
    exact ⟨by simp [Token.StandsAs, Token.text, Symbol.text, hquestion], by simp⟩
  rw [if_neg hquestion] at h
  by_cases hquote : c = '"'
  · rw [if_pos hquote] at h
    subst hquote
    split at h
    · next value n hbody =>
      cases h
      exact exact_string hbody
    · cases h
  rw [if_neg hquote] at h
  by_cases hangle : c = '<'
  · rw [if_pos hangle] at h
    subst hangle
    cases h
    exact exact_angle rest
  rw [if_neg hangle] at h
  by_cases hdollar : c = '$'
  · rw [if_pos hdollar] at h
    subst hdollar
    split at h
    · next name hname =>
      cases h
      exact exact_sigil (fun _ => rfl) rfl hname
    · cases h
  rw [if_neg hdollar] at h
  by_cases hat : c = '@'
  · rw [if_pos hat] at h
    subst hat
    split at h
    · next name hname =>
      cases h
      exact exact_sigil (fun _ => rfl) rfl hname
    · cases h
  rw [if_neg hat] at h
  by_cases hpercent : c = '%'
  · rw [if_pos hpercent] at h
    subst hpercent
    split at h
    · next found hfound =>
      cases h
      exact exact_percent hfound
    · cases h
  rw [if_neg hpercent] at h
  by_cases hbracket : c = '['
  · rw [if_pos hbracket] at h
    subst hbracket
    split at h
    · next found hfound =>
      cases h
      exact exact_bracket hfound
    · cases h
  rw [if_neg hbracket] at h
  split at h
  · cases h
    exact exact_word c rest
  split at h
  · split at h
    · next found hfound =>
      cases h
      exact exact_number hfound
    · split at h
      · next hdot =>
        cases h
        exact ⟨by simp [Token.StandsAs, Token.text, Symbol.text, hdot], by simp⟩
      · cases h
  · split at h
    · next found hfound =>
      cases h
      exact exact_mark hfound
    · cases h

end Lexeme

end TopicQuery
