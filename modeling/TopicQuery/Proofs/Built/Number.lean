import Mathlib.Algebra.Group.Nat.Defs
import Mathlib.Data.List.TakeWhile
import TopicQuery.Decimal
import TopicQuery.Proofs.Lexeme.Written

/-!
Numbers of a text. A number that the scanner takes is one sign at most and digits,
with a point among them if it is a decimal, and so it is read as a decimal number;
only its digits behind the point have to be counted with 64 bits.
-/

namespace TopicQuery

/-! ## What a number consists of -/

/-- Digits only. -/
def AllDigits (cs : List Char) : Prop := ∀ c ∈ cs, c.isDigit = true

/-- The signs that a number may have. -/
def signs : List (List Char) := [[], ['+'], ['-']]

namespace Pattern

variable {cs : List Char} {n : Nat}

theorem sign_split (h : sign cs = some n) : n ≤ cs.length ∧ cs.take n ∈ signs := by
  obtain hone | ⟨-, rfl⟩ := opt_eq_some.mp h
  · cases cs with
    | nil => simp [one] at hone
    | cons c cs =>
        simp only [one, Option.ite_none_right_eq_some, Option.some.injEq, Bool.or_eq_true,
          beq_iff_eq] at hone
        obtain ⟨rfl | rfl, rfl⟩ := hone <;> simp [signs]
  · simp [signs]

theorem run_split (h : run 1 Char.isDigit cs = some n) :
    AllDigits (cs.take n) ∧ 0 < n ∧ n ≤ cs.length := by
  simp only [run, Option.ite_none_right_eq_some, Option.some.injEq] at h
  obtain ⟨hleast, rfl⟩ := h
  refine ⟨?_, hleast, (List.takeWhile_sublist _).length_le⟩
  intro c hc
  rw [← List.prefix_iff_eq_take.mp (List.takeWhile_prefix _)] at hc
  exact List.mem_takeWhile_imp hc

theorem run_all (h : run 1 Char.isDigit cs = some cs.length) : cs ≠ [] ∧ AllDigits cs := by
  obtain ⟨hdigits, hpos, -⟩ := run_split h
  rw [List.take_length] at hdigits
  exact ⟨List.length_pos_iff.mp hpos, hdigits⟩

/-- Digits behind a point. -/
theorem fraction_split (h : seq (char '.') (run 1 Char.isDigit) cs = some cs.length) :
    ∃ fraction, cs = '.' :: fraction ∧ fraction ≠ [] ∧ AllDigits fraction := by
  obtain ⟨i, j, hi, hj, hlength⟩ := seq_eq_some.mp h
  cases cs with
  | nil => simp [char, one] at hi
  | cons c fraction =>
      simp only [char, one, beq_iff_eq, Option.ite_none_right_eq_some, Option.some.injEq] at hi
      obtain ⟨rfl, rfl⟩ := hi
      rw [List.length_cons] at hlength
      obtain rfl : j = fraction.length := by omega
      exact ⟨fraction, rfl, run_all hj⟩

theorem all_singleton (p : Pattern) : all [p] = p := by
  funext cs
  simp only [all, seq]
  cases p cs <;> rfl

/-- A text that is an integer to its end is a sign and digits. -/
theorem integer_split (h : integer cs = some cs.length) :
    ∃ s ∈ signs, ∃ ds, cs = s ++ ds ∧ ds ≠ [] ∧ AllDigits ds := by
  obtain ⟨i, j, hi, hj, hlength⟩ := seq_eq_some.mp h
  obtain ⟨hle, hsign⟩ := sign_split hi
  obtain rfl : j = (cs.drop i).length := by rw [List.length_drop]; omega
  exact ⟨cs.take i, hsign, cs.drop i, (List.take_append_drop i cs).symm, run_all hj⟩

/-- A text that is a decimal to its end is a sign and digits, with a point among the digits. -/
theorem decimal_split (h : decimal cs = some cs.length) :
    ∃ s ∈ signs, ∃ whole fraction, cs = s ++ (whole ++ '.' :: fraction) ∧ fraction ≠ [] ∧
      AllDigits whole ∧ AllDigits fraction := by
  obtain ⟨i, j, hi, hj, hlength⟩ := seq_eq_some.mp h
  obtain ⟨hle, hsign⟩ := sign_split hi
  obtain rfl : j = (cs.drop i).length := by rw [List.length_drop]; omega
  have hsplit := (List.take_append_drop i cs).symm
  obtain hwhole | ⟨-, hpoint⟩ := alt_eq_some.mp hj
  · obtain ⟨k, l, hk, hl, hrest⟩ := seq_eq_some.mp hwhole
    obtain ⟨hdigits, -, hshort⟩ := run_split hk
    obtain rfl : l = ((cs.drop i).drop k).length := by rw [List.length_drop]; omega
    rw [all, all_singleton] at hl
    obtain ⟨fraction, hdrop, hne, hfraction⟩ := fraction_split hl
    refine ⟨cs.take i, hsign, (cs.drop i).take k, fraction, ?_, hne, hdigits, hfraction⟩
    rw [← hdrop, List.take_append_drop, ← hsplit]
  · obtain ⟨fraction, hdrop, hne, hfraction⟩ := fraction_split hpoint
    refine ⟨cs.take i, hsign, [], fraction, ?_, hne, by simp [AllDigits], hfraction⟩
    rw [List.nil_append, ← hdrop, ← hsplit]

end Pattern

/-! ## Reading it -/

theorem AllDigits.ne {cs : List Char} (h : AllDigits cs) {c d : Char} (hc : c ∈ cs)
    (hd : d ∈ ['_', '+', '-', '.', 'e', 'E']) : c ≠ d := by
  have hmarks : ∀ d ∈ ['_', '+', '-', '.', 'e', 'E'], d.isDigit = false := by simp
  rintro rfl
  have hdigit := h c hc
  rw [hmarks c hd] at hdigit
  cases hdigit

namespace Decimal

variable {s ds whole fraction : List Char}

theorem magnitude_digits (hne : ds ≠ []) (h : AllDigits ds) : ∃ n, magnitude? ds = .ok n := by
  have hhead : (ds.head? == some '_') = false := by
    obtain ⟨d, ds, rfl⟩ := List.exists_cons_of_ne_nil hne
    simpa using h.ne List.mem_cons_self (by simp)
  have hkeep : ds.filter (· != '_') = ds := by
    refine List.filter_eq_self.mpr fun c hc => ?_
    simpa using h.ne hc (by simp)
  refine ⟨Text.valueFrom 0 ds, ?_⟩
  rw [magnitude?, if_neg (by simpa using hne), if_neg (by simp [hhead]), hkeep,
    if_pos (List.all_eq_true.mpr h)]

theorem dropPlus_digits {d : Char} (hd : d ≠ '+') : dropPlus (d :: ds) = d :: ds := by
  unfold dropPlus
  split <;> simp_all

theorem signed_digits (hs : s ∈ signs) (hne : ds ≠ []) (h : AllDigits ds) :
    ∃ r, signed? (s ++ ds) = .ok r := by
  obtain ⟨n, hn⟩ := magnitude_digits hne h
  obtain ⟨d, ds, rfl⟩ := List.exists_cons_of_ne_nil hne
  have hplus : d ≠ '+' := h.ne List.mem_cons_self (by simp)
  have hminus : d ≠ '-' := h.ne List.mem_cons_self (by simp)
  simp only [signs, List.mem_cons, List.not_mem_nil, or_false] at hs
  obtain rfl | rfl | rfl := hs
  · refine ⟨(false, n), ?_⟩
    simp [signed?, hminus, dropPlus_digits hplus, hn, Except.map]
  · refine ⟨(false, n), ?_⟩
    have hdrop : dropPlus ('+' :: d :: ds) = d :: ds := by
      unfold dropPlus
      split <;> simp_all
    simp [signed?, hdrop, hn, Except.map]
  · refine ⟨(n != 0, n), ?_⟩
    simp [signed?, hplus, dropPlus_digits hplus, hn, Except.map]

/-- A number without an exponent is read if its digits are counted with 64 bits. -/
theorem read_of_parts {cs : List Char} (hne : cs ≠ []) (hmarks : ∀ c ∈ cs, c ≠ 'e' ∧ c ≠ 'E')
    (hwhole : cs.takeWhile (· != '.') = whole)
    (hfraction : (cs.drop whole.length).drop 1 = fraction)
    (hlength : fraction.length < 2 ^ 63) (hsigned : ∃ r, signed? (whole ++ fraction) = .ok r) :
    ∃ n, read (String.ofList cs) = .ok n := by
  have hmantissa : cs.takeWhile (fun c => c != 'e' && c != 'E') = cs := by
    refine List.takeWhile_eq_self_iff.mpr fun c hc => ?_
    simpa using hmarks c hc
  have hscale : Text.fitsSigned 64 ((fraction.filter (· != '_')).length : Int) = true := by
    have hle := List.length_filter_le (· != '_') fraction
    simp only [Text.fitsSigned, Bool.and_eq_true, decide_eq_true_eq]
    constructor <;> simp <;> omega
  obtain ⟨⟨negative, magnitude⟩, hsigned⟩ := hsigned
  refine ⟨⟨negative, magnitude, (fraction.filter (· != '_')).length⟩, ?_⟩
  rw [read]
  simp only [String.toList_ofList, hmantissa, List.drop_length, hwhole, hfraction, hsigned]
  simp [hne, hscale, bind, Except.bind, pure, Except.pure]

theorem sign_ne {c d : Char} (hs : s ∈ signs) (hc : c ∈ s) (hd : d ∈ ['.', 'e', 'E']) : c ≠ d := by
  have hall : ∀ s ∈ signs, ∀ c ∈ s, ∀ d ∈ ['.', 'e', 'E'], c ≠ d := by simp [signs]
  exact hall s hs c hc d hd

/-- A whole number is read behind its plus sign. -/
theorem exists_read_integer {cs : List Char} (h : Pattern.integer cs = some cs.length) :
    ∃ n, read (String.ofList (cs.dropWhile (· == '+'))) = .ok n := by
  obtain ⟨s, hs, ds, rfl, hne, hdigits⟩ := Pattern.integer_split h
  have hdropped : ∃ s' ∈ signs, (s ++ ds).dropWhile (· == '+') = s' ++ ds := by
    obtain ⟨d, ds, rfl⟩ := List.exists_cons_of_ne_nil hne
    have hplus : d ≠ '+' := hdigits.ne List.mem_cons_self (by simp)
    simp only [signs, List.mem_cons, List.not_mem_nil, or_false] at hs
    obtain rfl | rfl | rfl := hs
    · exact ⟨[], by simp [signs], by simp [hplus]⟩
    · exact ⟨[], by simp [signs], by simp [hplus]⟩
    · exact ⟨['-'], by simp [signs], by simp⟩
  obtain ⟨s', hs', hdropped⟩ := hdropped
  have hparts : ∀ c ∈ s' ++ ds, c ≠ '.' ∧ c ≠ 'e' ∧ c ≠ 'E' := by
    intro c hc
    obtain hc | hc := List.mem_append.mp hc
    · exact ⟨sign_ne hs' hc (by simp), sign_ne hs' hc (by simp), sign_ne hs' hc (by simp)⟩
    · exact ⟨hdigits.ne hc (by simp), hdigits.ne hc (by simp), hdigits.ne hc (by simp)⟩
  have hwhole : (s' ++ ds).takeWhile (· != '.') = s' ++ ds := by
    refine List.takeWhile_eq_self_iff.mpr fun c hc => ?_
    simpa using (hparts c hc).1
  rw [hdropped]
  have hfraction : ((s' ++ ds).drop (s' ++ ds).length).drop 1 = [] := by
    rw [List.drop_length, List.drop_nil]
  refine read_of_parts (by simp [hne]) (fun c hc => (hparts c hc).2) hwhole hfraction (by simp) ?_
  rw [List.append_nil]
  exact signed_digits hs' hne hdigits

/-- A number with a point is read. -/
theorem exists_read_decimal {cs : List Char} (h : Pattern.decimal cs = some cs.length)
    (hlength : cs.length < 2 ^ 63) : ∃ n, read (String.ofList cs) = .ok n := by
  obtain ⟨s, hs, whole, fraction, rfl, hne, hdigits, hdigits'⟩ := Pattern.decimal_split h
  have hwhole : (s ++ (whole ++ '.' :: fraction)).takeWhile (· != '.') = s ++ whole := by
    have hfront : ∀ c ∈ s ++ whole, (c != '.') = true := by
      intro c hc
      obtain hc | hc := List.mem_append.mp hc
      · simpa using sign_ne hs hc (by simp)
      · simpa using hdigits.ne hc (by simp)
    rw [← List.append_assoc, List.takeWhile_append_of_pos hfront]
    simp
  have hfraction : ((s ++ (whole ++ '.' :: fraction)).drop (s ++ whole).length).drop 1 =
      fraction := by
    rw [← List.append_assoc, List.drop_left]
    rfl
  refine read_of_parts (by simp) (fun c hc => ?_) hwhole hfraction ?_ ?_
  · simp only [List.mem_append, List.mem_cons] at hc
    obtain hc | hc | rfl | hc := hc
    · exact ⟨sign_ne hs hc (by simp), sign_ne hs hc (by simp)⟩
    · exact ⟨hdigits.ne hc (by simp), hdigits.ne hc (by simp)⟩
    · decide
    · exact ⟨hdigits'.ne hc (by simp), hdigits'.ne hc (by simp)⟩
  · simp only [List.length_append, List.length_cons] at hlength
    omega
  · rw [List.append_assoc]
    refine signed_digits hs (by simp [hne]) fun c hc => ?_
    obtain hc | hc := List.mem_append.mp hc
    · exact hdigits c hc
    · exact hdigits' c hc

end Decimal

/-! ## Number tokens -/

/-- If the token is a number, it is one that is read. -/
def Numeral (kind : AtomKind) (value : String) : Prop :=
  match kind with
  | .integer => ∃ n, Decimal.read (String.ofList (value.toList.dropWhile (· == '+'))) = .ok n
  | .decimal => ∃ n, Decimal.read value = .ok n
  | _ => True

/-- What is scanned as a number to its end has the form of its kind. -/
theorem Lexeme.form_of_number? {kind : AtomKind} {cs : List Char} {n : Nat}
    (h : number? cs = some ⟨.atom kind (String.ofList cs), n⟩) :
    ∃ form ∈ numberForms, form.1 = kind ∧ form.2 cs = some cs.length := by
  rw [number?_eq_findSome] at h
  obtain ⟨before, form, behind, hforms, hfound, -⟩ := List.findSome?_eq_some_iff.mp h
  have hmem : form ∈ numberForms := by simp [hforms]
  obtain ⟨m, hm, hlexeme⟩ := literal?_eq_some.mp hfound
  have hle := ((lawful_numberForms form hmem).1.keeps hm).1
  simp only [Lexeme.mk.injEq, Token.atom.injEq, String.ofList_inj] at hlexeme
  obtain ⟨⟨hkind, htake⟩, -⟩ := hlexeme
  have hlength := congrArg List.length htake
  rw [List.length_take] at hlength
  obtain rfl : m = cs.length := by omega
  exact ⟨form, hmem, hkind.symm, hm⟩

/-- A number of a text is read, if the text is one whose length is counted with 64 bits. -/
theorem numeral_of_proper {kind : AtomKind} {value : String} (h : (Token.atom kind value).Proper)
    (hlength : value.toList.length < 2 ^ 63) : Numeral kind value := by
  have hnumber : kind = .integer ∨ kind = .decimal →
      ∃ form ∈ Lexeme.numberForms, form.1 = kind ∧
        form.2 value.toList = some value.toList.length := by
    rintro (rfl | rfl)
    all_goals
      obtain ⟨c, w, hvalue, -, hread⟩ := h
      exact Lexeme.form_of_number? hread
  have hforms : ∀ form ∈ Lexeme.numberForms, (form.1 = .integer → form.2 = Pattern.integer) ∧
      (form.1 = .decimal → form.2 = Pattern.decimal) := by
    simp [Lexeme.numberForms]
  cases kind with
  | integer =>
      obtain ⟨form, hmem, hkind, hform⟩ := hnumber (.inl rfl)
      rw [(hforms form hmem).1 hkind] at hform
      exact Decimal.exists_read_integer hform
  | decimal =>
      obtain ⟨form, hmem, hkind, hform⟩ := hnumber (.inr rfl)
      rw [(hforms form hmem).2 hkind] at hform
      obtain ⟨n, hn⟩ := Decimal.exists_read_decimal hform hlength
      rw [String.ofList_toList] at hn
      exact ⟨n, hn⟩
  | _ => trivial

end TopicQuery
