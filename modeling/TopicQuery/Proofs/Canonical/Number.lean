import TopicQuery.Proofs.Lexeme.Written
import TopicQuery.Proofs.Phrase.Document

/-!
Plain numerals. A limit or an offset that is written as the numeral of its number
is read as that number.
-/

namespace TopicQuery

namespace Text

theorem digit_toNat (n : Nat) : (digit n).toNat = 48 + n % 10 := by
  have hall : ∀ d < 10, (Char.ofNat (48 + d)).toNat = 48 + d := by decide
  exact hall (n % 10) (Nat.mod_lt n (by decide))

theorem isDigit_digit (n : Nat) : (digit n).isDigit = true := by
  have hall : ∀ d < 10, (Char.ofNat (48 + d)).isDigit = true := by decide
  exact hall (n % 10) (Nat.mod_lt n (by decide))

theorem digits_ne_nil (n : Nat) : digits n ≠ [] := by
  rw [digits]
  split <;> simp

theorem isDigit_of_mem_digits {n : Nat} {c : Char} (h : c ∈ digits n) : c.isDigit = true := by
  rw [digits] at h
  split at h
  · obtain rfl : c = digit n := by simpa using h
    exact isDigit_digit n
  · obtain h | h := List.mem_append.mp h
    · exact isDigit_of_mem_digits h
    · obtain rfl : c = digit n := by simpa using h
      exact isDigit_digit n

theorem valueFrom_append (k : Nat) (cs : List Char) (c : Char) :
    valueFrom k (cs ++ [c]) = valueFrom k cs * 10 + (c.toNat - 48) := by
  induction cs generalizing k with
  | nil => rfl
  | cons d cs ih => exact ih _

theorem valueFrom_digits (n : Nat) : valueFrom 0 (digits n) = n := by
  induction n using Nat.strongRecOn with
  | ind n ih =>
      rw [digits]
      split
      · next h =>
        have hvalue : valueFrom 0 [digit n] = 0 * 10 + ((digit n).toNat - 48) := rfl
        rw [hvalue, digit_toNat]
        omega
      · next h =>
        rw [valueFrom_append, ih (n / 10) (by omega), digit_toNat]
        omega

theorem number?_digits (n : Nat) : number? (digits n) = some n := by
  have hall : (digits n).all Char.isDigit = true :=
    List.all_eq_true.mpr fun c hc => isDigit_of_mem_digits hc
  have hempty : (digits n).isEmpty = false := by simpa using digits_ne_nil n
  simp [number?, hall, hempty, valueFrom_digits]

theorem word64?_toNat (n : UInt64) : word64? n.toNat = some n := by
  rw [word64?, if_pos n.toNat_lt_size]
  simp

end Text

namespace Lexeme

open Text Pattern

/-- A run of digits is read as an integer. -/
theorem number?_of_digits {cs : List Char} (hne : cs ≠ []) (hdigits : ∀ c ∈ cs, c.isDigit = true) :
    number? cs = some ⟨.atom .integer (String.ofList cs), cs.length - 1⟩ := by
  obtain ⟨c, rest, rfl⟩ := List.exists_cons_of_ne_nil hne
  have hc := hdigits c (by simp)
  have hsigns : ∀ d ∈ ['-', '+', '.'], c ≠ d := by
    rintro d hd rfl
    simp only [List.mem_cons, List.not_mem_nil, or_false] at hd
    rcases hd with rfl | rfl | rfl <;> exact absurd hc (by decide)
  simp only [List.mem_cons, List.not_mem_nil, or_false, forall_eq_or_imp, forall_eq] at hsigns
  obtain ⟨hminus, hplus, hpoint⟩ := hsigns
  have hrun : (c :: rest).takeWhile Char.isDigit = c :: rest := by
    have := takeWhile_append_of_all hdigits (by simp : ∀ d ∈ ([] : List Char).head?, d.isDigit = false)
    rwa [List.append_nil] at this
  have hsign : sign (c :: rest) = some 0 := by
    simp [sign, opt, one, hminus, hplus]
  have hdate : Pattern.date (c :: rest) = none := by
    have hdash : opt (char '-') (c :: rest) = some 0 := by simp [opt, char, one, hminus]
    rw [Pattern.date, all, seq_of_some hdash, List.drop_zero, all]
    by_cases hlong : 4 ≤ (c :: rest).length
    · have hyear : run 4 Char.isDigit (c :: rest) = some (c :: rest).length := by
        rw [run, hrun, if_pos hlong]
      rw [seq_of_some hyear, List.drop_length]
      rfl
    · have hyear : run 4 Char.isDigit (c :: rest) = none := by rw [run, hrun, if_neg hlong]
      rw [seq_of_none hyear]
      rfl
  have hdateTime : Pattern.dateTime (c :: rest) = none := seq_of_none hdate
  have hone : run 1 Char.isDigit (c :: rest) = some (c :: rest).length := by
    rw [run, hrun, if_pos (by simp)]
  have hdecimal : Pattern.decimal (c :: rest) = none := by
    have hwhole : all [run 1 Char.isDigit, char '.', run 1 Char.isDigit] (c :: rest) = none := by
      rw [all, seq_of_some hone, List.drop_length]
      rfl
    have hfraction : seq (char '.') (run 1 Char.isDigit) (c :: rest) = none :=
      seq_of_none (by simp [char, one, hpoint])
    rw [Pattern.decimal, seq_of_some hsign, List.drop_zero, alt, hwhole, hfraction]
    rfl
  have hinteger : Pattern.integer (c :: rest) = some (c :: rest).length := by
    rw [Pattern.integer, seq_of_some hsign, List.drop_zero, hone]
    simp
  simp only [number?, literal?, hdateTime, hdate, hdecimal, hinteger, Option.map_none,
    Option.none_or, Option.map_some, List.take_length]

theorem proper_numeral (n : Nat) : (Token.atom .integer (numeral n)).Proper := by
  have hdigits : (numeral n).toList = digits n := String.toList_ofList
  obtain ⟨c, w, hw⟩ := List.exists_cons_of_ne_nil (digits_ne_nil n)
  refine ⟨c, w, hdigits.trans hw, ?_, ?_⟩
  · have := isDigit_of_mem_digits (n := n) (c := c) (by simp [hw])
    simp [isNumberStart, this]
  · rw [hdigits, number?_of_digits (digits_ne_nil n) fun _ => isDigit_of_mem_digits, hw]
    rfl

end Lexeme

namespace Phrase

/-- A bound that is written as a numeral. -/
def Bound.canonical (b : Bound) : Bound := ⟨Text.numeral b.number.toNat, b.number⟩

theorem Bound.reads_canonical (b : Bound) : b.canonical.Reads := by
  have hplus : ∀ c ∈ Text.digits b.number.toNat, (c == '+') = false := by
    intro c hc
    refine beq_eq_false_iff_ne.mpr ?_
    rintro rfl
    exact absurd (Text.isDigit_of_mem_digits hc) (by decide)
  have hdrop : (Text.digits b.number.toNat).dropWhile (· == '+') = Text.digits b.number.toNat := by
    cases hcs : Text.digits b.number.toNat with
    | nil => rfl
    | cons c cs => simp [hplus c (by simp [hcs])]
  rw [Bound.Reads, Bound.canonical, Text.numeral, String.toList_ofList, hdrop,
    Text.number?_digits]
  exact Text.word64?_toNat b.number

end Phrase

end TopicQuery
