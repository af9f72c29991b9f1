import TopicQuery.Token.Scan

/-!
Numbers and dates are found again in what follows them. What a pattern measures
does not depend on the text behind it, as long as that begins with one of the
characters that stand behind a token in written text.
-/

namespace TopicQuery

/-- The characters that stand behind a token in written text. -/
def boundaries : List Char := [' ', '\n', ',', '(', ')', '?', '^']

/-- A text that can stand behind a token. -/
def Soft (rest : List Char) : Prop := ∀ c ∈ rest.head?, c ∈ boundaries

/-- A class without the characters that stand behind a token. -/
def Hard (p : Char → Bool) : Prop := ∀ c ∈ boundaries, p c = false

instance (p : Char → Bool) : Decidable (Hard p) :=
  List.decidableBAll _ boundaries

instance (rest : List Char) : Decidable (Soft rest) :=
  Option.decidableForallMem _

theorem soft_cons {c : Char} {cs : List Char} : Soft (c :: cs) ↔ c ∈ boundaries := by simp [Soft]

theorem Soft.head?_ne {rest : List Char} (hrest : Soft rest) {d : Char} (hd : d ∉ boundaries) :
    rest.head? ≠ some d := fun h => hd (hrest d h)

/-- A run of a class ends where the token ends. -/
theorem Hard.takeWhile_append {p : Char → Bool} (hp : Hard p) {rest : List Char} (h : Soft rest)
    (cs : List Char) : (cs ++ rest).takeWhile p = cs.takeWhile p := by
  induction cs with
  | nil =>
      cases rest with
      | nil => rfl
      | cons c rest => simp [hp c (soft_cons.mp h)]
  | cons c cs ih =>
      by_cases hc : p c = true
      · simp [hc, ih]
      · simp [hc]

namespace Pattern

variable {a b : Pattern} {cs rest : List Char} {n m : Nat}

/-! ## Cutting texts -/

/-- What a pattern finds depends on the text that it measures only. -/
structure Lawful (p : Pattern) : Prop where
  /-- The text can be cut behind what was found. -/
  keeps : ∀ {cs n}, p cs = some n → n ≤ cs.length ∧ ∀ m, n ≤ m → p (cs.take m) = some n
  /-- Where nothing was found, nothing is found in a shorter text. -/
  misses : ∀ {cs}, p cs = none → ∀ m, p (cs.take m) = none
  /-- What can stand behind a token is not looked at. -/
  stops : ∀ {rest}, Soft rest → ∀ cs, p (cs ++ rest) = p cs

/-- In a text that is cut too short the pattern takes all that is left or finds nothing. -/
def Shrinks (p : Pattern) : Prop :=
  ∀ {cs n}, p cs = some n → ∀ m, m < n → p (cs.take m) = none ∨ p (cs.take m) = some m

theorem seq_eq_some : seq a b cs = some n ↔
    ∃ i j, a cs = some i ∧ b (cs.drop i) = some j ∧ n = i + j := by
  simp only [seq, bind, Option.bind_eq_some_iff, pure, Option.some.injEq]
  constructor
  · rintro ⟨i, hi, j, hj, rfl⟩
    exact ⟨i, j, hi, hj, rfl⟩
  · rintro ⟨i, j, hi, hj, rfl⟩
    exact ⟨i, hi, j, hj, rfl⟩

theorem seq_of_some (h : a cs = some n) : seq a b cs = (b (cs.drop n)).map (n + ·) := by
  simp only [seq, h, bind, Option.bind_some, pure]
  cases b (cs.drop n) <;> rfl

theorem seq_of_none (h : a cs = none) : seq a b cs = none := by simp [seq, h]

theorem opt_eq_some : opt a cs = some n ↔ a cs = some n ∨ a cs = none ∧ n = 0 := by
  cases h : a cs <;> simp [opt, h, eq_comm]

theorem alt_eq_some : alt a b cs = some n ↔ a cs = some n ∨ a cs = none ∧ b cs = some n := by
  cases h : a cs <;> simp [alt, h]

theorem alt_eq_none : alt a b cs = none ↔ a cs = none ∧ b cs = none := by
  cases h : a cs <;> simp [alt, h]

/-! ## Single characters and runs -/

theorem lawful_one {p : Char → Bool} (hp : Hard p) : Lawful (one p) where
  keeps {cs n} h := by
    cases cs with
    | nil => simp [one] at h
    | cons c cs =>
        simp only [one, Option.ite_none_right_eq_some, Option.some.injEq] at h
        obtain ⟨hc, rfl⟩ := h
        refine ⟨by simp, fun m hm => ?_⟩
        obtain ⟨m, rfl⟩ := Nat.exists_eq_add_of_le' hm
        simp [one, hc]
  misses {cs} h m := by
    cases cs with
    | nil => simpa using h
    | cons c cs =>
        cases m with
        | zero => rfl
        | succ m => simpa [one] using h
  stops {rest} hrest cs := by
    cases cs with
    | nil =>
        cases rest with
        | nil => rfl
        | cons c rest => simp [one, hp c (soft_cons.mp hrest)]
    | cons c cs => rfl

theorem shrinks_one (p : Char → Bool) : Shrinks (one p) := fun {cs n} h m hm => by
  cases cs with
  | nil => simp [one] at h
  | cons c cs =>
      simp only [one, Option.ite_none_right_eq_some, Option.some.injEq] at h
      obtain rfl : m = 0 := by omega
      exact .inl rfl

theorem length_takeWhile_take (p : Char → Bool) (cs : List Char) (m : Nat) :
    ((cs.take m).takeWhile p).length = min m (cs.takeWhile p).length := by
  rw [← List.take_takeWhile, List.length_take]

theorem lawful_run {p : Char → Bool} (hp : Hard p) (least : Nat) : Lawful (run least p) where
  keeps {cs n} h := by
    simp only [run, Option.ite_none_right_eq_some, Option.some.injEq] at h
    obtain ⟨hleast, rfl⟩ := h
    refine ⟨(List.takeWhile_sublist p).length_le, fun m hm => ?_⟩
    simp [run, length_takeWhile_take, Nat.min_eq_right hm, hleast]
  misses {cs} h m := by
    simp only [run, ite_eq_right_iff, reduceCtorEq, imp_false] at h ⊢
    rw [length_takeWhile_take]
    omega
  stops {rest} hrest cs := by simp only [run, hp.takeWhile_append hrest]

theorem shrinks_run (p : Char → Bool) (least : Nat) : Shrinks (run least p) :=
  fun {cs n} h m hm => by
    simp only [run, Option.ite_none_right_eq_some, Option.some.injEq] at h
    obtain ⟨-, rfl⟩ := h
    simp only [run, length_takeWhile_take, Nat.min_eq_left (Nat.le_of_lt hm)]
    by_cases hleast : least ≤ m
    · simp [hleast]
    · simp [hleast]

/-! ## Combinations -/

theorem Lawful.stops_seq (ha : Lawful a) (hb : Lawful b) (hrest : Soft rest) (cs : List Char) :
    seq a b (cs ++ rest) = seq a b cs := by
  cases h : a cs with
  | none => rw [seq_of_none h, seq_of_none ((ha.stops hrest cs).trans h)]
  | some n =>
      rw [seq_of_some h, seq_of_some ((ha.stops hrest cs).trans h),
        List.drop_append_of_le_length (ha.keeps h).1, hb.stops hrest]

theorem Lawful.keeps_seq (ha : Lawful a) (hb : Lawful b) (h : seq a b cs = some n) :
    n ≤ cs.length ∧ ∀ m, n ≤ m → seq a b (cs.take m) = some n := by
  obtain ⟨i, j, hi, hj, rfl⟩ := seq_eq_some.mp h
  have hlength := (hb.keeps hj).1
  rw [List.length_drop] at hlength
  refine ⟨by have := (ha.keeps hi).1; omega, fun m hm => ?_⟩
  rw [seq_of_some ((ha.keeps hi).2 m (by omega)), List.drop_take,
    (hb.keeps hj).2 (m - i) (by omega)]
  rfl

theorem Lawful.seq (ha : Lawful a) (hshrinks : Shrinks a) (hb : Lawful b) :
    Lawful (Pattern.seq a b) where
  keeps := ha.keeps_seq hb
  misses {cs} h m := by
    cases hi : a cs with
    | none => exact seq_of_none (ha.misses hi m)
    | some i =>
        rw [seq_of_some hi, Option.map_eq_none_iff] at h
        rcases Nat.lt_or_ge m i with hm | hm
        · obtain hcut | hcut := hshrinks hi m hm
          · exact seq_of_none hcut
          · -- The first form takes all that is left, so the second has to find something in nothing.
            have hnothing : b [] = none := by simpa using hb.misses h 0
            have hempty : (cs.take m).drop m = [] := by
              rw [List.drop_eq_nil_iff, List.length_take]
              omega
            rw [seq_of_some hcut, hempty, hnothing]
            rfl
        · rw [seq_of_some ((ha.keeps hi).2 m hm), List.drop_take, hb.misses h]
          rfl
  stops := ha.stops_seq hb

/-- Behind a form that is always found, a form that is always found. -/
theorem Lawful.seq_total (ha : Lawful a) (hb : Lawful b) (htotal : ∀ cs, Pattern.seq a b cs ≠ none) :
    Lawful (Pattern.seq a b) where
  keeps := ha.keeps_seq hb
  misses {cs} h _ := absurd h (htotal cs)
  stops := ha.stops_seq hb

theorem shrinks_seq (ha : Lawful a) (hshrinks : Shrinks a) (hb : Lawful b) (hshrinks' : Shrinks b) :
    Shrinks (seq a b) := fun {cs n} h m hm => by
  obtain ⟨i, j, hi, hj, rfl⟩ := seq_eq_some.mp h
  rcases Nat.lt_or_ge m i with hlt | hge
  · obtain hcut | hcut := hshrinks hi m hlt
    · exact .inl (seq_of_none hcut)
    · have hempty : (cs.take m).drop m = [] := by
        rw [List.drop_eq_nil_iff, List.length_take]
        omega
      have hnothing : b [] = none ∨ b [] = some 0 := by
        rcases Nat.eq_zero_or_pos j with rfl | hpos
        · exact .inr ((hb.keeps hj).2 0 (by omega))
        · exact hshrinks' hj 0 hpos
      rw [seq_of_some hcut, hempty]
      obtain hnone | hsome := hnothing
      · simp [hnone]
      · simp [hsome]
  · rw [seq_of_some ((ha.keeps hi).2 m hge), List.drop_take]
    obtain hnone | hsome := hshrinks' hj (m - i) (by omega)
    · simp [hnone]
    · simp only [hsome, Option.map_some, Option.some.injEq]
      omega

theorem Lawful.alt (ha : Lawful a) (hb : Lawful b) : Lawful (Pattern.alt a b) where
  keeps {cs n} h := by
    obtain hfirst | ⟨hnone, hsecond⟩ := alt_eq_some.mp h
    · exact ⟨(ha.keeps hfirst).1, fun m hm => alt_eq_some.mpr (.inl ((ha.keeps hfirst).2 m hm))⟩
    · exact ⟨(hb.keeps hsecond).1,
        fun m hm => alt_eq_some.mpr (.inr ⟨ha.misses hnone m, (hb.keeps hsecond).2 m hm⟩)⟩
  misses {cs} h m :=
    alt_eq_none.mpr ⟨ha.misses (alt_eq_none.mp h).1 m, hb.misses (alt_eq_none.mp h).2 m⟩
  stops hrest cs := by simp only [Pattern.alt, ha.stops hrest, hb.stops hrest]

theorem Lawful.opt (ha : Lawful a) : Lawful (Pattern.opt a) where
  keeps {cs n} h := by
    obtain hfound | ⟨hnone, rfl⟩ := opt_eq_some.mp h
    · exact ⟨(ha.keeps hfound).1, fun m hm => opt_eq_some.mpr (.inl ((ha.keeps hfound).2 m hm))⟩
    · exact ⟨by omega, fun m _ => opt_eq_some.mpr (.inr ⟨ha.misses hnone m, rfl⟩)⟩
  misses {cs} h := by
    cases hfound : a cs <;> simp [Pattern.opt, hfound] at h
  stops hrest cs := by simp only [Pattern.opt, ha.stops hrest]

theorem exists_opt (a : Pattern) (cs : List Char) : ∃ n, opt a cs = some n := by
  cases h : a cs <;> simp [opt, h]

theorem shrinks_opt_one (p : Char → Bool) : Shrinks (opt (one p)) := fun {cs n} h m hm => by
  obtain hfound | ⟨-, rfl⟩ := opt_eq_some.mp h
  · cases cs with
    | nil => simp [one] at hfound
    | cons c cs =>
        simp only [one, Option.ite_none_right_eq_some, Option.some.injEq] at hfound
        obtain rfl : m = 0 := by omega
        exact .inr rfl
  · omega

theorem lawful_nothing : Lawful (all []) where
  keeps {cs n} h := by
    obtain rfl : 0 = n := by simpa [all] using h
    exact ⟨by omega, fun _ _ => rfl⟩
  misses {cs} h := by simp [all] at h
  stops _ _ := rfl

theorem shrinks_nothing : Shrinks (all []) := fun {cs n} h m hm => by
  simp only [all, Option.some.injEq] at h
  omega

theorem Lawful.all_cons {ps : List Pattern} (ha : Lawful a) (hshrinks : Shrinks a)
    (hps : Lawful (all ps)) : Lawful (all (a :: ps)) := ha.seq hshrinks hps

/-! ## Forms of fixed length -/

/-- Every text of the form has the same length. -/
structure Fixed (k : Nat) (p : Pattern) : Prop where
  length : ∀ {cs n}, p cs = some n → n = k
  short : ∀ {cs : List Char}, cs.length < k → p cs = none

theorem Fixed.shrinks {k : Nat} {p : Pattern} (h : Fixed k p) : Shrinks p := fun {cs n} hn m hm => by
  have := h.length hn
  exact .inl (h.short (by rw [List.length_take]; omega))

theorem fixed_one (p : Char → Bool) : Fixed 1 (one p) where
  length {cs n} h := by
    cases cs with
    | nil => simp [one] at h
    | cons c cs => simp_all [one]
  short {cs} h := by
    obtain rfl : cs = [] := List.length_eq_zero_iff.mp (by omega)
    rfl

theorem Fixed.seq {k l : Nat} (ha : Fixed k a) (hb : Fixed l b) : Fixed (k + l) (seq a b) where
  length {cs n} h := by
    obtain ⟨i, j, hi, hj, rfl⟩ := seq_eq_some.mp h
    rw [ha.length hi, hb.length hj]
  short {cs} h := by
    cases hi : a cs with
    | none => exact seq_of_none hi
    | some i =>
        rw [seq_of_some hi, Option.map_eq_none_iff]
        have hlong : ¬cs.length < k := fun hshort => by simp [ha.short hshort] at hi
        have := ha.length hi
        exact hb.short (by rw [List.length_drop]; omega)

theorem Fixed.alt {k : Nat} (ha : Fixed k a) (hb : Fixed k b) : Fixed k (alt a b) where
  length {cs n} h := by
    obtain hfirst | ⟨-, hsecond⟩ := alt_eq_some.mp h
    · exact ha.length hfirst
    · exact hb.length hsecond
  short {cs} h := alt_eq_none.mpr ⟨ha.short h, hb.short h⟩

/-! ## The forms of numbers and dates -/

theorem lawful_tens (d low high : Char) (hd : Hard (· == d))
    (hrange : Hard fun c => low ≤ c && c ≤ high) : Lawful (tens d low high) :=
  (lawful_one hd).seq (shrinks_one _) (lawful_one hrange)

theorem fixed_tens (d low high : Char) : Fixed 2 (tens d low high) :=
  (fixed_one _).seq (fixed_one _)

theorem lawful_month : Lawful month :=
  (lawful_tens _ _ _ (by decide) (by decide)).alt (lawful_tens _ _ _ (by decide) (by decide))

theorem fixed_month : Fixed 2 month := (fixed_tens _ _ _).alt (fixed_tens _ _ _)

theorem lawful_day : Lawful day :=
  (lawful_tens _ _ _ (by decide) (by decide)).alt <|
    (lawful_tens _ _ _ (by decide) (by decide)).alt <|
      (lawful_tens _ _ _ (by decide) (by decide)).alt (lawful_tens _ _ _ (by decide) (by decide))

theorem fixed_day : Fixed 2 day :=
  (fixed_tens _ _ _).alt <| (fixed_tens _ _ _).alt <| (fixed_tens _ _ _).alt (fixed_tens _ _ _)

theorem lawful_digits (least : Nat) : Lawful (run least Char.isDigit) :=
  lawful_run (by decide) least

theorem lawful_twoDigits : Lawful twoDigits :=
  (lawful_one (by decide)).seq (shrinks_one _) (lawful_one (by decide))

theorem fixed_twoDigits : Fixed 2 twoDigits := (fixed_one _).seq (fixed_one _)

theorem lawful_char (c : Char) (h : Hard (· == c)) : Lawful (char c) := lawful_one h

theorem shrinks_char (c : Char) : Shrinks (char c) := shrinks_one _

/-- The forms a date consists of. -/
theorem lawful_dateParts : ∀ p ∈ [opt (char '-'), run 4 Char.isDigit, char '-', month, char '-', day],
    Lawful p ∧ Shrinks p := by
  simp only [List.mem_cons, List.not_mem_nil, or_false]
  have hdash : Lawful (char '-') := lawful_char _ (by decide)
  rintro p (rfl | rfl | rfl | rfl | rfl | rfl)
  · exact ⟨hdash.opt, shrinks_opt_one _⟩
  · exact ⟨lawful_digits 4, shrinks_run _ 4⟩
  · exact ⟨hdash, shrinks_char _⟩
  · exact ⟨lawful_month, fixed_month.shrinks⟩
  · exact ⟨hdash, shrinks_char _⟩
  · exact ⟨lawful_day, fixed_day.shrinks⟩

theorem lawful_all {ps : List Pattern} (h : ∀ p ∈ ps, Lawful p ∧ Shrinks p) :
    Lawful (all ps) ∧ Shrinks (all ps) := by
  induction ps with
  | nil => exact ⟨lawful_nothing, shrinks_nothing⟩
  | cons p ps ih =>
      obtain ⟨hp, hshrinks⟩ := h p (by simp)
      obtain ⟨hps, hshrinks'⟩ := ih fun q hq => h q (by simp [hq])
      exact ⟨hp.seq hshrinks hps, shrinks_seq hp hshrinks hps hshrinks'⟩

theorem lawful_date : Lawful date := (lawful_all lawful_dateParts).1

theorem shrinks_date : Shrinks date := (lawful_all lawful_dateParts).2

theorem lawful_fraction : Lawful (seq (char '.') (run 1 Char.isDigit)) :=
  (lawful_char _ (by decide)).seq (shrinks_char _) (lawful_digits 1)

theorem lawful_zone : Lawful zone := by
  refine (lawful_char _ (by decide)).alt (lawful_all ?_).1
  simp only [List.mem_cons, List.not_mem_nil, or_false]
  rintro p (rfl | rfl | rfl | rfl)
  · exact ⟨lawful_one (by decide), shrinks_one _⟩
  · exact ⟨lawful_twoDigits, fixed_twoDigits.shrinks⟩
  · exact ⟨lawful_char _ (by decide), shrinks_char _⟩
  · exact ⟨lawful_twoDigits, fixed_twoDigits.shrinks⟩

theorem lawful_dateTime : Lawful dateTime := by
  have hcolon : Lawful (char ':') := lawful_char _ (by decide)
  have hzone : Lawful (all [opt zone]) := by
    refine lawful_zone.opt.seq_total lawful_nothing fun cs => ?_
    obtain ⟨n, hn⟩ := exists_opt zone cs
    simp [seq_of_some hn, all]
  have hends : Lawful (all [opt (seq (char '.') (run 1 Char.isDigit)), opt zone]) := by
    refine lawful_fraction.opt.seq_total hzone fun cs => ?_
    obtain ⟨n, hn⟩ := exists_opt (seq (char '.') (run 1 Char.isDigit)) cs
    obtain ⟨m, hm⟩ := exists_opt zone (cs.drop n)
    simp [seq_of_some hn, all, seq_of_some hm]
  refine lawful_date.all_cons shrinks_date ?_
  refine (lawful_char _ (by decide)).all_cons (shrinks_char _) ?_
  refine lawful_twoDigits.all_cons fixed_twoDigits.shrinks (hcolon.all_cons (shrinks_char _) ?_)
  refine lawful_twoDigits.all_cons fixed_twoDigits.shrinks (hcolon.all_cons (shrinks_char _) ?_)
  exact lawful_twoDigits.all_cons fixed_twoDigits.shrinks hends

theorem lawful_sign : Lawful sign := (lawful_one (by decide)).opt

theorem lawful_decimal : Lawful decimal := by
  refine lawful_sign.seq (shrinks_opt_one _) (Lawful.alt (lawful_all ?_).1 lawful_fraction)
  simp only [List.mem_cons, List.not_mem_nil, or_false]
  rintro p (rfl | rfl | rfl)
  · exact ⟨lawful_digits 1, shrinks_run _ 1⟩
  · exact ⟨lawful_char _ (by decide), shrinks_char _⟩
  · exact ⟨lawful_digits 1, shrinks_run _ 1⟩

theorem lawful_integer : Lawful integer :=
  lawful_sign.seq (shrinks_opt_one _) (lawful_digits 1)

end Pattern

namespace Lexeme

variable {cs rest : List Char} {kind : AtomKind} {p : Pattern} {l : Lexeme}

/-- What a literal is read from. -/
def Measures (kind : AtomKind) (p : Pattern) (cs : List Char) (l : Lexeme) : Prop :=
  ∃ n, p cs = some n ∧ l = ⟨.atom kind (String.ofList (cs.take n)), n - 1⟩

theorem literal?_eq_some : literal? kind p cs = some l ↔ Measures kind p cs l := by
  rw [literal?, Option.map_eq_some_iff, Measures]
  exact exists_congr fun n => and_congr_right fun _ => eq_comm

theorem literal?_eq_none : literal? kind p cs = none ↔ p cs = none := by simp [literal?]

theorem literal?_append (hp : p.Lawful) (hrest : Soft rest) :
    literal? kind p (cs ++ rest) = literal? kind p cs := by
  unfold literal?
  rw [hp.stops hrest]
  cases h : p cs with
  | none => rfl
  | some n => simp [List.take_append_of_le_length (hp.keeps h).1]

/-- A literal is read again from its own text. -/
theorem literal?_take (hp : p.Lawful) {n : Nat} (h : p cs = some n) :
    literal? kind p (cs.take n) = literal? kind p cs := by
  simp [literal?, h, (hp.keeps h).2 n (Nat.le_refl n), List.take_take]

/-- A number is read alike in front of a text that can stand behind it. -/
theorem number?_append (hrest : Soft rest) : number? (cs ++ rest) = number? cs := by
  simp only [number?, literal?_append Pattern.lawful_dateTime hrest,
    literal?_append Pattern.lawful_date hrest, literal?_append Pattern.lawful_decimal hrest,
    literal?_append Pattern.lawful_integer hrest]

/-- A kind of numbers and its form. -/
def numberForms : List (AtomKind × Pattern) :=
  [(.dateTime, .dateTime), (.date, .date), (.decimal, .decimal), (.integer, .integer)]

theorem lawful_numberForms : ∀ f ∈ numberForms, f.2.Lawful ∧ f.2 [] = none := by
  simp only [numberForms, List.mem_cons, List.not_mem_nil, or_false]
  rintro f (rfl | rfl | rfl | rfl)
  · exact ⟨Pattern.lawful_dateTime, rfl⟩
  · exact ⟨Pattern.lawful_date, rfl⟩
  · exact ⟨Pattern.lawful_decimal, rfl⟩
  · exact ⟨Pattern.lawful_integer, rfl⟩

theorem number?_eq_findSome (cs : List Char) :
    number? cs = numberForms.findSome? fun f => literal? f.1 f.2 cs := by
  simp only [number?, numberForms, List.findSome?_cons, List.findSome?_nil]
  cases literal? .dateTime .dateTime cs <;> cases literal? .date .date cs <;>
    cases literal? .decimal .decimal cs <;> cases literal? .integer .integer cs <;> rfl

/-- A number is read again from its own text. -/
theorem number?_take (h : number? cs = some l) :
    ∃ kind n, kind ∈ numberForms.map Prod.fst ∧ 0 < n ∧ n ≤ cs.length ∧
      l = ⟨.atom kind (String.ofList (cs.take n)), n - 1⟩ ∧ number? (cs.take n) = some l := by
  rw [number?_eq_findSome] at h
  obtain ⟨before, f, behind, hforms, hfound, hbefore⟩ := List.findSome?_eq_some_iff.mp h
  have hmem : f ∈ numberForms := by simp [hforms]
  obtain ⟨hlawful, hnil⟩ := lawful_numberForms f hmem
  obtain ⟨n, hn, rfl⟩ := literal?_eq_some.mp hfound
  have hpos : n ≠ 0 := by
    rintro rfl
    have := (hlawful.keeps hn).2 0 (Nat.le_refl 0)
    simp [hnil] at this
  refine ⟨f.1, n, List.mem_map_of_mem hmem, by omega, (hlawful.keeps hn).1, rfl, ?_⟩
  rw [number?_eq_findSome]
  refine List.findSome?_eq_some_iff.mpr ⟨before, f, behind, hforms, ?_, fun g hg => ?_⟩
  · rw [literal?_take hlawful hn, hfound]
  · have hmissed := literal?_eq_none.mp (hbefore g hg)
    have hmem' : g ∈ numberForms := by simp [hforms, hg]
    exact literal?_eq_none.mpr ((lawful_numberForms g hmem').1.misses hmissed n)

end Lexeme

end TopicQuery
