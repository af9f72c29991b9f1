import TopicQuery.Text.Numeral

/-!
Labels of a domain name in ASCII: a label keeps its ASCII characters, and behind
them stand, as numbers in base 36, the others and the places they go to.
-/

namespace TopicQuery.Iri.Label

/-! ## Numbers -/

/-- Divides a number until it is small, and makes a weight of what is left. -/
def reduce (delta k : Nat) : Nat :=
  if 455 < delta then reduce (delta / 35) (k + 36) else k + 36 * delta / (delta + 38)
termination_by delta
decreasing_by exact Nat.div_lt_self (by omega) (by omega)

/-- The next bias: how the weights adapt to the size of the numbers so far. -/
def adapt (delta count : Nat) (first : Bool) : Nat :=
  let delta := if first then delta / 700 else delta / 2
  reduce (delta + delta / count) 0

/-- A digit smaller than this one ends a number. -/
def threshold (bias k : Nat) : Nat :=
  if k ≤ bias then 1 else if bias + 26 ≤ k then 26 else k - bias

theorem threshold_pos (bias k : Nat) : 1 ≤ threshold bias k := by
  unfold threshold
  split
  · omega
  · split <;> omega

/-- A digit in base 36, letters before digits. -/
def digit (n : Nat) : Char := if n < 26 then Char.ofNat (97 + n) else Char.ofNat (22 + n)

/-- The value of a digit. -/
def digitValue? (c : Char) : Option Nat :=
  if 'a' ≤ c && c ≤ 'z' then some (c.toNat - 97)
  else if c.isDigit then some (c.toNat - 22)
  else none

/-- A number in digits of varying weight. -/
def number (bias q k : Nat) : List Char :=
  let t := threshold bias k
  if q < t then [digit q]
  else digit (t + (q - t) % (36 - t)) :: number bias ((q - t) / (36 - t)) (k + 36)
termination_by q
decreasing_by
  have hpos := threshold_pos bias k
  calc (q - threshold bias k) / (36 - threshold bias k)
      ≤ q - threshold bias k := Nat.div_le_self _ _
    _ < q := by omega

/-- The number at the front of a text, and the text behind it. -/
def readNumber? (bias sofar weight k : Nat) : List Char → Option (Nat × List Char)
  | [] => none
  | c :: cs =>
    match digitValue? c with
    | none => none
    | some d =>
      let t := threshold bias k
      if d < t then some (sofar + d * weight, cs)
      else readNumber? bias (sofar + d * weight) (weight * (36 - t)) (k + 36) cs

theorem length_lt_of_readNumber? {bias sofar weight k n : Nat} {cs rest : List Char}
    (h : readNumber? bias sofar weight k cs = some (n, rest)) : rest.length < cs.length := by
  induction cs generalizing sofar weight k with
  | nil => simp [readNumber?] at h
  | cons c cs ih =>
      simp only [readNumber?] at h
      split at h
      · simp at h
      · split at h
        · simp only [Option.some.injEq, Prod.mk.injEq] at h
          simp [h.2]
        · have := ih h
          simp only [List.length_cons]
          omega

/-! ## Encoding -/

/-- Where the encoding of a label stands. -/
structure State where
  delta : Nat
  bias : Nat
  handled : Nat
  output : List Char

/-- Encodes every occurrence of one code point of a label. -/
def encodePoint (basic point : Nat) (state : State) (label : List Nat) : State :=
  label.foldl (fun s c =>
    if c < point then { s with delta := s.delta + 1 }
    else if c = point then
      ⟨0, adapt s.delta (s.handled + 1) (s.handled == basic), s.handled + 1,
        s.output ++ number s.bias s.delta 36⟩
    else s) state

/-- Encodes the code points that are still to come, the smallest first. -/
def encodePoints (basic : Nat) (label : List Nat) : Nat → Nat → State → State
  | 0, _, state => state
  | fuel + 1, least, state =>
    match (label.filter (least ≤ ·)).min? with
    | none => state
    | some point =>
      let state := { state with delta := state.delta + (point - least) * (state.handled + 1) }
      let state := encodePoint basic point state label
      encodePoints basic label fuel (point + 1) { state with delta := state.delta + 1 }

/-- A label in ASCII: its ASCII characters, then where the others go. -/
def ascii (label : List Char) : List Char :=
  if label.all (·.toNat < 0x80) then label
  else
    let points := label.map Char.toNat
    let basic := label.filter (·.toNat < 0x80)
    let front := if basic.isEmpty then [] else basic ++ ['-']
    let state := encodePoints basic.length points label.length 0x80
      ⟨0, 72, basic.length, []⟩
    "xn--".toList ++ front ++ state.output

/-! ## Decoding -/

/-- The encoded part of a label that says it is encoded. -/
def encoded? : List Char → Option (List Char)
  | 'x' :: 'n' :: '-' :: '-' :: code => some code
  | _ => none

/-- Puts the characters that the numbers stand for among those read so far. -/
def decodeFrom (point place bias : Nat) (first : Bool) (read : List Char) (cs : List Char) :
    Option (List Char) :=
  if cs = [] then some read
  else
    match _h : readNumber? bias 0 1 36 cs with
    | none => none
    | some (step, rest) =>
      let count := read.length + 1
      let point := point + (place + step) / count
      let spot := (place + step) % count
      if point.isValidChar then
        decodeFrom point (spot + 1) (adapt step count first) false
          (read.take spot ++ Char.ofNat point :: read.drop spot) rest
      else none
termination_by cs.length
decreasing_by exact length_lt_of_readNumber? _h

/-- The characters of the encoded part of a label. -/
def decode? (code : List Char) : Option (List Char) :=
  let numbers := (code.reverse.takeWhile (· != '-')).reverse
  let basic := code.take (code.length - numbers.length - 1)
  if basic.isEmpty && code.contains '-' then none else decodeFrom 0x80 0 72 true basic numbers

end TopicQuery.Iri.Label
