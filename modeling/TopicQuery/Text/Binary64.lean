import TopicQuery.Text.Numeral

/-!
Binary numbers with 53 significant bits, as settings may hold them: the number
nearest to a decimal one, and the shortest decimal one that stands for it.
-/

namespace TopicQuery.Text

/-- A binary number: a finite one is `mantissa * 2 ^ exponent`, negated if `negative`. -/
inductive Binary64
  | finite (negative : Bool) (mantissa : Nat) (exponent : Int)
  | infinite (negative : Bool)
  | undefined
  deriving DecidableEq, Repr

namespace Binary64

/-- A quotient rounded to the nearest whole number, a half to the even one. -/
def roundDiv (n d : Nat) : Nat :=
  let q := n / d
  let r := 2 * (n % d)
  if r < d then q else if d < r then q + 1 else if q % 2 = 0 then q else q + 1

/-- A fraction scaled by a power of two. -/
def scale (n d : Nat) (exponent : Int) : Nat × Nat :=
  if exponent < 0 then (n * Nat.pow 2 exponent.natAbs, d) else (n, d * Nat.pow 2 exponent.toNat)

/-- The exponent at which the fraction has 53 bits, or else the smallest one. -/
def exponentOf (n d : Nat) : Int :=
  let guess : Int := (n.log2 : Int) - d.log2 - 53
  let fits (e : Int) : Bool :=
    let (n, d) := scale n d e
    n / d < Nat.pow 2 53
  let e := if fits guess then guess else if fits (guess + 1) then guess + 1 else guess + 2
  if e < -1074 then -1074 else e

/-- The mantissa and exponent nearest to a fraction, unless it is too large. -/
def nearest? (n d : Nat) : Option (Nat × Int) :=
  if n = 0 then some (0, -1074)
  else
    let e := exponentOf n d
    let (n, d) := scale n d e
    let m := roundDiv n d
    let (m, e) := if m = Nat.pow 2 53 then (Nat.pow 2 52, e + 1) else (m, e)
    if 971 < e then none else some (m, e)

/-- A fraction equal to `digits * 10 ^ exponent`. -/
def tenths (digits : Nat) (exponent : Int) : Nat × Nat :=
  if exponent < 0 then (digits, Nat.pow 10 exponent.natAbs) else (digits * Nat.pow 10 exponent.toNat, 1)

/-- The number nearest to `digits * 10 ^ exponent`. -/
def ofDecimal (negative : Bool) (digits : Nat) (exponent : Int) : Binary64 :=
  let size : Int := (Text.digits digits).length + exponent
  if digits = 0 ∨ size < -400 then .finite negative 0 (-1074)
  else if 400 < size then .infinite negative
  else
    let (n, d) := tenths digits exponent
    match nearest? n d with
    | some (m, e) => .finite negative m e
    | none => .infinite negative

/-- The number is neither zero nor undefined. -/
def isNonzero : Binary64 → Bool
  | finite _ mantissa _ => mantissa != 0
  | infinite _ => true
  | undefined => true

/-- The largest exponent of ten at which a fraction is at least one, from a guess downwards. -/
def tenExponent (n d : Nat) : Nat → Int → Int
  | 0, guess => guess
  | fuel + 1, guess =>
    let (p, q) := tenths 1 guess
    if n * q < p * d then tenExponent n d fuel (guess - 1) else guess

/-- The decimal number with a unit of the given place nearest to the fraction, if it reads back. -/
def candidate? (n d : Nat) (target : Nat × Int) (place : Int) : Option (Nat × Int) :=
  let (p, q) := tenths 1 place
  let low := (n * q) / (d * p)
  let high := low + 1
  let readsBack (k : Nat) : Bool :=
    let (a, b) := tenths k place
    nearest? a b == some target
  let lowFirst := 2 * (n * q) ≤ (low + high) * (d * p)
  let order := if lowFirst then [low, high] else [high, low]
  (order.find? readsBack).map (·, place)

/-- The fewest digits that read back, and the place of the last one. -/
def shortest (mantissa : Nat) (exponent : Int) : Nat × Int :=
  let (n, d) :=
    if exponent < 0 then (mantissa, Nat.pow 2 exponent.natAbs) else (mantissa * Nat.pow 2 exponent.toNat, 1)
  let top := tenExponent n d 800 400
  let places := (List.range 17).map fun (k : Nat) => top - (k : Int)
  (places.findSome? fun place => candidate? n d (mantissa, exponent) place).getD (n / d, 0)

/-- Digits with a point at a place counted from the right, or zeros behind them. -/
def positional (digits : List Char) (place : Int) : List Char :=
  if 0 ≤ place then digits ++ List.replicate place.toNat '0'
  else
    let n := place.natAbs
    let padded := List.replicate (n + 1 - digits.length) '0' ++ digits
    padded.take (padded.length - n) ++ '.' :: padded.drop (padded.length - n)

/-- Digits without the zeros at their end, the place moved along. -/
def trimZeros (digits : List Char) (place : Int) : List Char × Int :=
  let kept := (digits.reverse.dropWhile (· == '0')).reverse
  (kept, place + ((digits.length - kept.length : Nat) : Int))

/-- The written form of a number, never with an exponent. -/
def text : Binary64 → String
  | finite negative mantissa exponent =>
    let body :=
      if mantissa = 0 then ['0']
      else
        let (digits, place) := shortest mantissa exponent
        let (digits, place) := trimZeros (Text.digits digits) place
        positional digits place
    String.ofList (if negative then '-' :: body else body)
  | infinite negative => if negative then "-inf" else "inf"
  | undefined => "NaN"

/-! ## Reading -/

/-- An exponent in front of the end of a text. -/
def exponent? (cs : List Char) : Option Int :=
  match cs with
  | '+' :: rest => (number? rest).map Int.ofNat
  | '-' :: rest => (number? rest).map fun n => -(n : Int)
  | _ => (number? cs).map Int.ofNat

/-- A number without a sign: digits with an optional point and exponent. -/
def unsigned? (negative : Bool) (cs : List Char) : Option Binary64 := do
  let mantissa := cs.takeWhile fun c => c != 'e' && c != 'E'
  let exponent ←
    match cs.drop mantissa.length with
    | [] => some 0
    | _ :: rest => exponent? rest
  let whole := mantissa.takeWhile (· != '.')
  let fraction := (mantissa.drop whole.length).drop 1
  let digits ← number? (whole ++ fraction)
  return ofDecimal negative digits (exponent - fraction.length)

/-- A number, or one of the words for what is none, in any case. -/
def read? (cs : List Char) : Option Binary64 :=
  let (negative, rest) :=
    match cs with
    | '-' :: rest => (true, rest)
    | '+' :: rest => (false, rest)
    | _ => (false, cs)
  match String.ofList (rest.map Char.toLower) with
  | "inf" => some (.infinite negative)
  | "infinity" => some (.infinite negative)
  | "nan" => some .undefined
  | _ => unsigned? negative rest

end Binary64

end TopicQuery.Text
