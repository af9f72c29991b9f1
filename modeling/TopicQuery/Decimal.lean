import TopicQuery.Text.Numeral

/-!
Decimal numbers of any size: a whole number and how many of its digits stand
behind the point. No digit is lost between reading and writing.
-/

namespace TopicQuery

/-- The number `digits / 10 ^ scale`, negated if `negative`. -/
structure Decimal where
  negative : Bool
  magnitude : Nat
  scale : Int
  deriving DecidableEq, Repr

/-- Why a text is no decimal number. -/
inductive DecimalFault
  | empty
  | noDigits
  | badDigit
  | exponentTooLarge (text : String)
  | exponentTooLong (negative : Bool)
  deriving DecidableEq, Repr

/-- The description of a fault. -/
def DecimalFault.message : DecimalFault → String
  | empty => "Failed to parse empty string"
  | noDigits => "cannot parse integer from empty string"
  | badDigit => "invalid digit found in string"
  | exponentTooLarge text => "Exponent overflow when parsing '" ++ text ++ "'"
  | exponentTooLong false => "number too large to fit in target type"
  | exponentTooLong true => "number too small to fit in target type"

namespace Decimal

/-- A run of digits in which underscores are passed over; it begins with a digit. -/
def magnitude? (cs : List Char) : Except DecimalFault Nat :=
  if cs.isEmpty then .error .noDigits
  else if cs.head? == some '_' then .error .badDigit
  else
    let digits := cs.filter (· != '_')
    if digits.all Char.isDigit then .ok (Text.valueFrom 0 digits) else .error .badDigit

/-- A text without one plus sign in front, unless two of them stand there. -/
def dropPlus : List Char → List Char
  | '+' :: '+' :: cs => '+' :: '+' :: cs
  | '+' :: cs => cs
  | cs => cs

/-- A whole number with an optional sign. -/
def signed? (cs : List Char) : Except DecimalFault (Bool × Nat) :=
  match cs with
  | '-' :: '+' :: _ => .error .badDigit
  | '-' :: rest => (magnitude? (dropPlus rest)).map fun n => (n != 0, n)
  | _ => (magnitude? (dropPlus cs)).map fun n => (false, n)

/-- An exponent: a whole number of 128 bits with an optional sign. -/
def exponent? (cs : List Char) : Except DecimalFault Int :=
  let (negative, digits) :=
    match cs with
    | '-' :: rest => (true, rest)
    | '+' :: rest => (false, rest)
    | _ => (false, cs)
  if cs.isEmpty then .error .noDigits
  else
    let n : Int := Text.valueFrom 0 (digits.takeWhile Char.isDigit)
    let exponent := if negative then -n else n
    if !Text.fitsSigned 128 exponent then .error (.exponentTooLong negative)
    else if digits.isEmpty || !digits.all Char.isDigit then .error .badDigit
    else .ok exponent

/-- Reads a number: digits with an optional sign, point and exponent. -/
def read (text : String) : Except DecimalFault Decimal := do
  let cs := text.toList
  let mantissa := cs.takeWhile fun c => c != 'e' && c != 'E'
  let exponent ←
    match cs.drop mantissa.length with
    | [] => .ok 0
    | _ :: rest => exponent? rest
  if mantissa.isEmpty then throw .empty
  let whole := mantissa.takeWhile (· != '.')
  let fraction := (mantissa.drop whole.length).drop 1
  let scale := ((fraction.filter (· != '_')).length : Int) - exponent
  if !Text.fitsSigned 64 scale then throw (.exponentTooLarge text)
  let (negative, magnitude) ← signed? (whole ++ fraction)
  return ⟨negative, magnitude, scale⟩

/-- A run of zeros. -/
def zeros (n : Nat) : List Char := List.replicate n '0'

/-- The exponent of a written number, with its sign. -/
def exponentText (n : Int) : List Char :=
  'E' :: (if n < 0 then '-' else '+') :: Text.digits n.natAbs

/-- Digits of which the last ones stand behind a point. -/
def pointed (digits : List Char) (places : Nat) : List Char :=
  if places = 0 then digits
  else
    let padded := zeros (places + 1 - digits.length) ++ digits
    padded.take (padded.length - places) ++ '.' :: padded.drop (padded.length - places)

/--
The written form of a number: with more than five zeros between the point and
the first digit, or more than fifteen behind the last one, the power of ten is
written as an exponent; zero is always `0`.
-/
def text (d : Decimal) : String :=
  if d.magnitude = 0 then "0"
  else
    let digits := Text.digits d.magnitude
    let body :=
      if d.scale < 0 then
        let shift := d.scale.natAbs
        if 15 < shift then digits ++ exponentText shift else digits ++ zeros shift
      else
        let places := d.scale.toNat
        if digits.length + 5 < places then
          let front := digits.take 1
          let rest := digits.drop 1
          front ++ (if rest.isEmpty then [] else '.' :: rest) ++
            exponentText ((digits.length : Int) - 1 - d.scale)
        else pointed digits places
    String.ofList (if d.negative then '-' :: body else body)

end Decimal

end TopicQuery
