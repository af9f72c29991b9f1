import TopicQuery.Toml

/-!
Values of settings documents that are written as one word: truth values, whole
numbers, binary numbers, and dates and times.
-/

namespace TopicQuery.Toml

open Text

/-- A run of digits of the given kind, with single underscores between them. -/
def digitRun? (isDigit : Char → Bool) (cs : List Char) : Option (List Char) :=
  let digits := cs.filter (· != '_')
  if digits.isEmpty || !digits.all isDigit then none
  else if cs.head? == some '_' || cs.getLast? == some '_' then none
  else if doubled cs then none
  else some digits
where
  /-- Two underscores stand side by side. -/
  doubled : List Char → Bool
    | '_' :: '_' :: _ => true
    | _ :: rest => doubled rest
    | [] => false

/-- The value of a digit, up to sixteen. -/
def hexValue (c : Char) : Nat :=
  if c.isDigit then c.toNat - 48
  else if 'a' ≤ c && c ≤ 'f' then c.toNat - 87
  else c.toNat - 55

/-- The value of digits in a base. -/
def valueIn (base : Nat) (digits : List Char) : Nat :=
  digits.foldl (fun n c => n * base + hexValue c) 0

/-- A hexadecimal digit. -/
def isHexDigit (c : Char) : Bool :=
  c.isDigit || ('a' ≤ c && c ≤ 'f') || ('A' ≤ c && c ≤ 'F')

/-- A whole number that fits into 64 bits with its sign. -/
def word? (n : Int) : Option Toml :=
  if Text.fitsSigned 64 n then some (.integer n) else none

/-- A sign in front of a number, and the rest. -/
def splitSign (cs : List Char) : Bool × List Char :=
  match cs with
  | '-' :: rest => (true, rest)
  | '+' :: rest => (false, rest)
  | _ => (false, cs)

/-- Decimal digits without a needless zero in front. -/
def decimalDigits? (cs : List Char) : Option (List Char) :=
  match cs with
  | '0' :: _ :: _ => none
  | _ => digitRun? Char.isDigit cs

/-- A whole number. -/
def integer? (cs : List Char) : Option Toml :=
  match cs with
  | '0' :: 'x' :: rest => (digitRun? isHexDigit rest).bind fun d => word? (valueIn 16 d)
  | '0' :: 'o' :: rest =>
    (digitRun? (fun c => '0' ≤ c && c ≤ '7') rest).bind fun d => word? (valueIn 8 d)
  | '0' :: 'b' :: rest =>
    (digitRun? (fun c => c == '0' || c == '1') rest).bind fun d => word? (valueIn 2 d)
  | _ =>
    let (negative, rest) := splitSign cs
    (decimalDigits? rest).bind fun d =>
      let n : Int := valueIn 10 d
      word? (if negative then -n else n)

/-- An optional exponent. -/
def exponent? (cs : List Char) : Option Int :=
  match cs with
  | [] => some 0
  | _ :: rest =>
    let (negative, rest) := splitSign rest
    (digitRun? Char.isDigit rest).map fun d =>
      let n : Int := valueIn 10 d
      if negative then -n else n

/-- A binary number: digits with a fraction or an exponent, or a word. -/
def float? (cs : List Char) : Option Toml :=
  let (negative, rest) := splitSign cs
  if rest == "inf".toList then some (.float (.infinite negative))
  else if rest == "nan".toList then some (.float .undefined)
  else
    let mantissa := rest.takeWhile fun c => c != 'e' && c != 'E'
    let whole := mantissa.takeWhile (· != '.')
    let behind := mantissa.drop whole.length
    if behind.isEmpty && mantissa.length == rest.length then none
    else do
      let whole ← decimalDigits? whole
      let fraction ← if behind.isEmpty then some [] else digitRun? Char.isDigit (behind.drop 1)
      let exponent ← exponent? (rest.drop mantissa.length)
      return .float (.ofDecimal negative (valueIn 10 (whole ++ fraction)) (exponent - fraction.length))

/-! ## Dates and times -/

/-- A number of exactly so many digits at the front of a text, within limits. -/
def field? (size low high : Nat) (cs : List Char) : Option (List Char × List Char) :=
  let digits := cs.take size
  if digits.length = size ∧ digits.all Char.isDigit ∧ low ≤ valueIn 10 digits ∧
      valueIn 10 digits ≤ high then
    some (digits, cs.drop size)
  else none

/-- A mark at the front of a text. -/
def mark? (c : Char) (cs : List Char) : Option (List Char) :=
  match cs with
  | d :: rest => if c = d then some rest else none
  | [] => none

/-- The number of days of a month. -/
def monthLength (year month : Nat) : Nat :=
  if month = 2 then
    if (year % 4 = 0 ∧ year % 100 ≠ 0) ∨ year % 400 = 0 then 29 else 28
  else if [4, 6, 9, 11].contains month then 30
  else 31

/-- A date at the front of a text. -/
def date? (cs : List Char) : Option (List Char × List Char) := do
  let (year, cs) ← field? 4 0 9999 cs
  let cs ← mark? '-' cs
  let (month, cs) ← field? 2 1 12 cs
  let cs ← mark? '-' cs
  let (day, cs) ← field? 2 1 (monthLength (valueIn 10 year) (valueIn 10 month)) cs
  return (year ++ '-' :: month ++ '-' :: day, cs)

/-- The digits of a second's fraction that count. -/
def fractionText (digits : List Char) : List Char :=
  let kept := ((digits.take 9).reverse.dropWhile (· == '0')).reverse
  if kept.isEmpty then [] else '.' :: kept

/-- A time of day at the front of a text. -/
def clock? (cs : List Char) : Option (List Char × List Char) := do
  let (hour, cs) ← field? 2 0 23 cs
  let cs ← mark? ':' cs
  let (minute, cs) ← field? 2 0 59 cs
  let cs ← mark? ':' cs
  let (second, cs) ← field? 2 0 60 cs
  let front := hour ++ ':' :: minute ++ ':' :: second
  match cs with
  | '.' :: rest =>
    let digits := rest.takeWhile Char.isDigit
    if digits.isEmpty then none else some (front ++ fractionText digits, rest.drop digits.length)
  | _ => return (front, cs)

/-- The distance from universal time behind a time of day. -/
def zone? (cs : List Char) : Option (List Char) :=
  let offset? (sign : Char) (cs : List Char) : Option (List Char) := do
    let (hour, cs) ← field? 2 0 23 cs
    let cs ← mark? ':' cs
    let (minute, cs) ← field? 2 0 59 cs
    let sign := if valueIn 10 hour = 0 ∧ valueIn 10 minute = 0 then '+' else sign
    if cs.isEmpty then some (sign :: hour ++ ':' :: minute) else none
  match cs with
  | [] => some []
  | ['Z'] => some ['Z']
  | ['z'] => some ['Z']
  | '+' :: rest => offset? '+' rest
  | '-' :: rest => offset? '-' rest
  | _ => none

/-- A mark between a date and a time of day. -/
def isTimeMark (c : Char) : Bool := c == 'T' || c == 't' || c == ' '

/-- A date, a time of day, or both. -/
def time? (cs : List Char) : Option Toml :=
  match date? cs with
  | some (date, []) => some (.time (String.ofList date))
  | some (date, c :: rest) =>
    if isTimeMark c then do
      let (clock, rest) ← clock? rest
      let zone ← zone? rest
      return .time (String.ofList (date ++ 'T' :: clock ++ zone))
    else none
  | none =>
    match clock? cs with
    | some (clock, []) => some (.time (String.ofList clock))
    | _ => none

/-- The value that a word stands for. -/
def scalar? (cs : List Char) : Option Toml :=
  if cs == "true".toList then some (.bool true)
  else if cs == "false".toList then some (.bool false)
  else ((integer? cs).or (float? cs)).or (time? cs)

end TopicQuery.Toml
