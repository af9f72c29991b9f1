import TopicQuery.Text.Word

/-!
Patterns: the forms of numbers and dates. A pattern measures the longest piece
of its form at the front of a text.
-/

namespace TopicQuery

/-- How many characters at the front of a text have the form, if any do. -/
abbrev Pattern := List Char → Option Nat

namespace Pattern

/-- Exactly one character of a class. -/
def one (p : Char → Bool) : Pattern
  | [] => none
  | c :: _ => if p c then some 1 else none

/-- The given character. -/
def char (c : Char) : Pattern := one (· == c)

/-- One form behind another. -/
def seq (a b : Pattern) : Pattern := fun cs => do
  let n ← a cs
  let m ← b (cs.drop n)
  return n + m

/-- The first form that is there. -/
def alt (a b : Pattern) : Pattern := fun cs => (a cs).or (b cs)

/-- A form that may be missing. -/
def opt (a : Pattern) : Pattern := fun cs => (a cs).or (some 0)

/-- The longest run of a class, of at least the given length. -/
def run (least : Nat) (p : Char → Bool) : Pattern := fun cs =>
  let n := (cs.takeWhile p).length
  if least ≤ n then some n else none

/-- Several forms in a row. -/
def all : List Pattern → Pattern
  | [] => fun _ => some 0
  | p :: ps => seq p (all ps)

/-- An ASCII digit. -/
def digit : Pattern := one Char.isDigit

/-- Two digits. -/
def twoDigits : Pattern := seq digit digit

/-- An optional sign. -/
def sign : Pattern := opt (one fun c => c == '+' || c == '-')

/-- A two-digit number whose first digit is `d` and whose second lies between two digits. -/
def tens (d low high : Char) : Pattern := seq (char d) (one fun c => low ≤ c && c ≤ high)

/-- A month from `01` to `12`. -/
def month : Pattern := alt (tens '0' '1' '9') (tens '1' '0' '2')

/-- A day from `01` to `31`. -/
def day : Pattern :=
  alt (tens '0' '1' '9') (alt (tens '1' '0' '9') (alt (tens '2' '0' '9') (tens '3' '0' '1')))

/-- A date: a year of four or more digits, a month and a day. -/
def date : Pattern :=
  all [opt (char '-'), run 4 Char.isDigit, char '-', month, char '-', day]

/-- A time zone: `Z` or a signed distance. -/
def zone : Pattern :=
  alt (char 'Z') (all [one fun c => c == '+' || c == '-', twoDigits, char ':', twoDigits])

/-- A date and a time of day, with an optional fraction of a second and time zone. -/
def dateTime : Pattern :=
  all [date, char 'T', twoDigits, char ':', twoDigits, char ':', twoDigits,
    opt (seq (char '.') (run 1 Char.isDigit)), opt zone]

/-- A number with digits behind a point. -/
def decimal : Pattern :=
  seq sign (alt (all [run 1 Char.isDigit, char '.', run 1 Char.isDigit])
    (seq (char '.') (run 1 Char.isDigit)))

/-- A number without a point. -/
def integer : Pattern := seq sign (run 1 Char.isDigit)

end Pattern

end TopicQuery
