/-!
Decimal numerals of natural numbers, written without leading zeros, and the
unsigned 64-bit numbers of `limit` and `offset`.
-/

namespace TopicQuery.Text

/-- The decimal digit of a number below ten. -/
def digit (n : Nat) : Char := Char.ofNat (48 + n % 10)

/-- The decimal digits of a number, most significant first. -/
def digits (n : Nat) : List Char :=
  if n < 10 then [digit n] else digits (n / 10) ++ [digit n]

/-- The decimal numeral of a number. -/
def numeral (n : Nat) : String := String.ofList (digits n)

/-- The value of a run of decimal digits behind a value read so far. -/
def valueFrom (sofar : Nat) : List Char → Nat
  | [] => sofar
  | c :: cs => valueFrom (sofar * 10 + (c.toNat - 48)) cs

/-- The number a nonempty run of decimal digits stands for. -/
def number? (cs : List Char) : Option Nat :=
  if cs.isEmpty || !cs.all Char.isDigit then none else some (valueFrom 0 cs)

/-- A number fits into a word of so many bits with its sign. -/
def fitsSigned (bits : Nat) (n : Int) : Bool :=
  let bound : Int := Nat.pow 2 (bits - 1)
  0 ≤ n + bound && n < bound

/-- A number that fits into 64 bits. -/
def word64? (n : Nat) : Option UInt64 :=
  if n < UInt64.size then some n.toUInt64 else none

/-- An unsigned 64-bit number, with one plus sign in front allowed. -/
def unsigned? (cs : List Char) : Option UInt64 :=
  match cs with
  | '+' :: rest => (number? rest).bind word64?
  | _ => (number? cs).bind word64?

end TopicQuery.Text
