import TopicQuery.Text.Numeral
import TopicQuery.Text.Position
import TopicQuery.Text.Quoted

/-!
Character references in XML text: five characters are written as references, and
every reference that is read stands for one character.
-/

namespace TopicQuery.Xml

open Text

/-- Why a number names no character. -/
inductive CharacterFault
  | signed
  | empty
  | badDigit
  | tooLarge
  | notCodePoint (number : Nat)
  | forbidden
  deriving DecidableEq, Repr

/-- The description of a fault. -/
def CharacterFault.message : CharacterFault → String
  | signed => "unexpected number sign"
  | empty => "cannot parse integer from empty string"
  | badDigit => "invalid digit found in string"
  | tooLarge => "number too large to fit in target type"
  | notCodePoint number => "`" ++ numeral number ++ "` is not a valid codepoint"
  | forbidden => "0x0 character is not permitted in XML"

/-- Why a text cannot be read back. Offsets count bytes from the start of the text. -/
inductive EscapeFault
  | unterminated (start stop : Nat)
  | unknown (start stop : Nat) (name : String)
  | badCharacter (fault : CharacterFault)
  deriving DecidableEq, Repr

/-- A range of offsets. -/
def rangeText (start stop : Nat) : String := numeral start ++ ".." ++ numeral stop

/-- The description of a fault. -/
def EscapeFault.message : EscapeFault → String
  | unterminated start stop =>
    "Error while escaping character at range " ++ rangeText start stop ++
      ": Cannot find ';' after '&'"
  | unknown start stop name =>
    "at " ++ rangeText start stop ++ ": unrecognized entity `" ++ name ++ "`"
  | badCharacter fault => "invalid character reference: " ++ fault.message

/-- The name a character is referred to by, for those that are never written plainly. -/
def entity? (c : Char) : Option String :=
  if c = '<' then some "lt"
  else if c = '>' then some "gt"
  else if c = '&' then some "amp"
  else if c = '\'' then some "apos"
  else if c = '"' then some "quot"
  else none

/-- One character of a text as it is written. -/
def escapeChar (c : Char) : List Char :=
  match entity? c with
  | some name => '&' :: name.toList ++ [';']
  | none => [c]

/-- A text as it is written. -/
def escape (s : String) : String := String.ofList (s.toList.flatMap escapeChar)

/-- The character with a name. -/
def named? (name : String) : Option Char :=
  match name with
  | "lt" => some '<'
  | "gt" => some '>'
  | "amp" => some '&'
  | "apos" => some '\''
  | "quot" => some '"'
  | _ => none

/-- The value of a digit in the given base, at most sixteen. -/
def digitValue? (base : Nat) (c : Char) : Option Nat :=
  let value :=
    if c.isDigit then some (c.toNat - 48)
    else if 'a' ≤ c && c ≤ 'f' then some (c.toNat - 87)
    else if 'A' ≤ c && c ≤ 'F' then some (c.toNat - 55)
    else none
  value.filter (· < base)

/-- A number that fits into 32 bits, behind the digits read so far. -/
def numberFrom (base sofar : Nat) : List Char → Except CharacterFault Nat
  | [] => .ok sofar
  | c :: cs =>
    match digitValue? base c with
    | none => .error .badDigit
    | some d =>
      if UInt32.size ≤ sofar * base + d then .error .tooLarge
      else numberFrom base (sofar * base + d) cs

/-- A number without a sign. -/
def number (base : Nat) (cs : List Char) : Except CharacterFault Nat :=
  match cs with
  | [] => .error .empty
  | '+' :: _ => .error .signed
  | '-' :: _ => .error .signed
  | _ => numberFrom base 0 cs

/-- The character with the number that stands behind `&#`. -/
def numbered (cs : List Char) : Except CharacterFault Char := do
  let n ←
    match cs with
    | 'x' :: digits => number 16 digits
    | _ => number 10 cs
  if n = 0 then throw .forbidden
  if n.isValidChar then return Char.ofNat n
  else throw (.notCodePoint n)

/-- The character a reference stands for, given the text between `&` and `;`. -/
def reference (start : Nat) (name : List Char) : Except EscapeFault Char :=
  match name with
  | '#' :: digits =>
    match numbered digits with
    | .ok c => .ok c
    | .error fault => .error (.badCharacter fault)
  | _ =>
    match named? (String.ofList name) with
    | some c => .ok c
    | none => .error (.unknown start (start + byteSize name) (String.ofList name))

/-- Reads a text back from an offset on, given the size of the whole. -/
def unescapeFrom (total offset : Nat) (cs : List Char) : Except EscapeFault (List Char) :=
  match cs with
  | [] => .ok []
  | c :: rest =>
    if c = '&' then
      let name := rest.takeWhile fun c => c != '&' && c != ';'
      match rest.drop name.length with
      | ';' :: _ => do
        let found ← reference (offset + 1) name
        let behind ←
          unescapeFrom total (offset + byteSize name + 2) (rest.drop (name.length + 1))
        return found :: behind
      | _ => .error (.unterminated offset total)
    else do
      let behind ← unescapeFrom total (offset + c.utf8Size) rest
      return c :: behind
termination_by cs.length
decreasing_by all_goals simp; try omega

/-- Reads a text back from its written form. -/
def unescape (cs : List Char) : Except EscapeFault String :=
  (unescapeFrom (byteSize cs) 0 cs).map String.ofList

end TopicQuery.Xml
