import TopicQuery.Iri
import TopicQuery.Iri.Domain
import TopicQuery.Iri.Encode

/-!
Hosts: domain names in their ASCII form, numeric addresses, and the free-form
hosts of schemes that know nothing about domains.
-/

namespace TopicQuery.Iri.Host

/-! ## Internet addresses -/

/-- The value of a run of digits in a base. -/
def digitsValue? (base : Nat) (cs : List Char) : Option Nat :=
  cs.foldlM (fun n c => do
    let d ← hexDigit? c
    if d < base then return n * base + d else none) 0

/-- A part of a numeric address: decimal, octal behind `0`, hexadecimal behind `0x`. -/
def addressPart? : List Char → Option Nat
  | [] => none
  | '0' :: 'x' :: cs => digitsValue? 16 cs
  | '0' :: 'X' :: cs => digitsValue? 16 cs
  | '0' :: c :: cs => digitsValue? 8 (c :: cs)
  | cs => digitsValue? 10 cs

/-- The labels of a domain without an empty last one. -/
def labels (domain : List Char) : List (List Char) :=
  let labels := Text.parts '.' domain
  if labels.getLast? == some [] then labels.dropLast else labels

/-- A domain whose last label is a number has to be an address. -/
def endsInNumber (domain : List Char) : Bool :=
  match (labels domain).getLast? with
  | none => false
  | some last => (!last.isEmpty && last.all Char.isDigit) || (addressPart? last).isSome

/-- The address a domain stands for; the last part fills the bytes that are left. -/
def ipv4? (domain : List Char) : Option Nat := do
  let numbers ← (labels domain).mapM addressPart?
  let last ← numbers.getLast?
  let front := numbers.dropLast
  if 3 < front.length || front.any (255 < ·) || Nat.pow 256 (4 - front.length) ≤ last then none
  else return (front.mapIdx fun i n => n * Nat.pow 256 (3 - i)).foldl (· + ·) last

/-- An address as four decimal numbers. -/
def ipv4Text (address : Nat) : String :=
  String.intercalate "." <|
    [address / 16777216, address / 65536 % 256, address / 256 % 256, address % 256].map Text.numeral

/-- A number of at most four hexadecimal digits. -/
def hexPiece? (cs : List Char) : Option Nat :=
  if cs.isEmpty || 4 < cs.length then none else digitsValue? 16 cs

/-- A decimal byte without leading zeros. -/
def byte? (cs : List Char) : Option Nat := do
  let n ← Text.number? cs
  if 255 < n || (1 < cs.length && cs.head? == some '0') then none else return n

/-- The two pieces that a dotted address takes at the end of a longer one. -/
def dottedPieces? (cs : List Char) : Option (List Nat) := do
  let bytes ← (Text.parts '.' cs).mapM byte?
  match bytes with
  | [a, b, c, d] => return [a * 256 + b, c * 256 + d]
  | _ => none

/-- The pieces between colons; the last one may be dotted. -/
def pieces? (dotted : Bool) : List (List Char) → Option (List Nat)
  | [] => some []
  | [last] => if dotted && last.contains '.' then dottedPieces? last else (hexPiece? last).map ([·])
  | p :: ps => do
    let n ← hexPiece? p
    let rest ← pieces? dotted ps
    return n :: rest

/-- The pieces of a text between colons, none for the empty text. -/
def side? (dotted : Bool) (cs : List Char) : Option (List Nat) :=
  if cs.isEmpty then some [] else pieces? dotted (Text.parts ':' cs)

/-- The text before the first `::` and the text behind it. -/
def splitGap : List Char → Option (List Char × List Char)
  | [] => none
  | ':' :: ':' :: cs => some ([], cs)
  | c :: cs => (splitGap cs).map fun (a, b) => (c :: a, b)

/-- The eight pieces of an address between brackets. -/
def ipv6? (cs : List Char) : Option (List Nat) := do
  match splitGap cs with
  | some (front, back) =>
    let front ← side? false front
    let back ← side? true back
    if 7 < front.length + back.length then none
    else return front ++ List.replicate (8 - front.length - back.length) 0 ++ back
  | none =>
    let all ← pieces? true (Text.parts ':' cs)
    if all.length == 8 then return all else none

/-- The length of the run of zeros that begins at each place. -/
def zeroRuns : List Nat → List Nat
  | [] => []
  | n :: ns =>
    let rest := zeroRuns ns
    (if n = 0 then rest.headD 0 + 1 else 0) :: rest

/-- Lower-case hexadecimal digits without leading zeros. -/
def hex (n : Nat) : String := String.ofList (Nat.toDigits 16 n)

/-- An address with its longest run of two or more zeros left out. -/
def ipv6Text (pieces : List Nat) : String :=
  let runs := zeroRuns pieces
  let longest := runs.foldl max 0
  let body :=
    if longest < 2 then String.intercalate ":" (pieces.map hex)
    else
      let first := runs.findIdx (· == longest)
      String.intercalate ":" ((pieces.take first).map hex) ++ "::" ++
        String.intercalate ":" ((pieces.drop (first + longest)).map hex)
  "[" ++ body ++ "]"

/-! ## Hosts -/

/-- An address between brackets. -/
def bracketed (cs : List Char) : Except IriFault String :=
  match cs.reverse with
  | ']' :: inner =>
    match ipv6? inner.reverse with
    | some pieces => .ok (ipv6Text pieces)
    | none => .error .badIpv6
  | _ => .error .badIpv6

/-- The host of a scheme that knows domains. -/
def ofDomain (cs : List Char) : Except IriFault String :=
  match cs with
  | '[' :: rest => bracketed rest
  | _ =>
    match Domain.ascii? (decodeBytes cs) with
    | none => .error .badDomain
    | some [] => .error .emptyHost
    | some domain =>
      if endsInNumber domain then
        match ipv4? domain with
        | some address => .ok (ipv4Text address)
        | none => .error .badIpv4
      else .ok (String.ofList domain)

/-- A character that no free-form host may hold. -/
def isForbiddenFree (c : Char) : Bool :=
  c.toNat == 0 || "\t\n\r #/:<>?@[\\]^|".toList.contains c

/-- The host of any other scheme. -/
def ofFree (cs : List Char) : Except IriFault String :=
  match cs with
  | '[' :: rest => bracketed rest
  | _ =>
    if cs.any isForbiddenFree then .error .badHostCharacter
    else .ok (String.ofList (encode (fun _ => false) cs))

end TopicQuery.Iri.Host
