/-!
Decoding of UTF-8. Bytes that are no text are refused together with the text in
front of the first sequence that is not well formed.
-/

namespace TopicQuery.Text.Utf8

/-- A byte that continues a sequence. -/
def isTail (b : UInt8) : Bool := 0x80 ≤ b && b ≤ 0xBF

/-- The six payload bits of a continuation byte. -/
def tailBits (b : UInt8) : Nat := b.toNat % 64

/-- The character at the front of the bytes and the number of bytes it takes. -/
def next? : List UInt8 → Option (Char × Nat)
  | [] => none
  | a :: rest =>
    if a ≤ 0x7F then some (Char.ofNat a.toNat, 1)
    else
      match rest with
      | [] => none
      | b :: rest =>
        if 0xC2 ≤ a && a ≤ 0xDF && isTail b then
          some (Char.ofNat ((a.toNat - 0xC0) * 64 + tailBits b), 2)
        else
          match rest with
          | [] => none
          | c :: rest =>
            let second := (a == 0xE0 && 0xA0 ≤ b && b ≤ 0xBF) ||
              (a == 0xED && 0x80 ≤ b && b ≤ 0x9F) ||
              (0xE1 ≤ a && a ≤ 0xEF && a != 0xED && isTail b)
            if second && isTail c then
              some (Char.ofNat (((a.toNat - 0xE0) * 64 + tailBits b) * 64 + tailBits c), 3)
            else
              match rest with
              | [] => none
              | d :: _ =>
                let second := (a == 0xF0 && 0x90 ≤ b && b ≤ 0xBF) ||
                  (a == 0xF4 && 0x80 ≤ b && b ≤ 0x8F) ||
                  (0xF1 ≤ a && a ≤ 0xF3 && isTail b)
                if second && isTail c && isTail d then
                  some (Char.ofNat
                    ((((a.toNat - 0xF0) * 64 + tailBits b) * 64 + tailBits c) * 64 + tailBits d), 4)
                else none

/-- The longest text the bytes begin with, and the bytes behind it. -/
def readPrefix (bytes : List UInt8) : List Char × List UInt8 :=
  match bytes with
  | [] => ([], [])
  | a :: rest =>
    match next? (a :: rest) with
    | none => ([], a :: rest)
    | some (c, size) =>
      let (cs, left) := readPrefix (rest.drop (size - 1))
      (c :: cs, left)
termination_by bytes.length
decreasing_by simp only [List.length_drop, List.length_cons]; omega

/-- The text of well-formed bytes; otherwise the text before the first bad sequence. -/
def decode (bytes : List UInt8) : Except (List Char) (List Char) :=
  match readPrefix bytes with
  | (cs, []) => .ok cs
  | (cs, _ :: _) => .error cs

/-- The bytes of one character. -/
def encodeChar (c : Char) : List UInt8 :=
  let n := c.toNat
  if n < 0x80 then [n.toUInt8]
  else if n < 0x800 then [(0xC0 + n / 64).toUInt8, (0x80 + n % 64).toUInt8]
  else if n < 0x10000 then
    [(0xE0 + n / 4096).toUInt8, (0x80 + n / 64 % 64).toUInt8, (0x80 + n % 64).toUInt8]
  else
    [(0xF0 + n / 262144).toUInt8, (0x80 + n / 4096 % 64).toUInt8,
      (0x80 + n / 64 % 64).toUInt8, (0x80 + n % 64).toUInt8]

/-- The bytes of a text. -/
def encode (cs : List Char) : List UInt8 := cs.flatMap encodeChar

end TopicQuery.Text.Utf8
