import TopicQuery.Text.Canonical
import TopicQuery.Text.Combining

/-!
The composed form of a text: every character is taken apart, the marks behind a
character are put in the order of their classes, and what can be written as one
character is. Texts that differ only in how their accents are written have the same
composed form.
-/

namespace TopicQuery.Text

/-! ## Syllables -/

/-- The first of the syllables that are written as blocks. -/
def firstSyllable : Nat := 0xAC00

/-- The code point before the first consonant that ends a block. -/
def finalBase : Nat := 0x11A7

/-- How many ends a block may have, none among them. -/
def finalCount : Nat := 28

/-- How many vowels a block may have. -/
def vowelCount : Nat := 21

/-- How many consonants a block may begin with. -/
def initialCount : Nat := 19

/-- The letters of a block, if the character is one. -/
def syllableLetters? (c : Char) : Option (List Char) :=
  let n := c.toNat - firstSyllable
  if firstSyllable ≤ c.toNat ∧ n < initialCount * vowelCount * finalCount then
    let front := [Char.ofNat (0x1100 + n / (vowelCount * finalCount)),
      Char.ofNat (0x1161 + n / finalCount % vowelCount)]
    some (if n % finalCount = 0 then front else front ++ [Char.ofNat (finalBase + n % finalCount)])
  else none

/-- The block of two letters, or of a block without an end and a letter. -/
def syllable? (a b : Char) : Option Char :=
  let initial := a.toNat - 0x1100
  let vowel := b.toNat - 0x1161
  let block := a.toNat - firstSyllable
  let final := b.toNat - finalBase
  if 0x1100 ≤ a.toNat ∧ initial < initialCount ∧ 0x1161 ≤ b.toNat ∧ vowel < vowelCount then
    some (Char.ofNat (firstSyllable + (initial * vowelCount + vowel) * finalCount))
  else if firstSyllable ≤ a.toNat ∧ block < initialCount * vowelCount * finalCount ∧
      block % finalCount = 0 ∧ finalBase < b.toNat ∧ final < finalCount then
    some (Char.ofNat (a.toNat + final))
  else none

/-! ## Taking apart -/

/-- The characters that a character is taken apart into. -/
def takenApart (c : Char) : List Char :=
  if c.toNat < 0x80 then [c] else (syllableLetters? c).getD (canonicalParts c)

/-- Puts a character behind a text given in reverse, before the marks of a higher class. -/
def place (c : Char) : List Char → List Char
  | [] => [c]
  | d :: ds =>
    if 0 < combiningClass c ∧ combiningClass c < combiningClass d then d :: place c ds
    else c :: d :: ds

/-- A text with the marks behind each character in the order of their classes. -/
def ordered (cs : List Char) : List Char := (cs.foldl (fun placed c => place c placed) []).reverse

/-! ## Putting together -/

/-- The one character that a character and the one behind it are written as. -/
def whole? (a b : Char) : Option Char :=
  (syllable? a b).orElse fun _ =>
    let text := takenApart a ++ [b]
    (wholes.find? (·.2 == text)).map (·.1)

/--
A text that is being put together: what is finished, the character that may still
grow, and the marks behind it. What is finished and the marks stand in reverse.
-/
structure Growing where
  finished : List Char
  base : Option Char
  marks : List Char

namespace Growing

/-- Nothing has been read. -/
def empty : Growing := ⟨[], none, []⟩

/-- A mark of the same or a higher class keeps a character from the base. -/
def isBlocked (g : Growing) (c : Char) : Bool :=
  g.marks.head?.any fun m => combiningClass c ≤ combiningClass m

/-- The text so far, in reverse. -/
def reversed (g : Growing) : List Char := g.marks ++ g.base.toList ++ g.finished

/-- Adds a character: it makes the base grow, or becomes the base, or waits behind it. -/
def add (g : Growing) (c : Char) : Growing :=
  match g.base.bind fun base => if g.isBlocked c then none else whole? base c with
  | some grown => { g with base := some grown }
  | none =>
    if combiningClass c = 0 then ⟨g.reversed, some c, []⟩
    else { g with marks := c :: g.marks }

end Growing

/-- A text with all that can be written as one character put together. -/
def joined (cs : List Char) : List Char := (cs.foldl Growing.add Growing.empty).reversed.reverse

/-- The composed form of a text; a text in ASCII is its own. -/
def composed (cs : List Char) : List Char :=
  if cs.all (·.toNat < 0x80) then cs else joined (ordered (cs.flatMap takenApart))

theorem composed_of_ascii {cs : List Char} (h : ∀ c ∈ cs, c.toNat < 0x80) : composed cs = cs := by
  have : cs.all (·.toNat < 0x80) = true := by simpa using h
  simp [composed, this]

end TopicQuery.Text
