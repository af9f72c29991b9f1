import TopicQuery.Distinct
import TopicQuery.Text.Blank
import TopicQuery.Text.Word
import TopicQuery.Text.Position

/-!
Topic map content inside a query. The content of an `insert` is not a token of
the query language, so where it ends is found by looking for a `from` that can
begin a clause list: one with white space on both sides and no quote, dot or
hash sign on the rest of its line. Variables of the query may occur in it.
-/

namespace TopicQuery.Fragment

open Text

/-- A quote, dot or hash sign, which shows that a line belongs to the content. -/
def isContentMark (c : Char) : Bool := c == '"' || c == '.' || c == '#'

/-- The rest of the line holds none of the marks of topic map content. -/
def isClauseLine (cs : List Char) : Bool := !(cs.takeWhile (· != '\n')).any isContentMark

/-- Behind some nonempty run of white space the rest of the line is free of content marks. -/
def hasClauseLine : List Char → Bool
  | [] => false
  | c :: cs => isBlank c && (isClauseLine cs || hasClauseLine cs)

/-- The text begins with `from`, in any case, in front of a clause list. -/
def startsClauses (cs : List Char) : Bool :=
  (cs.take 4).map Char.toLower == ['f', 'r', 'o', 'm'] && hasClauseLine (cs.drop 4)

/--
The length of the content at the front of a text, and the length of the white
space between it and the `from` that follows; zero when nothing follows. One
newline at the end of the text does not count as content.
-/
def split : List Char → Nat × Nat
  | [] => (0, 0)
  | c :: cs =>
    if c = '\n' ∧ cs = [] then (0, 0)
    else
      let blanks := blankRun (c :: cs)
      if isBlank c && startsClauses ((c :: cs).drop blanks.length) then (0, blanks.length)
      else
        let (size, gap) := split cs
        (size + 1, gap)

/-- The rest of a text from a byte offset on, if a character begins there. -/
def dropBytes? : Nat → List Char → Option (List Char)
  | 0, cs => some cs
  | _ + 1, [] => none
  | n + 1, c :: cs => if c.utf8Size ≤ n + 1 then dropBytes? (n + 1 - c.utf8Size) cs else none
termination_by n cs => (cs.length, n)

/-- Where the content that begins at a byte offset ends, and where the query goes on. -/
def splitAt? (cs : List Char) (start : Nat) : Option (Nat × Nat) :=
  (dropBytes? start cs).map fun rest =>
    let (size, gap) := split rest
    let stop := start + byteSize (rest.take size)
    (stop, stop + byteSize ((rest.drop size).take gap))

/-- A run of name characters without the dots at its end. -/
def withoutFinalDots (cs : List Char) : List Char := (cs.reverse.dropWhile (· == '.')).reverse

/-- The part of a variable name behind its first character. -/
def variableTail (cs : List Char) : List Char := withoutFinalDots (nameRun cs)

/-- The name behind every dollar sign that has one, from left to right. -/
def occurrences (cs : List Char) : List (List Char) :=
  match cs with
  | [] => []
  | '$' :: c :: rest =>
    if isNameStart c then (c :: variableTail rest) :: occurrences (rest.drop (variableTail rest).length)
    else occurrences (c :: rest)
  | _ :: rest => occurrences rest
termination_by cs.length
decreasing_by all_goals simp; try omega

/-- The variables that topic map content mentions, in the order of first occurrence. -/
def mentioned (content : String) : List String :=
  distinct ((occurrences content.toList).map String.ofList)

end TopicQuery.Fragment
