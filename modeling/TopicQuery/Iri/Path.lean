import TopicQuery.Iri.Encode

/-!
Paths of segments. A path is kept as text; segments are added to it from left to
right, a single dot adds nothing and two dots take the last segment away. In the
file scheme a drive letter is never taken away.
-/

namespace TopicQuery.Iri.Path

/-- A letter and a colon, or a bar in place of the colon if that is allowed. -/
def isDrive (barAllowed : Bool) : List Char → Bool
  | [a, b] => a.isAlpha && (b == ':' || (barAllowed && b == '|'))
  | _ => false

/-- A character that ends a segment for the purpose of drive letters. -/
def endsDrive (c : Char) : Bool := c == '/' || c == '\\' || c == '?' || c == '#'

/-- The text begins with a drive letter that is a whole segment. -/
def startsWithDrive : List Char → Bool
  | a :: b :: rest =>
    isDrive true [a, b] && (match rest with | [] => true | c :: _ => endsDrive c)
  | _ => false

/-- The text up to its last slash, that slash included. -/
def upToLastSlash (path : List Char) : List Char := (path.reverse.dropWhile (· != '/')).reverse

/-- The text behind its last slash. -/
def lastSegment (path : List Char) : List Char := (path.reverse.takeWhile (· != '/')).reverse

/-- A path without its last segment. -/
def pop (file : Bool) (path : List Char) : List Char :=
  if file && isDrive false (lastSegment path) then path else upToLastSlash path

/-- A path without its last segment, unless it is a drive letter alone. -/
def shorten (file : Bool) (path : List Char) : List Char :=
  if file && isDrive false path then path else pop file path

/-- The text ends with a slash. -/
def endsInSlash (path : List Char) : Bool := path.getLast? == some '/'

/-- The slash at the end may go: it is not the first one and not that of a drive letter. -/
def lastSlashIsRemovable (path : List Char) : Bool :=
  let front := path.dropLast
  front.contains '/' && !startsWithDrive (lastSegment front ++ ['/'])

/-- A text with a slash at its end. -/
def withSlash (path : List Char) : List Char := if endsInSlash path then path else path ++ ['/']

/-- The written forms of a single dot. -/
def isDot (segment : List Char) : Bool :=
  let s := segment.map Char.toLower
  s == ".".toList || s == "%2e".toList

/-- The written forms of two dots. -/
def isTwoDots (segment : List Char) : Bool :=
  let s := segment.map Char.toLower
  s == "..".toList || s == "%2e.".toList || s == ".%2e".toList || s == "%2e%2e".toList

/-- The segment is a drive letter that is put first in a path. -/
def isFirstDrive (file : Bool) (path segment : List Char) : Bool :=
  file && path.length == 1 && isDrive true segment

/-- The text of a segment that is neither one dot nor two: a drive letter put first has a colon. -/
def segmentText (file : Bool) (path segment : List Char) : List Char :=
  if isFirstDrive file path segment then segment.take 1 ++ [':'] else segment

/-- A path that ends in a drive letter gets a slash before anything else is added. -/
def behindDrive (file : Bool) (path segment : List Char) : List Char :=
  if file && !segment.isEmpty && isDrive false (path.drop 1) then path ++ ['/'] else path

/-- Adds an encoded segment to a path; `closed` tells whether a slash follows it. -/
def addSegment (file : Bool) (path segment : List Char) (closed : Bool) : List Char :=
  let path := behindDrive file path segment
  if isTwoDots segment then
    let path := if endsInSlash path && lastSlashIsRemovable path then path.dropLast else path
    let path := shorten file path
    if closed then withSlash path else path
  else if isDot segment then withSlash path
  else path ++ segmentText file path segment ++ (if closed then ['/'] else [])

/-- A character that separates segments. -/
def isSeparator (special : Bool) (c : Char) : Bool := c == '/' || (special && c == '\\')

/-- A character that ends the path. -/
def endsPath (c : Char) : Bool := c == '?' || c == '#'

/-- What reading a path ends with. -/
structure Extended where
  /-- The text of the path. -/
  path : List Char
  /-- The text behind it. -/
  rest : List Char
  /-- A drive letter was put first; a file on a drive has no host. -/
  hasDrive : Bool

/-- Adds the segments at the front of a text to a path. -/
def extend (file special : Bool) (path input : List Char) : Extended :=
  let raw := input.takeWhile fun c => !isSeparator special c && !endsPath c
  let segment := encode inPath raw
  let hasDrive := isFirstDrive file path segment
  match _h : input.drop raw.length with
  | c :: rest =>
    if isSeparator special c then
      let all := extend file special (addSegment file path segment true) rest
      { all with hasDrive := hasDrive || all.hasDrive }
    else ⟨addSegment file path segment false, c :: rest, hasDrive⟩
  | [] => ⟨addSegment file path segment false, [], hasDrive⟩
termination_by input.length
decreasing_by
  have := congrArg List.length _h
  simp at this ⊢
  omega

/-- A path of the file scheme has no empty segments at its front. -/
def fileForm (path : List Char) : List Char := '/' :: path.dropWhile (· == '/')

/-- Adds the segments at the front of a text to a path, in the form of the scheme. -/
def read (file special : Bool) (path input : List Char) : Extended :=
  let all := extend file special path input
  if file then { all with path := fileForm all.path } else all

end TopicQuery.Iri.Path
