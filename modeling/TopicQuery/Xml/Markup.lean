import TopicQuery.Xml.Escape

/-!
Markup: what stands between `<` and `>`, and the attributes in a tag.
-/

namespace TopicQuery.Xml

open Text

/-- A mistake in the form of markup. -/
inductive MarkupFault
  | unclosedTag
  | unclosedComment
  | unclosedCData
  | unclosedDoctype
  | unclosedInstruction
  | unknownMarkup
  | namelessDoctype
  | mismatched (expected found : String)
  | unmatched (found : String)
  deriving DecidableEq, Repr

namespace MarkupFault

/-- What a construct lacks at the end of the text. -/
def unclosed (construct stop : String) : String :=
  "syntax error: " ++ construct ++ " not closed: `" ++ stop ++ "` not found before end of input"

/-- The description of a mistake. -/
def message : MarkupFault → String
  | unclosedTag => unclosed "tag" ">"
  | unclosedComment => unclosed "comment" "-->"
  | unclosedCData => unclosed "CDATA" "]]>"
  | unclosedDoctype => unclosed "DOCTYPE" ">"
  | unclosedInstruction => unclosed "processing instruction or xml declaration" "?>"
  | unknownMarkup => "syntax error: unknown or missed symbol in markup"
  | namelessDoctype =>
    "ill-formed document: `<!DOCTYPE>` declaration does not contain a name of a document type"
  | mismatched expected found =>
    "ill-formed document: expected `</" ++ expected ++ ">`, but `</" ++ found ++ ">` was found"
  | unmatched found =>
    "ill-formed document: close tag `</" ++ found ++ ">` does not match any open tag"

end MarkupFault

/-- A piece of markup. -/
inductive Markup
  | opening (body : List Char)
  | empty (body : List Char)
  | closing (name : List Char)
  | characters (text : List Char)
  | ignored
  deriving DecidableEq, Repr

/-- White space between the parts of a tag. -/
def isSpace (c : Char) : Bool := c == ' ' || c == '\t' || c == '\r' || c == '\n'

namespace Markup

/-- The size of a tag up to its `>`; one between quotes does not count. -/
def tagSize? (quote : Option Char) : List Char → Option Nat
  | [] => none
  | c :: cs =>
    match quote with
    | some q => (tagSize? (if c = q then none else quote) cs).map (· + 1)
    | none =>
      if c = '>' then some 0
      else (tagSize? (if c = '\'' || c = '"' then some c else none) cs).map (· + 1)

/-- The size of markup up to the first `>` in front of which it may end. -/
def sizeUpTo? (mayEnd : List Char → Bool) (before : List Char) : List Char → Option Nat
  | [] => none
  | c :: cs =>
    if c = '>' && mayEnd before then some 0
    else (sizeUpTo? mayEnd (c :: before) cs).map (· + 1)

/-- The size of a document type up to its `>`, which pairs of brackets may precede. -/
def doctypeSize? (depth : Nat) : List Char → Option Nat
  | [] => none
  | c :: cs =>
    if c = '<' then (doctypeSize? (depth + 1) cs).map (· + 1)
    else if c = '>' then
      match depth with
      | 0 => some 0
      | depth + 1 => (doctypeSize? depth cs).map (· + 1)
    else (doctypeSize? depth cs).map (· + 1)

/-- A text without white space at its end, unless it has nothing else. -/
def trimEnd (cs : List Char) : List Char :=
  let trimmed := (cs.reverse.dropWhile isSpace).reverse
  if trimmed.isEmpty then cs else trimmed

/-- Markup behind `<` together with the number of characters it takes, its `>` included. -/
abbrev Found : Type := Except (MarkupFault × Nat) (Markup × Nat)

/-- A comment, with the text in front of its `>` given. -/
def comment (body : List Char) : Except MarkupFault Markup :=
  if "!--".toList.isPrefixOf body then .ok .ignored else .error .unclosedComment

/-- A run of characters that are not escaped. -/
def cdata (body : List Char) : Except MarkupFault Markup :=
  if "![CDATA[".toList.isPrefixOf body then
    .ok (.characters ((body.drop 8).take (body.length - 10)))
  else .error .unclosedCData

/-- A document type. -/
def doctype (body : List Char) : Except MarkupFault Markup :=
  if (body.take 8).map Char.toUpper == "!DOCTYPE".toList then
    if (body.drop 8).all isSpace then .error .namelessDoctype else .ok .ignored
  else .error .unclosedDoctype

/-- A processing instruction. -/
def instruction (body : List Char) : Except MarkupFault Markup :=
  if body.length < 2 then .error .unclosedInstruction else .ok .ignored

/-- A tag. -/
def tag (body : List Char) : Except MarkupFault Markup :=
  match body with
  | '/' :: name => .ok (.closing (trimEnd name))
  | _ =>
    match body.reverse with
    | '/' :: rest => .ok (.empty rest.reverse)
    | _ => .ok (.opening body)

/-- Markup whose size up to its `>` is known, or that is not closed. -/
def close (cs : List Char) (size? : Option Nat) (unclosed : MarkupFault)
    (read : List Char → Except MarkupFault Markup) : Found :=
  match size? with
  | none => .error (unclosed, cs.length)
  | some n =>
    match read (cs.take n) with
    | .ok markup => .ok (markup, n + 1)
    | .error fault => .error (fault, n + 1)

/-- A comment ends with two hyphens that are not those it begins with. -/
def commentMayEnd (before : List Char) : Bool :=
  match before with
  | '-' :: '-' :: rest => 2 < rest.length
  | _ => false

/-- A run of characters ends with two brackets. -/
def cdataMayEnd (before : List Char) : Bool :=
  match before with
  | ']' :: ']' :: _ => true
  | _ => false

/-- A processing instruction ends with a question mark. -/
def instructionMayEnd (before : List Char) : Bool :=
  match before with
  | '?' :: _ => true
  | _ => false

/-- The markup behind `<`. -/
def read (cs : List Char) : Found :=
  match cs with
  | '!' :: '-' :: _ => close cs (sizeUpTo? commentMayEnd [] cs) .unclosedComment comment
  | '!' :: '[' :: _ => close cs (sizeUpTo? cdataMayEnd [] cs) .unclosedCData cdata
  | '!' :: 'D' :: _ => close cs (doctypeSize? 0 cs) .unclosedDoctype doctype
  | '!' :: 'd' :: _ => close cs (doctypeSize? 0 cs) .unclosedDoctype doctype
  | '!' :: _ => .error (.unknownMarkup, 0)
  | '?' :: _ => close cs (sizeUpTo? instructionMayEnd [] cs) .unclosedInstruction instruction
  | _ => close cs (tagSize? none cs) .unclosedTag tag

end Markup

/-! ## Attributes -/

/-- The name in front of the attributes of a tag. -/
def tagName (body : List Char) : List Char := body.takeWhile (!isSpace ·)

/-- A name without the prefix in front of its first colon. -/
def withoutPrefix (name : List Char) : List Char :=
  match name.dropWhile (· != ':') with
  | _ :: rest => rest
  | [] => name

/-- A text from its next white space on. -/
def skipWord (cs : List Char) : List Char := cs.dropWhile (!isSpace ·)

theorem length_skipWord_le (cs : List Char) : (skipWord cs).length ≤ cs.length :=
  (List.dropWhile_suffix _).length_le

theorem length_skipSpace_le (cs : List Char) : (cs.dropWhile isSpace).length ≤ cs.length :=
  (List.dropWhile_suffix _).length_le

/--
The attributes of a tag with their raw values. One that lacks its value, whose value
is not quoted, or whose name occurred before is passed over: reading goes on at
the next word. Without a closing quote there are no more attributes.
-/
def attributesFrom (seen : List (List Char)) (cs : List Char) : List (List Char × List Char) :=
  match _h : cs.dropWhile isSpace with
  | [] => []
  | c :: rest =>
    let tail := rest.takeWhile fun c => c != '=' && !isSpace c
    match _h₁ : (rest.drop tail.length).dropWhile isSpace with
    | '=' :: value =>
      if (c :: tail) ∈ seen then attributesFrom seen (skipWord value)
      else
        match _h₂ : value.dropWhile isSpace with
        | [] => []
        | q :: quoted =>
          if q = '"' || q = '\'' then
            let text := quoted.takeWhile (· != q)
            match _h₃ : quoted.drop text.length with
            | _ :: behind => (c :: tail, text) :: attributesFrom ((c :: tail) :: seen) behind
            | [] => []
          else attributesFrom ((c :: tail) :: seen) (skipWord (q :: quoted))
    | next => attributesFrom seen next
termination_by cs.length
decreasing_by
  all_goals
    have h₀ := length_skipSpace_le cs
    have h₁ := length_skipSpace_le (rest.drop tail.length)
    have hd := List.length_drop (i := tail.length) (l := rest)
    simp only [_h, _h₁, List.length_cons] at h₀ h₁
  · have := length_skipWord_le value
    omega
  · have h₂ := length_skipSpace_le value
    have h₃ := congrArg List.length _h₃
    simp only [_h₂, List.length_cons, List.length_drop] at h₂ h₃
    omega
  · have h₂ := length_skipSpace_le value
    have h₃ := length_skipWord_le (q :: quoted)
    simp only [_h₂, List.length_cons] at h₂ h₃
    omega
  · omega

end TopicQuery.Xml
