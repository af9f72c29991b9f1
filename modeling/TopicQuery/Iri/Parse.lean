import TopicQuery.Iri.Host
import TopicQuery.Iri.Path

/-!
Reading IRIs: absolute ones, and references that are resolved against a base.
-/

namespace TopicQuery.Iri

/-- A text without the characters that are passed over wherever they stand. -/
def cleaned (s : String) : List Char :=
  let trimmed := (s.toList.dropWhile (·.toNat ≤ 0x20)).reverse.dropWhile (·.toNat ≤ 0x20)
  trimmed.reverse.filter fun c => c != '\t' && c != '\n' && c != '\r'

/-- A character of a scheme behind its first one. -/
def isSchemePart (c : Char) : Bool := c.isAlphanum || c == '+' || c == '-' || c == '.'

/-- The scheme at the front of a text, in lower case, and the text behind its colon. -/
def splitScheme? (cs : List Char) : Option (String × List Char) :=
  let scheme := cs.takeWhile isSchemePart
  match scheme, cs.drop scheme.length with
  | c :: _, ':' :: rest =>
    if c.isAlpha then some (String.ofList (scheme.map Char.toLower), rest) else none
  | _, _ => none

/-- A slash, or a backslash that stands for one. -/
def isSlash (c : Char) : Bool := c == '/' || c == '\\'

/-- The query and the fragment at the front of a text. -/
def readQuery (scheme : String) (cs : List Char) : Option String × Option String :=
  let fragmentOf (cs : List Char) := String.ofList (encode inFragment cs)
  match cs with
  | '?' :: rest =>
    let raw := rest.takeWhile (· != '#')
    let query := String.ofList (encode (inQuery (isSpecial scheme)) raw)
    match rest.drop raw.length with
    | _ :: rest => (some query, some (fragmentOf rest))
    | [] => (some query, none)
  | '#' :: rest => (none, some (fragmentOf rest))
  | _ => (none, none)

/-- A text without the slash at its front. -/
def behindSlash (cs : List Char) : List Char :=
  match cs with
  | c :: rest => if isSlash c then rest else cs
  | [] => []

/-- An IRI whose path has been read, its query and fragment behind that. -/
def finish (scheme : String) (authority : Option String) (read : Path.Extended) : Iri :=
  let (query, fragment) := readQuery scheme read.rest
  ⟨scheme, authority, String.ofList read.path, query, fragment⟩

/-- An IRI with the path of another one, its query and fragment at the front of a text. -/
def withQuery (base : Iri) (cs : List Char) : Iri :=
  let (query, fragment) := readQuery base.scheme cs
  { base with query, fragment }

/-! ## Authorities -/

/-- A character that ends an authority. -/
def endsAuthority (special : Bool) (c : Char) : Bool :=
  c == '/' || c == '?' || c == '#' || (special && c == '\\')

/-- The text before the last `@`, and the text behind it. -/
def splitUser? (cs : List Char) : Option (List Char × List Char) :=
  if cs.contains '@' then
    let host := (cs.reverse.takeWhile (· != '@')).reverse
    some (cs.take (cs.length - host.length - 1), host)
  else none

/-- User name and password in front of a host, with the `@` that follows them. -/
def userText (cs : List Char) : List Char :=
  let user := cs.takeWhile (· != ':')
  let password := (cs.drop user.length).drop 1
  let text := encode inUserInfo user ++
    (if password.isEmpty then [] else ':' :: encode inUserInfo password)
  if text.isEmpty then [] else text ++ ['@']

/-- How much of a text is the host in front of a port. -/
def hostSize (bracketed : Bool) : List Char → Nat
  | [] => 0
  | c :: cs =>
    if c = ':' ∧ bracketed = false then 0
    else hostSize (if c = '[' then true else if c = ']' then false else bracketed) cs + 1

/--
The port number at the front of a text, none if it is the one the scheme implies, and
the text behind it. A backslash ends a port in every scheme.
-/
def readPort (scheme : String) (cs : List Char) : Except IriFault (Option Nat × List Char) :=
  let digits := cs.takeWhile Char.isDigit
  let rest := cs.drop digits.length
  let port := Text.valueFrom 0 digits
  if (rest.head?.any (· != '\\')) || 65535 < port then .error .badPort
  else if digits.isEmpty || defaultPort? scheme == some port then .ok (none, rest)
  else .ok (some port, rest)

/-- The authority at the front of a text behind `//`, and the text behind it. -/
def readAuthority (scheme : String) (cs : List Char) : Except IriFault (String × List Char) := do
  let special := isSpecial scheme
  let raw := cs.takeWhile fun c => !endsAuthority special c
  let rest := cs.drop raw.length
  let (user, hostPort) ←
    match splitUser? raw with
    | none => .ok ([], raw)
    | some ([], hostPort) =>
      if hostPort.isEmpty && !rest.isEmpty then .error .emptyHost else .ok ([], hostPort)
    | some (user, hostPort) => .ok (userText user, hostPort)
  let raw := hostPort.take (hostSize false hostPort)
  let behind := hostPort.drop raw.length
  if special && raw.isEmpty then throw .emptyHost
  let host ← if special then Host.ofDomain raw else Host.ofFree raw
  if host.isEmpty && !behind.isEmpty then throw .emptyHost
  let (port, behind) ← readPort scheme (behind.drop 1)
  if host.isEmpty && !user.isEmpty then throw .emptyHost
  let portText := match port with | some port => ":" ++ Text.numeral port | none => ""
  return (String.ofList user ++ host ++ portText, behind ++ rest)

/-- An IRI whose authority begins at the front of a text. -/
def readHierarchy (scheme : String) (cs : List Char) : Except IriFault Iri := do
  let (authority, rest) ← readAuthority scheme cs
  if isSpecial scheme then
    return finish scheme (some authority) (Path.read false true ['/'] (behindSlash rest))
  else
    match rest with
    | [] => return finish scheme (some authority) ⟨[], [], false⟩
    | c :: _ =>
      if Path.endsPath c then return finish scheme (some authority) ⟨[], rest, false⟩
      else
        let path := if c = '/' then [] else ['/']
        return finish scheme (some authority) (Path.read false false path rest)

/-! ## The file scheme -/

/-- An IRI of the file scheme with the given host, its path at the front of a text. -/
def fileIri (host : String) (path rest : List Char) : Iri :=
  finish "file" (some host) (Path.read true true path rest)

/-- The host of a file behind `//`, none if it is this one, and the text behind it. -/
def readFileHost (cs : List Char) : Except IriFault (Option String × List Char) := do
  let raw := cs.takeWhile fun c => !(isSlash c || c == '?' || c == '#')
  if Path.isDrive true raw then return (none, cs)
  let rest := cs.drop raw.length
  if raw.isEmpty then return (none, rest)
  let host ← Host.ofDomain raw
  return (if host == "localhost" then none else some host, rest)

/--
The text behind `//`. The slash that ends a host belongs to it; without a host it begins
an empty segment, so that what follows does not stand first. A file on a drive has no host.
-/
def readHostedFile (cs : List Char) : Except IriFault Iri := do
  let (host?, rest) ← readFileHost cs
  match host? with
  | none => return fileIri "" ['/'] rest
  | some host =>
    let read := Path.read true true ['/'] (behindSlash rest)
    return finish "file" (some (if read.hasDrive then "" else host)) read

/-- The first segment of a path. -/
def firstSegment (path : String) : List Char := (path.toList.drop 1).takeWhile (· != '/')

/-- The text behind the scheme `file`, or a reference against a base of that scheme. -/
def readFile (base : Option Iri) (cs : List Char) : Except IriFault Iri :=
  match cs with
  | a :: b :: rest =>
    if isSlash a && isSlash b then readHostedFile rest else relative (a :: b :: rest)
  | _ => relative cs
where
  /-- A text that names no host. -/
  relative (cs : List Char) : Except IriFault Iri :=
    match cs, base with
    | [], none => .ok (fileIri "" ['/'] [])
    | [], some base => .ok { base with fragment := none }
    | c :: rest, base =>
      if isSlash c then
        match base with
        | none => .ok (fileIri "" [] cs)
        | some base =>
          if Path.startsWithDrive rest then .ok (fileIri "" [] cs)
          else
            let drive := firstSegment base.path
            if Path.isDrive false drive then .ok (fileIri "" ('/' :: drive) cs)
            else .ok (fileIri (base.authority.getD "") [] cs)
      else
        match base with
        | none => .ok (fileIri "" ['/'] cs)
        | some base =>
          if c = '?' then .ok (withQuery base cs)
          else if c = '#' then
            .ok { base with fragment := (readQuery "file" cs).2 }
          else if Path.startsWithDrive cs then .ok (fileIri "" ['/'] cs)
          else .ok (fileIri (base.authority.getD "") (Path.shorten true base.path.toList) cs)

/-! ## References -/

/-- A reference without a scheme against a base that is neither opaque nor a file. -/
def readRelative (base : Iri) (cs : List Char) : Except IriFault Iri :=
  let special := isSpecial base.scheme
  match cs with
  | [] => .ok { base with fragment := none }
  | c :: rest =>
    if c = '?' then .ok (withQuery base cs)
    else if c = '#' then .ok { base with fragment := (readQuery base.scheme cs).2 }
    else if isSlash c then
      match cs with
      | '/' :: '/' :: rest => readHierarchy base.scheme rest
      | _ =>
        if (rest.head?.map isSlash).getD false then
          readHierarchy base.scheme (rest.dropWhile isSlash)
        else
          .ok (finish base.scheme base.authority (Path.read false special ['/'] rest))
    else
      let path := Path.pop false base.path.toList
      let path := if path.isEmpty then ['/'] else path
      .ok (finish base.scheme base.authority (Path.read false special path cs))

/-- The text behind a scheme. -/
def readAbsolute (base : Option Iri) (scheme : String) (cs : List Char) : Except IriFault Iri :=
  if scheme == "file" then readFile (base.filter (·.scheme == "file")) cs
  else if isSpecial scheme then
    let slashes := (cs.takeWhile isSlash).length
    match base.filter (·.scheme == scheme) with
    | some base =>
      if slashes < 2 then readRelative base cs else readHierarchy scheme (cs.drop slashes)
    | none => readHierarchy scheme (cs.drop slashes)
  else
    match cs with
    | '/' :: '/' :: rest => readHierarchy scheme rest
    | '/' :: rest =>
      .ok (finish scheme none (Path.read false false ['/'] rest))
    | _ =>
      let raw := cs.takeWhile fun c => c != '?' && c != '#'
      .ok (finish scheme none ⟨encode (fun _ => false) raw, cs.drop raw.length, false⟩)

/-- Reads an absolute IRI, or a reference against a base. -/
def read (base : Option Iri) (s : String) : Except IriFault Iri :=
  let cs := cleaned s
  match splitScheme? cs with
  | some (scheme, rest) => readAbsolute base scheme rest
  | none =>
    match base with
    | none => .error .relativeWithoutBase
    | some base =>
      if cs.head? == some '#' then .ok { base with fragment := (readQuery base.scheme cs).2 }
      else if base.isOpaque then .error .relativeToOpaque
      else if base.scheme == "file" then readFile (some base) cs
      else readRelative base cs

/-- Reads an absolute IRI. -/
def parse (s : String) : Except IriFault Iri := read none s

/-- Resolves a reference against an IRI. -/
def resolve (base : Iri) (reference : String) : Except IriFault Iri := read (some base) reference

/-! ## File names -/

/-- The IRI of a file with an absolute name. -/
def ofFileName (name : List Char) : Iri :=
  let segments := (Text.parts '/' name).filter (!·.isEmpty)
  let path := segments.flatMap fun s => '/' :: encode inSegment s
  ⟨"file", some "", String.ofList (if path.isEmpty then ['/'] else path), none, none⟩

/-- The bytes of the name of the file an IRI stands for; a remote file has none. -/
def fileName? (iri : Iri) : Option (List UInt8) :=
  if iri.scheme == "file" && (iri.authority == some "" || iri.authority == some "localhost") then
    let bytes := decodeBytes iri.path.toList
    let isDriveAlone :=
      match bytes.reverse with
      | b :: a :: _ :: _ => (Char.ofNat a.toNat).isAlpha && (b == 0x3A || b == 0x7C)
      | _ => false
    some (if isDriveAlone then bytes ++ [0x2F] else bytes)
  else none

end TopicQuery.Iri
