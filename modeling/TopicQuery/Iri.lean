import TopicQuery.Text.Numeral

/-!
Absolute IRIs in their normal form, part by part, and the reasons why a text is
none.
-/

namespace TopicQuery

/--
An absolute IRI. The authority is the text between `//` and the path; a path
under an authority, or one that begins with a slash, is a list of segments, any
other path is opaque.
-/
structure Iri where
  scheme : String
  authority : Option String
  path : String
  query : Option String
  fragment : Option String
  deriving DecidableEq, Repr

/-- Why a text is no IRI. -/
inductive IriFault
  | relativeWithoutBase
  | relativeToOpaque
  | emptyHost
  | badDomain
  | badPort
  | badIpv4
  | badIpv6
  | badHostCharacter
  deriving DecidableEq, Repr

/-- The description of a fault. -/
def IriFault.message : IriFault → String
  | relativeWithoutBase => "relative URL without a base"
  | relativeToOpaque => "relative URL with a cannot-be-a-base base"
  | emptyHost => "empty host"
  | badDomain => "invalid international domain name"
  | badPort => "invalid port number"
  | badIpv4 => "invalid IPv4 address"
  | badIpv6 => "invalid IPv6 address"
  | badHostCharacter => "invalid domain character"

namespace Iri

/-- The path begins with the two characters that would begin an authority. -/
def pathLooksLikeAuthority (path : String) : Bool := ['/', '/'].isPrefixOf path.toList

/-- The text between the scheme and the query. -/
def hierarchyText (iri : Iri) : String :=
  match iri.authority with
  | some authority => "//" ++ authority ++ iri.path
  | none => if pathLooksLikeAuthority iri.path then "/." ++ iri.path else iri.path

/-- The written form of an IRI. -/
def text (iri : Iri) : String :=
  iri.scheme ++ ":" ++ iri.hierarchyText ++
    (match iri.query with | some query => "?" ++ query | none => "") ++
    (match iri.fragment with | some fragment => "#" ++ fragment | none => "")

/-- The path is not a list of segments, so nothing can be resolved against it. -/
def isOpaque (iri : Iri) : Bool := iri.authority.isNone && iri.path.toList.head? != some '/'

/-- The schemes with a host and a path of segments, the file scheme among them. -/
def isSpecial (scheme : String) : Bool :=
  ["http", "https", "ws", "wss", "ftp", "file"].contains scheme

/-- The port that a scheme implies. -/
def defaultPort? (scheme : String) : Option Nat :=
  if scheme == "http" || scheme == "ws" then some 80
  else if scheme == "https" || scheme == "wss" then some 443
  else if scheme == "ftp" then some 21
  else none

end Iri

end TopicQuery
