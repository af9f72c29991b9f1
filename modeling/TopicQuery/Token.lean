import TopicQuery.Vocabulary
import TopicQuery.Text.Position

/-!
Tokens: the reserved words, the punctuation, the names and the literals a query
text is made of, with the written form of each.
-/

namespace TopicQuery

/-- A reserved word. -/
inductive Keyword
  | select
  | fromWord
  | whereWord
  | count
  | not
  | limit
  | offset
  | order
  | byWord
  | asc
  | desc
  | importWord
  | asWord
  | usingWord
  | forWord
  | delete
  | merge
  | update
  | insert
  | load
  | into
  | drop
  | create
  deriving DecidableEq, Repr

namespace Keyword

/-- Every reserved word, once. -/
def all : List Keyword :=
  [select, fromWord, whereWord, count, not, limit, offset, order, byWord, asc, desc, importWord,
    asWord, usingWord, forWord, delete, merge, update, insert, load, into, drop, create]

/-- The word in lower case. -/
def text : Keyword → String
  | select => "select"
  | fromWord => "from"
  | whereWord => "where"
  | count => "count"
  | not => "not"
  | limit => "limit"
  | offset => "offset"
  | order => "order"
  | byWord => "by"
  | asc => "asc"
  | desc => "desc"
  | importWord => "import"
  | asWord => "as"
  | usingWord => "using"
  | forWord => "for"
  | delete => "delete"
  | merge => "merge"
  | update => "update"
  | insert => "insert"
  | load => "load"
  | into => "into"
  | drop => "drop"
  | create => "create"

/-- The reserved word a word is, whatever the case of its ASCII letters. -/
def ofText? (word : String) : Option Keyword :=
  all.find? (·.text.toList == word.toList.map Char.toLower)

theorem ofText?_text (k : Keyword) : ofText? k.text = some k := by
  cases k <;> decide +kernel

end Keyword

/-- A punctuation mark. -/
inductive Symbol
  | eq
  | ne
  | lt
  | le
  | gt
  | ge
  | lparen
  | rparen
  | lbrace
  | rbrace
  | comma
  | colon
  | bar
  | barBar
  | question
  | implies
  | dot
  | hatHat
  | hat
  deriving DecidableEq, Repr

/-- The written form of a mark. -/
def Symbol.text : Symbol → String
  | .eq => "="
  | .ne => "/="
  | .lt => "<"
  | .le => "<="
  | .gt => ">"
  | .ge => ">="
  | .lparen => "("
  | .rparen => ")"
  | .lbrace => "\x7b"
  | .rbrace => "\x7d"
  | .comma => ","
  | .colon => ":"
  | .bar => "|"
  | .barBar => "||"
  | .question => "?"
  | .implies => ":-"
  | .dot => "."
  | .hatHat => "^^"
  | .hat => "^"

/-- The comparison operator a mark stands for. -/
def Symbol.comparison? : Symbol → Option Comparison
  | .eq => some .eq
  | .ne => some .ne
  | .lt => some .lt
  | .le => some .le
  | .gt => some .gt
  | .ge => some .ge
  | _ => none

/-- A token. A `fragment` is topic map content that is kept as it stands. -/
inductive Token
  | keyword (word : Keyword)
  | symbol (mark : Symbol)
  | atom (kind : AtomKind) (value : String)
  | qname (name : QualifiedName)
  | curie (name : QualifiedName)
  | directive (name : String)
  | fragment (content : String)
  deriving DecidableEq, Repr

/-- The written form of a token; a fragment is only named. -/
def Token.text : Token → String
  | .keyword word => word.text
  | .symbol mark => mark.text
  | .atom kind value => kind.write value
  | .qname name => name.text
  | .curie name => "[" ++ name.text ++ "]"
  | .directive name => "%" ++ name
  | .fragment _ => "<topic map fragment>"

/-- A token and the place of its first character. -/
structure PlacedToken where
  token : Token
  place : Text.Position
  deriving DecidableEq, Repr

end TopicQuery
