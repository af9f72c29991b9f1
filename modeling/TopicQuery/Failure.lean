import TopicQuery.Element.Fault
import TopicQuery.Event.Nesting
import TopicQuery.Grammar.Document
import TopicQuery.Query.Fault
import TopicQuery.Rendering.Fault
import TopicQuery.Source.Fault

/-!
Everything that can go wrong on the way from a text to a query and back, with
the message a user sees.
-/

namespace TopicQuery

/-- Settings or arguments that cannot be followed. -/
inductive ConfigFault
  | unknownPass (name : String)
  | usage (text : String)
  | settings (reason : String)
  deriving DecidableEq, Repr

/-- The description of a fault. -/
def ConfigFault.message : ConfigFault → String
  | unknownPass name => "unknown optimizer pass '" ++ name ++ "'"
  | usage text => text
  | settings reason => reason

/-- Events or trees that no query text stands behind. -/
inductive InvariantFault
  | nesting (fault : NestingFault)
  | tree (fault : TreeFault)
  deriving DecidableEq, Repr

/-- The description of a fault. -/
def InvariantFault.message : InvariantFault → String
  | nesting fault => fault.message
  | tree fault => fault.message

/-- What went wrong, and in which stage. -/
inductive Failure
  | lexical (fault : LexicalFault) (line column : Nat)
  | query (fault : GrammarFault) (line column : Nat)
  | builder (fault : BuildFault)
  | config (fault : ConfigFault)
  | source (fault : SourceFault)
  | render (fault : RenderFault)
  | invariant (fault : InvariantFault)

namespace Failure

/-- A place in a text. -/
def place (line column : Nat) : String := Text.numeral line ++ ":" ++ Text.numeral column

/-- The message of a failure. -/
def message : Failure → String
  | lexical fault line column => "Lexical error at " ++ place line column ++ ": " ++ fault.message
  | query fault line column => "Invalid query at " ++ place line column ++ ": " ++ fault.message
  | builder fault => "Builder error: " ++ fault.message
  | config fault => "Config error: " ++ fault.message
  | source fault => "Source error: " ++ fault.message
  | render fault => "Render error: " ++ fault.message
  | invariant fault => "Internal invariant violated: " ++ fault.message

/-- The failure a mistake in a text is. -/
def ofParse : ParseFault → Failure
  | .lexical fault line column => .lexical fault line column
  | .grammar fault line column => .query fault line column

/-- The failure a tree without events is. -/
def ofTree (fault : TreeFault) : Failure := .invariant (.tree fault)

end Failure

/-- A result of one stage as a result of the whole. -/
def Except.orFailure {ε α : Type} (wrap : ε → Failure) : Except ε α → Except Failure α
  | .ok a => .ok a
  | .error fault => .error (wrap fault)

end TopicQuery
