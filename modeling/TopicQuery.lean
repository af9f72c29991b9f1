import TopicQuery.Builtin
import TopicQuery.CommandLine
import TopicQuery.Conversion
import TopicQuery.Decimal
import TopicQuery.Distinct
import TopicQuery.Element
import TopicQuery.Element.Fault
import TopicQuery.Element.OfEvents
import TopicQuery.Element.Replay
import TopicQuery.Event
import TopicQuery.Event.Nesting
import TopicQuery.Failure
import TopicQuery.Fragment
import TopicQuery.Grammar.Basic
import TopicQuery.Grammar.Clause
import TopicQuery.Grammar.Document
import TopicQuery.Grammar.Statement
import TopicQuery.Grammar.Term
import TopicQuery.Imports
import TopicQuery.Iri
import TopicQuery.Iri.Domain
import TopicQuery.Iri.Domain.Direction
import TopicQuery.Iri.Domain.Joining
import TopicQuery.Iri.Domain.Reading
import TopicQuery.Iri.Encode
import TopicQuery.Iri.Host
import TopicQuery.Iri.Label
import TopicQuery.Iri.Parse
import TopicQuery.Iri.Path
import TopicQuery.Json
import TopicQuery.Json.Read
import TopicQuery.Main
import TopicQuery.Pass
import TopicQuery.Pass.ClauseList
import TopicQuery.Pass.FiltersLast
import TopicQuery.Pass.InternalPredicates
import TopicQuery.Pass.NarrowHints
import TopicQuery.Pass.RemoveDuplicates
import TopicQuery.Proofs.Accepted.Clause
import TopicQuery.Proofs.Accepted.Document
import TopicQuery.Proofs.Accepted.Statement
import TopicQuery.Proofs.Accepted.Step
import TopicQuery.Proofs.Agree
import TopicQuery.Proofs.Building
import TopicQuery.Proofs.Building.Nested
import TopicQuery.Proofs.Built
import TopicQuery.Proofs.Built.Clause
import TopicQuery.Proofs.Built.Condition
import TopicQuery.Proofs.Built.Document
import TopicQuery.Proofs.Built.Leaf
import TopicQuery.Proofs.Built.Number
import TopicQuery.Proofs.Built.Operands
import TopicQuery.Proofs.Built.Statement
import TopicQuery.Proofs.Built.Translation
import TopicQuery.Proofs.Calls
import TopicQuery.Proofs.Canonical.Clause
import TopicQuery.Proofs.Canonical.Document
import TopicQuery.Proofs.Canonical.Number
import TopicQuery.Proofs.Canonical.Repeated
import TopicQuery.Proofs.Canonical.Statement
import TopicQuery.Proofs.ClauseGrammar
import TopicQuery.Proofs.Commented
import TopicQuery.Proofs.Commented.Scanned
import TopicQuery.Proofs.Commented.Statement
import TopicQuery.Proofs.Compositional
import TopicQuery.Proofs.Coverage
import TopicQuery.Proofs.Coverage.Clause
import TopicQuery.Proofs.Coverage.Plain
import TopicQuery.Proofs.Coverage.Statement
import TopicQuery.Proofs.Defined
import TopicQuery.Proofs.Dialects
import TopicQuery.Proofs.Displayed
import TopicQuery.Proofs.Every
import TopicQuery.Proofs.FixedPoint
import TopicQuery.Proofs.Headers
import TopicQuery.Proofs.Imports
import TopicQuery.Proofs.Inserted
import TopicQuery.Proofs.Inserted.Ends
import TopicQuery.Proofs.Inserted.Split
import TopicQuery.Proofs.Interchange
import TopicQuery.Proofs.Lexeme.Exact
import TopicQuery.Proofs.Lexeme.Number
import TopicQuery.Proofs.Lexeme.Scanned
import TopicQuery.Proofs.Lexeme.Written
import TopicQuery.Proofs.Lookahead
import TopicQuery.Proofs.Mentioned
import TopicQuery.Proofs.Nested
import TopicQuery.Proofs.Offending
import TopicQuery.Proofs.Offending.Arguments
import TopicQuery.Proofs.Offending.Call
import TopicQuery.Proofs.Offending.Clause
import TopicQuery.Proofs.Offending.Foreseen
import TopicQuery.Proofs.Offending.Rule
import TopicQuery.Proofs.Offending.Statement
import TopicQuery.Proofs.Offending.Steady
import TopicQuery.Proofs.Offending.Step
import TopicQuery.Proofs.Optimized
import TopicQuery.Proofs.Optimized.Document
import TopicQuery.Proofs.Optimized.Internal
import TopicQuery.Proofs.Optimized.Interpreted
import TopicQuery.Proofs.Optimized.Layers
import TopicQuery.Proofs.Optimized.Lists
import TopicQuery.Proofs.Optimized.Meaning
import TopicQuery.Proofs.Optimized.Parsed
import TopicQuery.Proofs.Optimized.Replayed
import TopicQuery.Proofs.Optimized.Scope
import TopicQuery.Proofs.Optimized.Taken
import TopicQuery.Proofs.Outline
import TopicQuery.Proofs.Passes.Deduplicated
import TopicQuery.Proofs.Passes.Evidence
import TopicQuery.Proofs.Passes.Listwise
import TopicQuery.Proofs.Passes.Mentions
import TopicQuery.Proofs.Passes.Narrowed
import TopicQuery.Proofs.Passes.Partitioned
import TopicQuery.Proofs.Passes.Place
import TopicQuery.Proofs.Passes.Replaced
import TopicQuery.Proofs.Phrase.Clause
import TopicQuery.Proofs.Phrase.Document
import TopicQuery.Proofs.Prefixes
import TopicQuery.Proofs.Recognized.Clause
import TopicQuery.Proofs.Recognized.Document
import TopicQuery.Proofs.Recognized.Statement
import TopicQuery.Proofs.Recognized.Term
import TopicQuery.Proofs.References
import TopicQuery.Proofs.References.Clause
import TopicQuery.Proofs.References.Document
import TopicQuery.Proofs.References.Statement
import TopicQuery.Proofs.References.Told
import TopicQuery.Proofs.Rendered.Clause
import TopicQuery.Proofs.Rendered.Document
import TopicQuery.Proofs.Rendered.Statement
import TopicQuery.Proofs.Rendered.Term
import TopicQuery.Proofs.Reparsed
import TopicQuery.Proofs.Replayed
import TopicQuery.Proofs.Reported
import TopicQuery.Proofs.Restored
import TopicQuery.Proofs.RoundTrip
import TopicQuery.Proofs.RuleNames
import TopicQuery.Proofs.Run
import TopicQuery.Proofs.Shape
import TopicQuery.Proofs.Spelled
import TopicQuery.Proofs.Spoken
import TopicQuery.Proofs.Tiled
import TopicQuery.Proofs.Tree
import TopicQuery.Proofs.Tree.Levels
import TopicQuery.Proofs.Tree.Nesting
import TopicQuery.Proofs.Unconditional
import TopicQuery.Proofs.Unconditional.Ending
import TopicQuery.Proofs.Unconditional.Rendered
import TopicQuery.Proofs.Unconditional.Scanned
import TopicQuery.Proofs.Unconditional.Trimming
import TopicQuery.Proofs.Words
import TopicQuery.Proofs.Xml
import TopicQuery.Proofs.Xml.Reread
import TopicQuery.Proofs.Xml.Tag
import TopicQuery.Query
import TopicQuery.Query.Builder
import TopicQuery.Query.Display
import TopicQuery.Query.Factory
import TopicQuery.Query.Fault
import TopicQuery.Query.Operand
import TopicQuery.Query.Written
import TopicQuery.Rendering
import TopicQuery.Rendering.Clause
import TopicQuery.Rendering.Fault
import TopicQuery.Rendering.Style
import TopicQuery.Rendering.Term
import TopicQuery.Service
import TopicQuery.Service.Request
import TopicQuery.Settings
import TopicQuery.Source
import TopicQuery.Source.Fault
import TopicQuery.Source.Files
import TopicQuery.Source.Library
import TopicQuery.Text.Binary64
import TopicQuery.Text.Blank
import TopicQuery.Text.Canonical
import TopicQuery.Text.Combining
import TopicQuery.Text.Composed
import TopicQuery.Text.Mark
import TopicQuery.Text.Numeral
import TopicQuery.Text.Parts
import TopicQuery.Text.Position
import TopicQuery.Text.Quoted
import TopicQuery.Text.Ranges
import TopicQuery.Text.Unassigned
import TopicQuery.Text.Utf8
import TopicQuery.Text.Word
import TopicQuery.Token
import TopicQuery.Token.Pattern
import TopicQuery.Token.Scan
import TopicQuery.Toml
import TopicQuery.Toml.Read
import TopicQuery.Toml.Scalar
import TopicQuery.Vocabulary
import TopicQuery.Xml.Escape
import TopicQuery.Xml.Markup
import TopicQuery.Xml.Read
import TopicQuery.Xml.Write
