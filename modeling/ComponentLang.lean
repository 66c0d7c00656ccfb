import ComponentLang.Main
import ComponentLang.Proofs.Scan.Nesting
import ComponentLang.Proofs.Scan.Progress
import ComponentLang.Proofs.Scan.Lossless
import ComponentLang.Proofs.Scan.Mistakes
import ComponentLang.Proofs.Scan.Truncated
import ComponentLang.Proofs.Scan.Blind
import ComponentLang.Proofs.Scan.Alike
import ComponentLang.Proofs.Scan.Words
import ComponentLang.Proofs.Scan.Recased
import ComponentLang.Proofs.Grammar.Takes
import ComponentLang.Proofs.Grammar.Expression
import ComponentLang.Proofs.Grammar.Recovery
import ComponentLang.Proofs.Grammar.Declaration
import ComponentLang.Proofs.Grammar.Statement
import ComponentLang.Proofs.Grammar.Program
import ComponentLang.Proofs.Tree.Walk
import ComponentLang.Proofs.Grammar.Ledger
import ComponentLang.Proofs.Grammar.Ledger.Expression
import ComponentLang.Proofs.Grammar.Ledger.Statement
import ComponentLang.Proofs.Grammar.Ledger.Program
import ComponentLang.Proofs.Typing.Effects
import ComponentLang.Proofs.Typing.Effects.Program
import ComponentLang.Proofs.Typing.Relaxes
import ComponentLang.Proofs.Typing.Relaxes.Assignable
import ComponentLang.Proofs.Typing.Relaxes.Verdict
import ComponentLang.Proofs.Typing.Relaxes.Tree
import ComponentLang.Proofs.Typing.Twins
import ComponentLang.Proofs.Typing.Twins.Expression
import ComponentLang.Proofs.Typing.Twins.Program
import ComponentLang.Proofs.Grammar.Beside
import ComponentLang.Proofs.Grammar.Beside.Expression
import ComponentLang.Proofs.Grammar.Unbounded
import ComponentLang.Proofs.Grammar.Layers
import ComponentLang.Proofs.Grammar.RoundTrip
import ComponentLang.Proofs.Grammar.Beside.Simple
import ComponentLang.Proofs.Grammar.Beside.Statement
import ComponentLang.Proofs.Grammar.Beside.Program
import ComponentLang.Proofs.Grammar.Ahead
import ComponentLang.Proofs.Grammar.Starts
import ComponentLang.Proofs.Grammar.Resumption
import ComponentLang.Proofs.Typing.Settled
import ComponentLang.Proofs.Typing.Turns
import ComponentLang.Proofs.Typing.Annotated
import ComponentLang.Proofs.Grammar.Provenance
import ComponentLang.Proofs.Grammar.Provenance.Reading
import ComponentLang.Proofs.Grammar.Provenance.Expression
import ComponentLang.Proofs.Grammar.Provenance.Statement
import ComponentLang.Proofs.Grammar.Provenance.Program
import ComponentLang.Proofs.Typing.Local
import ComponentLang.Proofs.Typing.Local.Statement
import ComponentLang.Proofs.Typing.Local.Sequence
import ComponentLang.Proofs.Typing.Local.Declare
import ComponentLang.Proofs.Typing.Reordered
import ComponentLang.Proofs.Typing.Exported
import ComponentLang.Proofs.Typing.Scoped
import ComponentLang.Proofs.Tree.Names
import ComponentLang.Proofs.Grammar.Abreast
import ComponentLang.Proofs.Grammar.Abreast.Expression
import ComponentLang.Proofs.Grammar.Abreast.Simple
import ComponentLang.Proofs.Grammar.Abreast.Block
import ComponentLang.Proofs.Grammar.Abreast.Declaration
import ComponentLang.Proofs.Grammar.Abreast.Statement
import ComponentLang.Proofs.Grammar.Abreast.Program
import ComponentLang.Proofs.Grammar.Respelled
import ComponentLang.Proofs.Typing.Everywhere
import ComponentLang.Proofs.Typing.Transitive
import ComponentLang.Proofs.Typing.Normal
import ComponentLang.Proofs.Typing.Union
import ComponentLang.Proofs.Tree.Bare
import ComponentLang.Proofs.Typing.Naming
import ComponentLang.Proofs.Typing.Naming.Program
import ComponentLang.Proofs.Typing.External
import ComponentLang.Proofs.Typing.External.Program
import ComponentLang.Proofs.Scan.Gap
import ComponentLang.Proofs.Scan.Spaced
import ComponentLang.Proofs.Scan.Insertion
import ComponentLang.Proofs.Grammar.Numbering
import ComponentLang.Proofs.Grammar.Numbering.Expression
import ComponentLang.Proofs.Grammar.Numbering.Program
import ComponentLang.Proofs.Source.Utf8
import ComponentLang.Proofs.Scan.Literal
import ComponentLang.Proofs.Scan.Literal.Text
import ComponentLang.Proofs.Scan.Literal.Longest
import ComponentLang.Proofs.Scan.Positions
import ComponentLang.Proofs.Scan.Content
import ComponentLang.Proofs.Grammar.Texts
import ComponentLang.Proofs.Grammar.Texts.Expression
import ComponentLang.Proofs.Grammar.Texts.Statement
import ComponentLang.Proofs.Grammar.Texts.Program
import ComponentLang.Proofs.Grammar.Rendering
import ComponentLang.Proofs.Grammar.Rendering.Block
import ComponentLang.Proofs.Grammar.Rendering.Declaration
import ComponentLang.Proofs.Grammar.Rendering.Program
import ComponentLang.Proofs.Tree.WellFormed
import ComponentLang.Proofs.Grammar.Bracketed
import ComponentLang.Proofs.Grammar.Display
import ComponentLang.Proofs.Typing.Summaries
import ComponentLang.Proofs.Typing.Returns
import ComponentLang.Proofs.Typing.Compound
import ComponentLang.Proofs.Grammar.Elsewhere
import ComponentLang.Proofs.Grammar.Loops
import ComponentLang.Proofs.Grammar.Spans.Program
import ComponentLang.Proofs.Style
import ComponentLang.Proofs.Typing.Shadowing
import ComponentLang.Proofs.Grammar.Ended
import ComponentLang.Proofs.CommandLine
import ComponentLang.Proofs.Grammar.Head
import ComponentLang.Proofs.Grammar.Head.Statement
import ComponentLang.Proofs.Grammar.Head.Watch
import ComponentLang.Proofs.Typing.Grouping
