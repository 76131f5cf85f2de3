import CssSelector.CommandLine.Arguments
import CssSelector.CommandLine.Report
import CssSelector.ComponentValue.Basic
import CssSelector.ComponentValue.Cursor
import CssSelector.ComponentValue.Grouping
import CssSelector.ComponentValue.Printer
import CssSelector.Location
import CssSelector.Main
import CssSelector.Namespace
import CssSelector.Number.Nearest
import CssSelector.Number.Numeral
import CssSelector.Number.Shortest
import CssSelector.Number.Single
import CssSelector.Proofs.CommandLine.Snippet
import CssSelector.Proofs.Grammar.Acceptance
import CssSelector.Proofs.Grammar.Functionals
import CssSelector.Proofs.Grammar.Parts
import CssSelector.Proofs.Grammar.Selectors
import CssSelector.Proofs.Grammar.Spelling
import CssSelector.Proofs.Grammar.WellFormed
import CssSelector.Proofs.Grouping.Beginnings
import CssSelector.Proofs.Grouping.Flatten
import CssSelector.Proofs.Grouping.Places
import CssSelector.Proofs.Grouping.Size
import CssSelector.Proofs.List.Branchwise
import CssSelector.Proofs.List.Comments
import CssSelector.Proofs.List.Modes
import CssSelector.Proofs.Namespaces.Default
import CssSelector.Proofs.Namespaces.Unscoped
import CssSelector.Proofs.Nesting.Arguments
import CssSelector.Proofs.Nesting.Comparison
import CssSelector.Proofs.Nesting.Compositional
import CssSelector.Proofs.Nesting.Errors
import CssSelector.Proofs.Nesting.Escaping
import CssSelector.Proofs.Nesting.Levels
import CssSelector.Proofs.Nesting.Limit
import CssSelector.Proofs.Nesting.PseudoNames
import CssSelector.Proofs.Nesting.Raising
import CssSelector.Proofs.Number.Form
import CssSelector.Proofs.Number.Integers
import CssSelector.Proofs.Number.Longest
import CssSelector.Proofs.Printing.Arguments
import CssSelector.Proofs.Printing.Groups
import CssSelector.Proofs.Printing.Lists
import CssSelector.Proofs.Printing.Printable
import CssSelector.Proofs.Printing.RoundTrip
import CssSelector.Proofs.Printing.Scanning
import CssSelector.Proofs.Printing.Selectors
import CssSelector.Proofs.Printing.Simple
import CssSelector.Proofs.Printing.Writing
import CssSelector.Proofs.Reading.Agreement
import CssSelector.Proofs.Reading.Basic
import CssSelector.Proofs.Reading.Comparison
import CssSelector.Proofs.Reading.Errors
import CssSelector.Proofs.Reading.Extent
import CssSelector.Proofs.Specificity.Expansion
import CssSelector.Proofs.Specificity.Length
import CssSelector.Proofs.Text.Lines
import CssSelector.Proofs.Text.Preprocessed
import CssSelector.Proofs.Token.Adjacent
import CssSelector.Proofs.Token.Beginnings
import CssSelector.Proofs.Token.Exhausted
import CssSelector.Proofs.Token.HexEscapes
import CssSelector.Proofs.Token.Identifiers
import CssSelector.Proofs.Token.OnDemand
import CssSelector.Proofs.Token.Partition
import CssSelector.Proofs.Token.Printing
import CssSelector.Proofs.Token.Quoting
import CssSelector.Proofs.Token.Resuming
import CssSelector.Proofs.Token.Unescaped
import CssSelector.Proofs.Token.Verbatim
import CssSelector.Selector.Basic
import CssSelector.Selector.Branch
import CssSelector.Selector.Equality
import CssSelector.Selector.Error
import CssSelector.Selector.List
import CssSelector.Selector.Name
import CssSelector.Selector.Nesting
import CssSelector.Selector.Printer
import CssSelector.Selector.Reply
import CssSelector.Selector.Simple
import CssSelector.Selector.Specificity
import CssSelector.Text.CodePoint
import CssSelector.Text.Escape
import CssSelector.Text.Lines
import CssSelector.Text.Preprocess
import CssSelector.Text.Quoted
import CssSelector.Text.Source
import CssSelector.Token.Basic
import CssSelector.Token.Buffer
import CssSelector.Token.Lexer
import CssSelector.Token.Name
import CssSelector.Token.Printer
