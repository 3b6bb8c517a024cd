import CallAtlas.Automaton.Basic
import CallAtlas.Automaton.Dfa
import CallAtlas.Automaton.Minimal
import CallAtlas.Automaton.Nfa
import CallAtlas.Automaton.Numbering
import CallAtlas.Automaton.OnDemand
import CallAtlas.Automaton.Simulation
import CallAtlas.Automaton.Subset
import CallAtlas.Command.Arguments
import CallAtlas.Command.Basic
import CallAtlas.Command.Parser
import CallAtlas.Command.Usage
import CallAtlas.Dump.Entry
import CallAtlas.Dump.Reader
import CallAtlas.Dump.Writer
import CallAtlas.FileTree
import CallAtlas.Graph.Basic
import CallAtlas.Graph.Drawing
import CallAtlas.Graph.Filter
import CallAtlas.Graph.Label
import CallAtlas.Graph.Query
import CallAtlas.Graph.Reach
import CallAtlas.Graph.Search
import CallAtlas.Graph.Visibility
import CallAtlas.IndexSet
import CallAtlas.Invocation
import CallAtlas.Main
import CallAtlas.NameMap
import CallAtlas.PathExpr.Basic
import CallAtlas.PathExpr.Fragment
import CallAtlas.PathExpr.Parser
import CallAtlas.Pattern.Basic
import CallAtlas.Pattern.Engine
import CallAtlas.Pattern.CharSet
import CallAtlas.Pattern.Error
import CallAtlas.Pattern.Flag
import CallAtlas.Pattern.Lexeme
import CallAtlas.Pattern.Meaning
import CallAtlas.Pattern.Node
import CallAtlas.Pattern.Parser
import CallAtlas.Pattern.Property
import CallAtlas.Pattern.Tree
import CallAtlas.Pattern.Weight
import CallAtlas.Proofs.Automaton.Determinize
import CallAtlas.Proofs.Automaton.Dialogue
import CallAtlas.Proofs.Automaton.Interpretation
import CallAtlas.Proofs.Automaton.Inverted
import CallAtlas.Proofs.Automaton.Minimal
import CallAtlas.Proofs.Automaton.Reverse
import CallAtlas.Proofs.Automaton.Subset
import CallAtlas.Proofs.Automaton.Tables
import CallAtlas.Proofs.Automaton.Trim
import CallAtlas.Proofs.Automaton.Walks
import CallAtlas.Proofs.Automaton.Workbench
import CallAtlas.Proofs.Command.Entry
import CallAtlas.Proofs.Dump.Entry
import CallAtlas.Proofs.Dump.InPlace
import CallAtlas.Proofs.Dump.Read
import CallAtlas.Proofs.Dump.Reload
import CallAtlas.Proofs.Dump.RoundTrip
import CallAtlas.Proofs.Graph.Addresses
import CallAtlas.Proofs.Graph.Cascade
import CallAtlas.Proofs.Graph.Consistency
import CallAtlas.Proofs.Graph.Drawing
import CallAtlas.Proofs.Graph.Engines
import CallAtlas.Proofs.Graph.History
import CallAtlas.Proofs.Graph.Indexed
import CallAtlas.Proofs.Graph.LabelQueries
import CallAtlas.Proofs.Graph.Labels
import CallAtlas.Proofs.Graph.Lookup
import CallAtlas.Proofs.Graph.Neighbours
import CallAtlas.Proofs.Graph.Overrides
import CallAtlas.Proofs.Graph.Paths
import CallAtlas.Proofs.Graph.Preorder
import CallAtlas.Proofs.Graph.Provenance
import CallAtlas.Proofs.Graph.Reach
import CallAtlas.Proofs.Graph.Search
import CallAtlas.Proofs.Graph.Texts
import CallAtlas.Proofs.Invocation.Status
import CallAtlas.Proofs.PathExpr.Composition
import CallAtlas.Proofs.PathExpr.FirstError
import CallAtlas.Proofs.PathExpr.Fragment
import CallAtlas.Proofs.PathExpr.Grammar
import CallAtlas.Proofs.PathExpr.Language
import CallAtlas.Proofs.Query.Failure
import CallAtlas.Proofs.Query.Outcome
import CallAtlas.Proofs.Query.Token
import CallAtlas.Proofs.Selector.Continuation
import CallAtlas.Proofs.Selector.Derivation
import CallAtlas.Proofs.Selector.FirstError
import CallAtlas.Proofs.Selector.Grammar
import CallAtlas.Proofs.Selector.Names
import CallAtlas.Proofs.Selector.Normal
import CallAtlas.Proofs.Selector.Parser
import CallAtlas.Proofs.Selector.Predicate
import CallAtlas.Proofs.Selector.Reading
import CallAtlas.Proofs.Selector.Selection
import CallAtlas.Proofs.Selector.Shape
import CallAtlas.Proofs.Selector.Spelling
import CallAtlas.Proofs.Selector.Targets
import CallAtlas.Proofs.Session.Execution
import CallAtlas.Proofs.Session.Failures
import CallAtlas.Proofs.Session.Halt
import CallAtlas.Proofs.Session.Inclusion
import CallAtlas.Proofs.Session.Machine
import CallAtlas.Proofs.Session.Nesting
import CallAtlas.Proofs.Session.Only
import CallAtlas.Proofs.Session.Refusal
import CallAtlas.Proofs.Session.Replay
import CallAtlas.Proofs.Session.Restore
import CallAtlas.Proofs.Session.Runs
import CallAtlas.Proofs.Text.Token
import CallAtlas.Query.Error
import CallAtlas.Query.Outcome
import CallAtlas.Reader
import CallAtlas.Report
import CallAtlas.Selector.Basic
import CallAtlas.Selector.Normal
import CallAtlas.Selector.Parser
import CallAtlas.Selector.Selection
import CallAtlas.Selector.Words
import CallAtlas.Session.Basic
import CallAtlas.Session.Failure
import CallAtlas.Session.Script
import CallAtlas.Settings
import CallAtlas.Settings.File
import CallAtlas.Text.Category.Basic
import CallAtlas.Text.Category.Letter
import CallAtlas.Text.Category.Mark
import CallAtlas.Text.Category.Number
import CallAtlas.Text.Category.Punctuation
import CallAtlas.Text.Category.Separator
import CallAtlas.Text.Category.Symbol
import CallAtlas.Text.Decimal
import CallAtlas.Text.Folding
import CallAtlas.Text.Lines
import CallAtlas.Text.Ranges
import CallAtlas.Text.Script
import CallAtlas.Text.Space
import CallAtlas.Text.Token
import CallAtlas.Text.Word
import CallAtlas.Toml.Document
import CallAtlas.Toml.Lexeme
import CallAtlas.Toml.Number
import CallAtlas.Toml.Value
import CallAtlas.Walk
