import Bindery.Artifact
import Bindery.CommandLine
import Bindery.CommandLine.Arguments
import Bindery.Config
import Bindery.Config.File
import Bindery.Declaration
import Bindery.Delegate
import Bindery.Destination
import Bindery.Discovery
import Bindery.Dispatch
import Bindery.Expansion
import Bindery.FileError
import Bindery.FilePath
import Bindery.FileTree
import Bindery.Handler
import Bindery.Keyed
import Bindery.Main
import Bindery.Manifest
import Bindery.Package
import Bindery.Registration
import Bindery.Registry
import Bindery.Report
import Bindery.Round
import Bindery.SampleBindings
import Bindery.ShapeRule
import Bindery.Source.Grammar
import Bindery.Source.Grammar.Attribute
import Bindery.Source.Grammar.Expression
import Bindery.Source.Grammar.Generics
import Bindery.Source.Grammar.Item
import Bindery.Source.Grammar.Path
import Bindery.Source.Grammar.Pattern
import Bindery.Source.Grammar.Statement
import Bindery.Source.Grammar.Type
import Bindery.Source.Item
import Bindery.Source.Reading
import Bindery.Source.Type
import Bindery.Source.Type.Erasure
import Bindery.Source.Type.Printer
import Bindery.SourceTree
import Bindery.Survey
import Bindery.Survey.ModulePath
import Bindery.Text.Class
import Bindery.Text.IdentTable
import Bindery.Text.PrintableTable
import Bindery.Text.Quoted
import Bindery.Text.Split
import Bindery.Token
import Bindery.Token.Lexer
import Bindery.Token.Literal
import Bindery.Token.Number
import Bindery.Token.Printer
import Bindery.Toml.Reading
import Bindery.Toml.Scalar
import Bindery.Toml.Value
import Bindery.Value
import Bindery.Proofs.Dispatch.Machine
import Bindery.Proofs.Dispatch.Simulation
import Bindery.Proofs.Dispatch.Ledger
import Bindery.Proofs.Dispatch.Protocol
import Bindery.Proofs.Dispatch.Stopping
import Bindery.Proofs.Dispatch.Pinning
import Bindery.Proofs.Round.Discovery
import Bindery.Proofs.Round.Closure
import Bindery.Proofs.Round.Validation
import Bindery.Proofs.Round.Emission
import Bindery.Proofs.Round.Misuse
import Bindery.Proofs.Registry
import Bindery.Proofs.Round.Statements
import Bindery.Proofs.Round.Installation
import Bindery.Proofs.Token.Word
import Bindery.Proofs.Token.Lexing
import Bindery.Proofs.Token.Legible
import Bindery.Proofs.Source.Grammar
import Bindery.Proofs.Source.Path
import Bindery.Proofs.Round.Decoding
import Bindery.Proofs.Round.Legible
import Bindery.Proofs.Round.Faithful
import Bindery.Proofs.Source.Yields
import Bindery.Proofs.Source.Names
import Bindery.Proofs.Survey.Sighting
import Bindery.Proofs.Survey.Walk
import Bindery.Proofs.Survey.Exclusion
import Bindery.Proofs.Survey.Markers
import Bindery.Proofs.Survey.Aliases
import Bindery.Proofs.Files.Tree
import Bindery.Proofs.Files.Paths
import Bindery.Proofs.Files.Parents
import Bindery.Proofs.Files.Selection
import Bindery.Proofs.Files.Writing
import Bindery.Proofs.Files.Refinement
import Bindery.Proofs.Files.Collection
import Bindery.Proofs.Round.Index
import Bindery.Proofs.Round.History
import Bindery.Proofs.Round.Settings
import Bindery.Proofs.Round.Overlay
import Bindery.Proofs.Round.Survival
import Bindery.Proofs.Token.Literal
import Bindery.Proofs.Source.Type.Erased
import Bindery.Proofs.Source.Type.Edits
import Bindery.Proofs.Source.Type.Outline
import Bindery.Proofs.Source.Type.Decoding
import Bindery.Proofs.Source.Type.Unambiguous
import Bindery.Proofs.Round.Parameters
import Bindery.Proofs.Holdings
import Bindery.Proofs.Dispatch.Sessions
import Bindery.Proofs.Round.Reinstallation
import Bindery.Proofs.Source.Items
import Bindery.Proofs.Source.Structs
import Bindery.Proofs.Survey.Expansion
import Bindery.Proofs.Source.Types
import Bindery.Proofs.Source.Type.Unit
import Bindery.Proofs.Survey.Signatures
import Bindery.Proofs.Round.Calls
import Bindery.Proofs.Commands
import Bindery.Proofs.Round.Acceptance
import Bindery.Proofs.Survey.Order
import Bindery.Proofs.Round.Reordering
import Bindery.Proofs.Round.ReorderedRegistry
import Bindery.Proofs.Round.Tags
import Bindery.Proofs.Round.Gateways
import Bindery.Proofs.Text.Bytes
import Bindery.Proofs.Dispatch.Past
import Bindery.Proofs.Dispatch.Observers
import Bindery.Proofs.Dispatch.Unwinding
import Bindery.Proofs.Dispatch.Panics
import Bindery.Proofs.Survey.Paths
import Bindery.Proofs.Round.Paths
import Bindery.Proofs.Source.Keywords
import Bindery.Proofs.Survey.Nesting
import Bindery.Proofs.Files.Modules
import Bindery.Proofs.Round.Modules
import Bindery.Proofs.Dispatch.Addition
import Bindery.Proofs.Files.Ways
import Bindery.Proofs.Package.Lines
import Bindery.Proofs.Source.Rereading
import Bindery.Proofs.Source.Rereading.Apart
import Bindery.Proofs.Source.Rereading.Arguments
import Bindery.Proofs.Source.Rereading.Code
import Bindery.Proofs.Source.Rereading.Returns
import Bindery.Proofs.Source.Rereading.Ordinary
import Bindery.Proofs.Round.Pasting
