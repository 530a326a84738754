import ShapeLedger.Analysis.Document
import ShapeLedger.Analysis.Release
import ShapeLedger.Json.Printer
import ShapeLedger.Json.Discard
import ShapeLedger.Main
import ShapeLedger.Web.Server
import ShapeLedger.Proofs.Text.Utf8
import ShapeLedger.Proofs.Files.Growth
import ShapeLedger.Proofs.Ledger.Invariant
import ShapeLedger.Proofs.Ledger.Session
import ShapeLedger.Proofs.Ledger.Call
import ShapeLedger.Proofs.Ledger.History
import ShapeLedger.Proofs.Ledger.Interleaving
import ShapeLedger.Proofs.Json.Depth
import ShapeLedger.Proofs.Json.Grammar
import ShapeLedger.Proofs.Json.StringLiteral
import ShapeLedger.Proofs.Binary64.Rounding
import ShapeLedger.Proofs.Json.Numeral
import ShapeLedger.Proofs.Json.Members
import ShapeLedger.Proofs.Json.Scan
import ShapeLedger.Proofs.Json.Reading
import ShapeLedger.Proofs.Json.Printing
import ShapeLedger.Proofs.Json.RoundTrip
import ShapeLedger.Proofs.Program.Analyze
import ShapeLedger.Proofs.Web.Recording
import ShapeLedger.Proofs.Web.Limits
import ShapeLedger.Proofs.Web.Submission
import ShapeLedger.Proofs.Ledger.Migration
import ShapeLedger.Proofs.Files.Elsewhere
import ShapeLedger.Proofs.Ledger.Sidecars
import ShapeLedger.Proofs.Ledger.Opening
import ShapeLedger.Proofs.Ledger.Replacement
import ShapeLedger.Proofs.Ledger.Poison
import ShapeLedger.Proofs.Ledger.Rules
import ShapeLedger.Proofs.Ledger.Recall
import ShapeLedger.Proofs.Json.Passing
import ShapeLedger.Proofs.Json.Record
import ShapeLedger.Proofs.Json.Writing
import ShapeLedger.Proofs.Web.Body
import ShapeLedger.Proofs.Web.Members
import ShapeLedger.Proofs.Web.Envelope
import ShapeLedger.Proofs.Program.ReadBack
import ShapeLedger.Proofs.Web.Refusals
import ShapeLedger.Proofs.Web.Layers
import ShapeLedger.Proofs.Files.Spelling
import ShapeLedger.Proofs.Files.Ways
import ShapeLedger.Proofs.CommandLine.Paths
import ShapeLedger.Proofs.Program.Settings
import ShapeLedger.Proofs.Program.Start
import ShapeLedger.Proofs.Program.Precedence
import ShapeLedger.Proofs.Program.Effects
import ShapeLedger.Proofs.Json.Brackets
import ShapeLedger.Proofs.Json.Discards
import ShapeLedger.Proofs.Web.StackRoom
import ShapeLedger.Proofs.Analysis.Repetition
import ShapeLedger.Proofs.Web.BodyLimit
import ShapeLedger.Proofs.Toml.Grammar
import ShapeLedger.Proofs.Toml.Strings
import ShapeLedger.Proofs.Toml.Numbers
import ShapeLedger.Proofs.Toml.Values
import ShapeLedger.Proofs.Toml.Edits
import ShapeLedger.Proofs.Toml.Layout
import ShapeLedger.Proofs.Program.Fields
import ShapeLedger.Proofs.Analysis.Embedding
import ShapeLedger.Proofs.Analysis.TopLevel
import ShapeLedger.Proofs.Files.Siblings
import ShapeLedger.Proofs.Program.LogFile
import ShapeLedger.Proofs.CommandLine.Port
import ShapeLedger.Proofs.CommandLine.Words
import ShapeLedger.Proofs.CommandLine.Spellings
import ShapeLedger.Proofs.Json.Steady
import ShapeLedger.Proofs.Json.Faults
import ShapeLedger.Proofs.Web.Places
import ShapeLedger.Proofs.Analysis.Release
