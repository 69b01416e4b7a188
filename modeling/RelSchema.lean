import RelSchema.Behavior.Declaration
import RelSchema.Behavior.Registry
import RelSchema.Column
import RelSchema.Config
import RelSchema.ConstraintNames
import RelSchema.Coverage
import RelSchema.Database
import RelSchema.Decimal.Shortest
import RelSchema.Defaults
import RelSchema.Diagnostic
import RelSchema.Finalization
import RelSchema.ForeignKey
import RelSchema.Handle
import RelSchema.Index
import RelSchema.Json.Basic
import RelSchema.Json.Double
import RelSchema.Json.Free
import RelSchema.Json.Printer
import RelSchema.Json.Reader
import RelSchema.Json.Record
import RelSchema.KeyMap
import RelSchema.Linkage
import RelSchema.Naming.Method
import RelSchema.Naming.Strategy
import RelSchema.Platform
import RelSchema.Proofs.ColumnLookup
import RelSchema.Proofs.CoverageEntries
import RelSchema.Report
import RelSchema.Resolution
import RelSchema.SchemaError
import RelSchema.SchemaJson
import RelSchema.Setup
import RelSchema.Synthesis
import RelSchema.Table.Basic
import RelSchema.Table.Columns
import RelSchema.Table.Edit
import RelSchema.Table.Lookups
import RelSchema.Table.Uniqueness
import RelSchema.Text.Case
import RelSchema.Text.CaseTable
import RelSchema.Text.Cut
import RelSchema.Text.Digit
import RelSchema.Text.Split
import RelSchema.Toml.Basic
import RelSchema.Toml.Document
import RelSchema.Toml.Draft
import RelSchema.Toml.Quoted
import RelSchema.Toml.Scalars
import RelSchema.Toml.Text
import RelSchema.Toml.Values
import RelSchema.Walk
import RelSchema.Proofs.Completion
import RelSchema.Proofs.LinkRun
import RelSchema.Proofs.Accounting
import RelSchema.Proofs.SettledTables
import RelSchema.Proofs.KeyCoverage
import RelSchema.Proofs.ReferrerEdges
import RelSchema.Proofs.FinalizeRun
import RelSchema.Proofs.Idempotence
import RelSchema.Proofs.Incremental
import RelSchema.Proofs.DanglingReferences
import RelSchema.Proofs.StandardNames
import RelSchema.Proofs.ConstraintNaming
import RelSchema.Proofs.IndexNames
import RelSchema.Proofs.IdentifierLimits
import RelSchema.Proofs.CoverageReplay
import RelSchema.Proofs.ColumnRegistry
import RelSchema.Proofs.Relinking
import RelSchema.Proofs.ReportAccounts
import RelSchema.Proofs.CrossReferences
import RelSchema.Proofs.JsonText
import RelSchema.Proofs.NamingRun
import RelSchema.Proofs.Decoding
import RelSchema.Proofs.JsonTokens
import RelSchema.Proofs.ReportText
import RelSchema.Proofs.TomlStrings
import RelSchema.Proofs.TomlDocuments
import RelSchema.Proofs.ConfigText
import RelSchema.Proofs.IndexReplacement
import RelSchema.Proofs.CompletionRounds
import RelSchema.Proofs.NeedlessIndices
import RelSchema.Proofs.UniqueColumns
import RelSchema.Proofs.CutNames
import RelSchema.Proofs.UnknownBehaviors
import RelSchema.Proofs.HeavyIndexing
import RelSchema.Proofs.SizedIndices
import RelSchema.Proofs.WordNames
