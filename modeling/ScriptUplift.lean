import ScriptUplift.Category
import ScriptUplift.Classify.Annotations
import ScriptUplift.Classify.Line
import ScriptUplift.Classify.Refresh
import ScriptUplift.Clock
import ScriptUplift.Command.Check
import ScriptUplift.Command.Fault
import ScriptUplift.Command.Flag
import ScriptUplift.Command.History
import ScriptUplift.Command.Line
import ScriptUplift.Command.Migrate
import ScriptUplift.Command.Run
import ScriptUplift.Command.Session
import ScriptUplift.Command.Suggestion
import ScriptUplift.Config.Basic
import ScriptUplift.Config.Document
import ScriptUplift.Config.File
import ScriptUplift.Config.Fingerprint
import ScriptUplift.Diagnostics.Legacy
import ScriptUplift.Diagnostics.Printer
import ScriptUplift.Diagnostics.Record
import ScriptUplift.Diff.Matching
import ScriptUplift.Diff.Unified
import ScriptUplift.Digest.Packed
import ScriptUplift.Digest.Sha256
import ScriptUplift.Disk.AtomicWrite
import ScriptUplift.Disk.Backup
import ScriptUplift.Disk.Basic
import ScriptUplift.Disk.Node
import ScriptUplift.Disk.Path
import ScriptUplift.Disk.Walker
import ScriptUplift.Entries
import ScriptUplift.Fault
import ScriptUplift.Glob
import ScriptUplift.IgnoreRule
import ScriptUplift.Indent.Detect
import ScriptUplift.Indent.Repair
import ScriptUplift.Indent.Unit
import ScriptUplift.Log
import ScriptUplift.Main
import ScriptUplift.Member.Canonical
import ScriptUplift.Member.Unit
import ScriptUplift.Orphan.Binding
import ScriptUplift.Orphan.Marker
import ScriptUplift.Orphan.Reference
import ScriptUplift.Orphan.Repair
import ScriptUplift.Orphan.Run
import ScriptUplift.Pattern.Basic
import ScriptUplift.Pattern.Grammar
import ScriptUplift.Pipeline
import ScriptUplift.Project.Migration
import ScriptUplift.Proofs.LinkedPaths
import ScriptUplift.Proofs.EntryPaths
import ScriptUplift.Proofs.ChangedDisk
import ScriptUplift.Proofs.MachineRun
import ScriptUplift.Proofs.WordIndentation
import ScriptUplift.Report
import ScriptUplift.Script.Call
import ScriptUplift.Script.Identifier
import ScriptUplift.Script.Reading
import ScriptUplift.Script.Scan
import ScriptUplift.Source
import ScriptUplift.State.Database
import ScriptUplift.State.File
import ScriptUplift.State.Image
import ScriptUplift.State.Memory
import ScriptUplift.State.Record
import ScriptUplift.State.RunKey
import ScriptUplift.State.Store
import ScriptUplift.Summary.Basic
import ScriptUplift.Summary.Exit
import ScriptUplift.Summary.PatternSort
import ScriptUplift.Summary.Printer
import ScriptUplift.Text.Basic
import ScriptUplift.Text.Blank
import ScriptUplift.Text.Color
import ScriptUplift.Text.Digit
import ScriptUplift.Text.Integer
import ScriptUplift.Text.Printable
import ScriptUplift.Text.Quoted
import ScriptUplift.Text.Replace
import ScriptUplift.Uplift.Engine
import ScriptUplift.Uplift.ExportHint
import ScriptUplift.Uplift.Numeral
import ScriptUplift.Uplift.Rule
import ScriptUplift.Yaml.Node
import ScriptUplift.Yaml.Reader
import ScriptUplift.Yaml.Scalar
import ScriptUplift.Yaml.Value
import ScriptUplift.Yaml.Writer
import ScriptUplift.Proofs.Tally
import ScriptUplift.Proofs.Knowledge
import ScriptUplift.Proofs.Indentation
import ScriptUplift.Proofs.OrphanVerdicts
import ScriptUplift.Proofs.Handoff
import ScriptUplift.Proofs.MemberOrder
import ScriptUplift.Proofs.Completion
import ScriptUplift.Proofs.Replacement
import ScriptUplift.Proofs.UpliftEngine
import ScriptUplift.Proofs.LineEndings
import ScriptUplift.Proofs.Conservation
import ScriptUplift.Proofs.Settled
import ScriptUplift.Proofs.BucketOrder
import ScriptUplift.Proofs.Rereading
import ScriptUplift.Proofs.SelfContained
import ScriptUplift.Proofs.AnnotationBinding
import ScriptUplift.Proofs.CleanPass
import ScriptUplift.Proofs.CleanCache
import ScriptUplift.Proofs.SortedEntries
import ScriptUplift.Proofs.DiskTree
import ScriptUplift.Proofs.DiskPath
import ScriptUplift.Proofs.WriteSteps
import ScriptUplift.Proofs.FileForecast
import ScriptUplift.Proofs.Succession
import ScriptUplift.Proofs.Shares
import ScriptUplift.Proofs.FileOrder
import ScriptUplift.Proofs.BackupCopy
import ScriptUplift.Proofs.Preparation
import ScriptUplift.Proofs.Isolation
import ScriptUplift.Proofs.DryRun
import ScriptUplift.Proofs.BackupCoverage
import ScriptUplift.Proofs.WorkerPool
import ScriptUplift.Proofs.SingleWorker
import ScriptUplift.Proofs.Interleaving
import ScriptUplift.Proofs.BigEndian
import ScriptUplift.Proofs.StoreAgreement
import ScriptUplift.Proofs.CacheTrust
import ScriptUplift.Proofs.TextBytes
import ScriptUplift.Proofs.PackedReading
import ScriptUplift.Proofs.FingerprintCoverage
import ScriptUplift.Proofs.CallSites
import ScriptUplift.Proofs.ReplacedTexts
import ScriptUplift.Proofs.CountedChanges
import ScriptUplift.Proofs.Reindented
import ScriptUplift.Proofs.Nesting
import ScriptUplift.Proofs.RepeatedRepair
import ScriptUplift.Proofs.CallReading
import ScriptUplift.Proofs.CallPieces
import ScriptUplift.Proofs.SpentCalls
import ScriptUplift.Proofs.BuiltCalls
import ScriptUplift.Proofs.CarriedCalls
import ScriptUplift.Proofs.CommentBorder
import ScriptUplift.Proofs.SpentLines
import ScriptUplift.Proofs.UpliftTrace
import ScriptUplift.Proofs.LegacyLeftovers
import ScriptUplift.Proofs.LeadingWhitespace
import ScriptUplift.Proofs.CodelessLines
import ScriptUplift.Proofs.OrphanTexts
import ScriptUplift.Proofs.BlocksInPlace
import ScriptUplift.Proofs.Locals
import ScriptUplift.Proofs.StandingLines
import ScriptUplift.Proofs.RunMembers
import ScriptUplift.Proofs.WrapperNames
import ScriptUplift.Proofs.StrandedDeclarations
import ScriptUplift.Proofs.OtherPlaces
import ScriptUplift.Proofs.ResolvedRuns
import ScriptUplift.Proofs.WrappedRuns
import ScriptUplift.Proofs.StableOrphans
import ScriptUplift.Proofs.PureCode
import ScriptUplift.Proofs.RunLayout
import ScriptUplift.Proofs.FirstUses
import ScriptUplift.Proofs.CommentedOut
import ScriptUplift.Proofs.DeclaringLines
import ScriptUplift.Proofs.NamesInCode
import ScriptUplift.Proofs.FlaggedNames
import ScriptUplift.Proofs.RecordedNumbers
import ScriptUplift.Proofs.RunsInOnePiece
import ScriptUplift.Proofs.LeadingCode
import ScriptUplift.Proofs.RepeatedReports
import ScriptUplift.Proofs.EmittedArguments
import ScriptUplift.Proofs.ExportMarks
import ScriptUplift.Proofs.StringLiterals
import ScriptUplift.Proofs.CodeEdits
import ScriptUplift.Proofs.EditedLines
import ScriptUplift.Proofs.LexicalNeutrality
import ScriptUplift.Proofs.ComposedTexts
import ScriptUplift.Proofs.BracketNesting
import ScriptUplift.Proofs.StutteredCallees
import ScriptUplift.Proofs.HintValues
import ScriptUplift.Proofs.RecognisedExports
import ScriptUplift.Proofs.MovedMembers
import ScriptUplift.Proofs.CutAgain
import ScriptUplift.Proofs.ArrangedAgain
import ScriptUplift.Proofs.MemberLayout
import ScriptUplift.Proofs.RepeatedOrder
import ScriptUplift.Proofs.CollectedRecords
import ScriptUplift.Proofs.SummaryAccounts
import ScriptUplift.Proofs.SelectedFiles
import ScriptUplift.Proofs.VeiledCode
import ScriptUplift.Proofs.CodeOnlyCheck
import ScriptUplift.Proofs.JoinedArguments
import ScriptUplift.Proofs.MatchingBrackets
import ScriptUplift.Proofs.FileRun
import ScriptUplift.Proofs.IndentArithmetic
import ScriptUplift.Proofs.DetectedUnit
