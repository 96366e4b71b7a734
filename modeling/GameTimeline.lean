import GameTimeline.Capture.Error
import GameTimeline.Capture.Image
import GameTimeline.Capture.Layout
import GameTimeline.Capture.Plan
import GameTimeline.Capture.Region
import GameTimeline.Capture.Session
import GameTimeline.Capture.Source
import GameTimeline.Capture.Stream
import GameTimeline.Capture.Synthetic
import GameTimeline.Capture.Tasks
import GameTimeline.Command.Action
import GameTimeline.Command.Arguments
import GameTimeline.Command.Basic
import GameTimeline.Command.Failure
import GameTimeline.Command.FileTree
import GameTimeline.Command.Selection
import GameTimeline.Command.Verb
import GameTimeline.Config.Layers
import GameTimeline.Config.Usage
import GameTimeline.Csv.Record
import GameTimeline.Decimal.Nearest
import GameTimeline.Decimal.Parser
import GameTimeline.Decimal.Shortest
import GameTimeline.Decimal.Spelling
import GameTimeline.Digest.Sha1
import GameTimeline.Digest.Sha256
import GameTimeline.Digest.Uuid
import GameTimeline.Digest.Words
import GameTimeline.Field.Clock
import GameTimeline.Field.Config
import GameTimeline.Field.Domain
import GameTimeline.Field.Error
import GameTimeline.Field.Model
import GameTimeline.Field.ModelSet
import GameTimeline.Field.Numeral
import GameTimeline.Field.Value
import GameTimeline.Json.Basic
import GameTimeline.Json.Bytes
import GameTimeline.Json.Number
import GameTimeline.Json.Parser
import GameTimeline.Json.Pointer
import GameTimeline.Json.Printer
import GameTimeline.Json.Record
import GameTimeline.Json.Spelled
import GameTimeline.Json.Token
import GameTimeline.Main
import GameTimeline.Proofs.Capture.Image
import GameTimeline.Proofs.Capture.Plan
import GameTimeline.Proofs.Capture.Raster
import GameTimeline.Proofs.Capture.Recognition
import GameTimeline.Proofs.Capture.RowLayout
import GameTimeline.Proofs.Capture.Sampling
import GameTimeline.Proofs.Capture.Synthetic
import GameTimeline.Proofs.Capture.Tasks
import GameTimeline.Proofs.Command.Agreement
import GameTimeline.Proofs.Command.FileTree
import GameTimeline.Proofs.Command.Selection
import GameTimeline.Proofs.Config.Canonical
import GameTimeline.Proofs.Config.Override
import GameTimeline.Proofs.Config.Partition
import GameTimeline.Proofs.Config.Usage
import GameTimeline.Proofs.Csv.Record
import GameTimeline.Proofs.Decimal.Interval
import GameTimeline.Proofs.Decimal.Reading
import GameTimeline.Proofs.Decimal.Shortest
import GameTimeline.Proofs.Decimal.Spelling
import GameTimeline.Proofs.Field.Classification
import GameTimeline.Proofs.Field.Clock
import GameTimeline.Proofs.Field.Declaration
import GameTimeline.Proofs.Field.Foreign
import GameTimeline.Proofs.Field.Member
import GameTimeline.Proofs.Field.Numeral
import GameTimeline.Proofs.Field.Pace
import GameTimeline.Proofs.Field.RuleSet
import GameTimeline.Proofs.Field.Verdict
import GameTimeline.Proofs.Json.Compact
import GameTimeline.Proofs.Json.Descent
import GameTimeline.Proofs.Json.Document
import GameTimeline.Proofs.Json.Extensional
import GameTimeline.Proofs.Json.Number
import GameTimeline.Proofs.Json.Numeral
import GameTimeline.Proofs.Json.Path
import GameTimeline.Proofs.Json.Quoted
import GameTimeline.Proofs.Reconcile.Acceptance
import GameTimeline.Proofs.Reconcile.Buffer
import GameTimeline.Proofs.Reconcile.Confirmation
import GameTimeline.Proofs.Reconcile.Determinism
import GameTimeline.Proofs.Reconcile.Evidence
import GameTimeline.Proofs.Reconcile.Fate
import GameTimeline.Proofs.Reconcile.History
import GameTimeline.Proofs.Reconcile.Majority
import GameTimeline.Proofs.Reconcile.Meeting
import GameTimeline.Proofs.Reconcile.Membership
import GameTimeline.Proofs.Reconcile.Omission
import GameTimeline.Proofs.Reconcile.Operation
import GameTimeline.Proofs.Reconcile.Reach
import GameTimeline.Proofs.Reconcile.Renumbering
import GameTimeline.Proofs.Reconcile.Settlement
import GameTimeline.Proofs.Reconcile.Span
import GameTimeline.Proofs.Reconcile.Standing
import GameTimeline.Proofs.Reconcile.Stream
import GameTimeline.Proofs.Reconcile.Waiting
import GameTimeline.Proofs.Series.Export
import GameTimeline.Proofs.Table
import GameTimeline.Proofs.Text.Blank
import GameTimeline.Proofs.Text.Bytes
import GameTimeline.Proofs.Text.Digits
import GameTimeline.Proofs.Text.Encoding
import GameTimeline.Proofs.Text.Notation
import GameTimeline.Proofs.Timeline.Account
import GameTimeline.Proofs.Timeline.Admission
import GameTimeline.Proofs.Timeline.Alike
import GameTimeline.Proofs.Timeline.Assembly
import GameTimeline.Proofs.Timeline.Batch
import GameTimeline.Proofs.Timeline.Clean
import GameTimeline.Proofs.Timeline.Column
import GameTimeline.Proofs.Timeline.Complete
import GameTimeline.Proofs.Timeline.Conservation
import GameTimeline.Proofs.Timeline.Echo
import GameTimeline.Proofs.Timeline.Emission
import GameTimeline.Proofs.Timeline.Encoding
import GameTimeline.Proofs.Timeline.Freeze
import GameTimeline.Proofs.Timeline.Inert
import GameTimeline.Proofs.Timeline.Ledger
import GameTimeline.Proofs.Timeline.Lookahead
import GameTimeline.Proofs.Timeline.Lookback
import GameTimeline.Proofs.Timeline.Membership
import GameTimeline.Proofs.Timeline.Monotone
import GameTimeline.Proofs.Timeline.Omission
import GameTimeline.Proofs.Timeline.Overreach
import GameTimeline.Proofs.Timeline.Phase
import GameTimeline.Proofs.Timeline.Refinement
import GameTimeline.Proofs.Timeline.Refusal
import GameTimeline.Proofs.Timeline.Renumbering
import GameTimeline.Proofs.Timeline.Report
import GameTimeline.Proofs.Timeline.Rerun
import GameTimeline.Proofs.Timeline.Retiming
import GameTimeline.Proofs.Timeline.Search
import GameTimeline.Proofs.Timeline.Separation
import GameTimeline.Proofs.Timeline.Session
import GameTimeline.Proofs.Timeline.Steady
import GameTimeline.Proofs.Timeline.Store
import GameTimeline.Proofs.Timeline.StreamFile
import GameTimeline.Proofs.Timeline.Superseded
import GameTimeline.Proofs.Timeline.Tally
import GameTimeline.Proofs.Timeline.Truth
import GameTimeline.Proofs.Timeline.Unresolved
import GameTimeline.Proofs.Timeline.Upheld
import GameTimeline.Proofs.Timeline.Wire
import GameTimeline.Proofs.Traversal
import GameTimeline.Proofs.Yaml.Document
import GameTimeline.Reconcile.Belief
import GameTimeline.Reconcile.Reconciler
import GameTimeline.Reconcile.Track
import GameTimeline.Run.Identity
import GameTimeline.Run.Manifest
import GameTimeline.Run.Stamp
import GameTimeline.Series.Csv
import GameTimeline.Series.Stream
import GameTimeline.Table
import GameTimeline.Text.Blank
import GameTimeline.Text.Bytes
import GameTimeline.Text.Digits
import GameTimeline.Text.Hex
import GameTimeline.Text.Quoted
import GameTimeline.Text.Unseen
import GameTimeline.Timeline.Builder
import GameTimeline.Timeline.Export
import GameTimeline.Timeline.Quality
import GameTimeline.Timeline.RawFrame
import GameTimeline.Timeline.State
import GameTimeline.Timeline.Store
import GameTimeline.Traversal
import GameTimeline.Yaml.Cursor
import GameTimeline.Yaml.Document
import GameTimeline.Yaml.Node.Anchors
import GameTimeline.Yaml.Node.Basic
import GameTimeline.Yaml.Node.Document
import GameTimeline.Yaml.Node.Places
import GameTimeline.Yaml.Scalar.Block
import GameTimeline.Yaml.Scalar.Folding
import GameTimeline.Yaml.Scalar.Plain
import GameTimeline.Yaml.Scalar.Quoted
import GameTimeline.Yaml.Scalar.Typing
import GameTimeline.Yaml.Token.Basic
import GameTimeline.Yaml.Token.Name
import GameTimeline.Yaml.Token.Stream
import GameTimeline.Yaml.Value
