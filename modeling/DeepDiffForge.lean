import DeepDiffForge.Patch.HunkContract
import DeepDiffForge.Patch.Moves
import DeepDiffForge.Patch.Unambiguous
import DeepDiffForge.Patch.Locality
import DeepDiffForge.Patch.Concat
import DeepDiffForge.Lib.Paging
import DeepDiffForge.Core.Seal
import DeepDiffForge.Graph.Rank
import DeepDiffForge.Daemon.Views
import DeepDiffForge.Daemon.HunkPages
import DeepDiffForge.Daemon.OutlinePages
import DeepDiffForge.Cluster.Scheduler
import DeepDiffForge.Lib.Machine
import DeepDiffForge.Daemon.Admission
import DeepDiffForge.Lib.Recency
import DeepDiffForge.Daemon.Sessions
import DeepDiffForge.Lib.SortedMap
import DeepDiffForge.Review.Session
import DeepDiffForge.Review.Journal
import DeepDiffForge.Review.Replay
import DeepDiffForge.Review.Mirror
import DeepDiffForge.Review.Reimport
import DeepDiffForge.Review.Policy
import DeepDiffForge.Review.Gate
import DeepDiffForge.Lib.Json
import DeepDiffForge.Lib.JsonValue
import DeepDiffForge.Lib.Slices
import DeepDiffForge.Daemon.Emitted
import DeepDiffForge.Patch.Extent
import DeepDiffForge.Daemon.Budget
import DeepDiffForge.Daemon.Binding
import DeepDiffForge.Core.Display
import DeepDiffForge.Agent.Findings
import DeepDiffForge.Lib.Fallible
import DeepDiffForge.Agent.Verdicts
import DeepDiffForge.Lib.Script
import DeepDiffForge.Syntax.Structural
import DeepDiffForge.Syntax.Scripts
import DeepDiffForge.Syntax.Described
import DeepDiffForge.Lib.Markers
import DeepDiffForge.Git.Raw
import DeepDiffForge.Git.Ranges
import DeepDiffForge.Lib.Lossy
import DeepDiffForge.Patch.Capture
import DeepDiffForge.Git.Blocks
import DeepDiffForge.Git.Captured
import DeepDiffForge.Review.Lines
import DeepDiffForge.Review.Replan
import DeepDiffForge.Review.Interrupted
import DeepDiffForge.Review.Recovery
import DeepDiffForge.Lib.HashChain
import DeepDiffForge.Lib.Threads
import DeepDiffForge.Review.History
import DeepDiffForge.Review.Supersedes
import DeepDiffForge.Review.Export
import DeepDiffForge.Lib.Subsequence
import DeepDiffForge.Lib.Regions
import DeepDiffForge.Review.MutationScope
import DeepDiffForge.Review.MutationDiff
import DeepDiffForge.Review.MutationHunks
import DeepDiffForge.Core.Digest
import DeepDiffForge.Lib.Reads
import DeepDiffForge.Daemon.Framing
import DeepDiffForge.Lib.Runs
import DeepDiffForge.Lib.Matching
import DeepDiffForge.Syntax.Minimal
import DeepDiffForge.Syntax.Moves
import DeepDiffForge.Lib.Sha256
import DeepDiffForge.Core.Sealing
import DeepDiffForge.Core.Standard
import DeepDiffForge.Git.Quoting
import DeepDiffForge.Core.Address
import DeepDiffForge.Patch.Addresses
import DeepDiffForge.Patch.HunkMarks
import DeepDiffForge.Patch.Exactness
import DeepDiffForge.Patch.Veiled
import DeepDiffForge.Patch.Lossless
import DeepDiffForge.Patch.Halves
import DeepDiffForge.Mcp.Envelope
import DeepDiffForge.Mcp.Serving
import DeepDiffForge.Mcp.Tools
import DeepDiffForge.Daemon.Answers
import DeepDiffForge.Lib.Blocks
import DeepDiffForge.Projection.Notes
import DeepDiffForge.Projection.Inline
import DeepDiffForge.Projection.SideBySide
import DeepDiffForge.Projection.Unforged
import DeepDiffForge.Lib.JsonGrammar
import DeepDiffForge.Lib.JsonLines
import DeepDiffForge.Core.Escapes
import DeepDiffForge.Daemon.Cuts
import DeepDiffForge.Agent.Attributed
import DeepDiffForge.Lib.Tables
import DeepDiffForge.Daemon.Selected
import DeepDiffForge.Projection.Pairing
import DeepDiffForge.Lib.Masking
import DeepDiffForge.Graph.Lexical
import DeepDiffForge.Graph.Scanned
import DeepDiffForge.Graph.CodeView
import DeepDiffForge.Graph.Evidence
import DeepDiffForge.Graph.Grown
import DeepDiffForge.Graph.Pointed
import DeepDiffForge.Lib.Parts
import DeepDiffForge.Patch.Quoted
import DeepDiffForge.Graph.Hazarded
import DeepDiffForge.Lib.Choice
import DeepDiffForge.Learning.Score
import DeepDiffForge.Learning.Store
import DeepDiffForge.Lib.Histogram
import DeepDiffForge.Daemon.Metrics
import DeepDiffForge.Lib.Exposition
import DeepDiffForge.Daemon.Exposition
import DeepDiffForge.Daemon.Scrape
import DeepDiffForge.Lib.JsonLayout
import DeepDiffForge.Patch.ReviewJson
import DeepDiffForge.Pipeline.Review
import DeepDiffForge.Patch.HunkHeaders
import DeepDiffForge.Patch.Timestamps
import DeepDiffForge.Daemon.Fitted
import DeepDiffForge.Daemon.ReadBudget
import DeepDiffForge.Pipeline.Attributed
import DeepDiffForge.Pipeline.Regions
import DeepDiffForge.Review.Prompt
import DeepDiffForge.Tui.Notes
import DeepDiffForge.Tui.Highlight
import DeepDiffForge.Lib.Frames
import DeepDiffForge.Core.Snapshot
import DeepDiffForge.Review.Fingerprint
import DeepDiffForge.Lib.Packing
import DeepDiffForge.Projection.Wrap
import DeepDiffForge.Lib.Grouping
import DeepDiffForge.Tui.App
import DeepDiffForge.Tui.Tree
import DeepDiffForge.Tui.Session
import DeepDiffForge.Lib.Windows
import DeepDiffForge.Tui.Paint
import DeepDiffForge.Tui.Rows
import DeepDiffForge.Tui.DiffView
import DeepDiffForge.Tui.DiffWindow
import DeepDiffForge.Lib.Edits
import DeepDiffForge.Pipeline.Replayed
import DeepDiffForge.Pipeline.Verified
import DeepDiffForge.Daemon.Startup
import DeepDiffForge.Daemon.StartHistory
import DeepDiffForge.Lib.Walks
import DeepDiffForge.Review.SealedTree
import DeepDiffForge.Review.SealedCopy
import DeepDiffForge.Review.Council
import DeepDiffForge.Cli.Textfile
