import Restoration.Main
import Restoration.Permits
import Restoration.Proofs.Frames.Balance
import Restoration.Proofs.Frames.Chunking
import Restoration.Proofs.Frames.Layout
import Restoration.Proofs.Frames.Listing
import Restoration.Proofs.Frames.Partition
import Restoration.Proofs.Frames.Resumption
import Restoration.Proofs.Graph.Acceleration
import Restoration.Proofs.Graph.Completion
import Restoration.Proofs.Graph.Formats
import Restoration.Proofs.Graph.Walk
import Restoration.Proofs.Stage.Calls
import Restoration.Script.Probe
import Restoration.Script.Restriction
import Restoration.Proofs.Graph.Conversions
import Restoration.Proofs.Stage.Matrix
import Restoration.Proofs.Graph.Matrix
import Restoration.Proofs.Graph.Faults
import Restoration.Proofs.Graph.Reading
import Restoration.Proofs.Graph.Restriction
import Restoration.Proofs.FileTree.Distinct
import Restoration.Proofs.FileTree.Join
import Restoration.Proofs.Tools.Record
import Restoration.Proofs.Job.Path
import Restoration.Proofs.Survey
import Restoration.Proofs.Survey.Again
import Restoration.Proofs.Survey.Deletions
import Restoration.Proofs.Encoding.Chunks
import Restoration.Proofs.Encoding.Course
import Restoration.Proofs.Encoding.Joining
import Restoration.Proofs.Encoding.Watching
import Restoration.Proofs.Graph.Sizes
import Restoration.Proofs.Tools.Sound
import Restoration.Proofs.Encoding.Status
import Restoration.Encoding.Crew
import Restoration.Proofs.Encoding.Crew
import Restoration.Proofs.Encoding.Interleaving
import Restoration.Queue.Slots
import Restoration.Proofs.Queue.Slots
import Restoration.Queue.Clients
import Restoration.Proofs.Queue.Indices
import Restoration.Proofs.Job.Names
import Restoration.Proofs.FileTree.Making
import Restoration.Proofs.Job.Owned
import Restoration.Proofs.Encoding.Clearing
import Restoration.Proofs.Decimal.Rounding
import Restoration.Proofs.Decimal.Shortest
import Restoration.Proofs.Json.Number
import Restoration.Proofs.Json.Quoted
import Restoration.Proofs.Json.Tree
import Restoration.Proofs.Json.Reading
import Restoration.Proofs.Job.Record
import Restoration.Proofs.Job.FrameSize
import Restoration.Proofs.CommandLine.Act
import Restoration.Proofs.CommandLine.Cleaning
import Restoration.Proofs.CommandLine.FirstScript
import Restoration.Proofs.Graph.Precedence
import Restoration.Proofs.Graph.Stabilizing
import Restoration.Proofs.Script.Unbroken
import Restoration.Proofs.Script.Lines
import Restoration.Proofs.Script.Rereading
import Restoration.Proofs.Script.Spacing
import Restoration.Proofs.Encoding.Credit
import Restoration.Proofs.Encoding.Scripts
import Restoration.Proofs.Script.Tidying
import Restoration.Proofs.Job.Fragments
import Restoration.Proofs.FileTree.Regular
import Restoration.Proofs.Encoding.Leftovers
import Restoration.Proofs.Survey.Coverage
import Restoration.Proofs.Encoding.Incomplete
import Restoration.Proofs.Frames.Words
import Restoration.Proofs.Tools.ConcatList
import Restoration.Proofs.CommandLine.NewJob
import Restoration.Proofs.CommandLine.Reopening
import Restoration.Proofs.FrameRate
import Restoration.Proofs.Removal
import Restoration.Proofs.Script.Separation
