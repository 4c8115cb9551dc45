import CloudDrive.Batch
import CloudDrive.Cache.Transaction
import CloudDrive.CommandLine.Arguments
import CloudDrive.CommandLine.ByteSize
import CloudDrive.CommandLine.Layout
import CloudDrive.CommandLine.Run
import CloudDrive.Flight
import CloudDrive.Json.Parser
import CloudDrive.Json.Printer
import CloudDrive.Ledger
import CloudDrive.Main
import CloudDrive.Notice
import CloudDrive.Path.Typed
import CloudDrive.Pointer.Gesture
import CloudDrive.Session.Command
import CloudDrive.Session.Event
import CloudDrive.Store.Fixture
import CloudDrive.Trash
import CloudDrive.View
import CloudDrive.Wire.Calls
import CloudDrive.Wire.Entries
import CloudDrive.Wire.Operations
import CloudDrive.Wire.Settings
import CloudDrive.Wire.Views
import CloudDrive.Proofs.Batch.Accounting
import CloudDrive.Proofs.Batch.Partition
import CloudDrive.Proofs.Cache.Mirror
import CloudDrive.Proofs.Cache.Names
import CloudDrive.Proofs.Cache.Outcome
import CloudDrive.Proofs.Cache.Patch
import CloudDrive.Proofs.Cache.Rollback
import CloudDrive.Proofs.Cache.Scope
import CloudDrive.Proofs.Cache.TakeBack
import CloudDrive.Proofs.Cache.WellFormed
import CloudDrive.Proofs.Course
import CloudDrive.Proofs.Crowd
import CloudDrive.Proofs.Distinct
import CloudDrive.Proofs.Flight
import CloudDrive.Proofs.Json.Tagged
import CloudDrive.Proofs.Ledger
import CloudDrive.Proofs.Ledger.LifeCycle
import CloudDrive.Proofs.Ledger.Order
import CloudDrive.Proofs.Path.Breadcrumbs
import CloudDrive.Proofs.Path.Canonical
import CloudDrive.Proofs.Path.Components
import CloudDrive.Proofs.Path.Siblings
import CloudDrive.Proofs.Path.Spelling
import CloudDrive.Proofs.Path.Typed
import CloudDrive.Proofs.Pointer.Traces
import CloudDrive.Proofs.Program
import CloudDrive.Proofs.Relocation
import CloudDrive.Proofs.Remote.Attempts
import CloudDrive.Proofs.Remote.Backoff
import CloudDrive.Proofs.Rules
import CloudDrive.Proofs.Selection.Bounds
import CloudDrive.Proofs.Selection.Ranges
import CloudDrive.Proofs.Session.Accepted
import CloudDrive.Proofs.Session.Anchor
import CloudDrive.Proofs.Session.Arrivals
import CloudDrive.Proofs.Session.Attempts
import CloudDrive.Proofs.Session.Batch
import CloudDrive.Proofs.Session.Changes
import CloudDrive.Proofs.Session.Clicks
import CloudDrive.Proofs.Session.Coherence
import CloudDrive.Proofs.Session.Drops
import CloudDrive.Proofs.Session.Duty
import CloudDrive.Proofs.Session.Endings
import CloudDrive.Proofs.Session.Held
import CloudDrive.Proofs.Session.Hidden
import CloudDrive.Proofs.Session.InView
import CloudDrive.Proofs.Session.Loads
import CloudDrive.Proofs.Session.Names
import CloudDrive.Proofs.Session.Narrowing
import CloudDrive.Proofs.Session.Newest
import CloudDrive.Proofs.Session.Plan
import CloudDrive.Proofs.Session.Pruning
import CloudDrive.Proofs.Session.Recent
import CloudDrive.Proofs.Session.Refetch
import CloudDrive.Proofs.Session.Refused
import CloudDrive.Proofs.Session.Reports
import CloudDrive.Proofs.Session.Reserved
import CloudDrive.Proofs.Session.Reset
import CloudDrive.Proofs.Session.Retries
import CloudDrive.Proofs.Session.Run
import CloudDrive.Proofs.Session.Scene
import CloudDrive.Proofs.Session.Shape
import CloudDrive.Proofs.Session.Slips
import CloudDrive.Proofs.Session.Sound
import CloudDrive.Proofs.Session.TaskRuns
import CloudDrive.Proofs.Session.Tracks
import CloudDrive.Proofs.Session.Turns
import CloudDrive.Proofs.Store.Calls
import CloudDrive.Proofs.Store.Effects
import CloudDrive.Proofs.Store.Fixture
import CloudDrive.Proofs.Store.Moves
import CloudDrive.Proofs.Store.Prediction
import CloudDrive.Proofs.Store.Restore
import CloudDrive.Proofs.Store.Tree
import CloudDrive.Proofs.Store.Undo
import CloudDrive.Proofs.Text.Sigma
import CloudDrive.Proofs.Trash
import CloudDrive.Proofs.View.Search
import CloudDrive.Proofs.View.Sequence
import CloudDrive.Proofs.Wire.Faithful
