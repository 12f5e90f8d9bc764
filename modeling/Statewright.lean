import Statewright.Text.Ascii
import Statewright.Text.Blank
import Statewright.Text.Utf8
import Statewright.Text.Quoted
import Statewright.Machine.Name
import Statewright.Machine.Edit
import Statewright.Machine.Run
import Statewright.Machine.Script
import Statewright.Language.Command
import Statewright.Language.Reader
import Statewright.Uuid
import Statewright.Instant.Reader
import Statewright.Decimal.Notation
import Statewright.Json.Skip
import Statewright.Json.Decoder
import Statewright.Json.Printer
import Statewright.Snapshot.Binary
import Statewright.Snapshot.Json
import Statewright.Machine.Json
import Statewright.FileTree.Basic
import Statewright.Snapshot.File
import Statewright.Settings.Basic
import Statewright.Session.Run
import Statewright.Session.Recorder
import Statewright.CommandLine
import Statewright.Session.Mention
import Statewright.Main
import Statewright.Proofs.Ascending
import Statewright.Proofs.Names
import Statewright.Proofs.Change
import Statewright.Proofs.WellFormed
import Statewright.Proofs.Rebuild
import Statewright.Proofs.Instant
import Statewright.Proofs.Utf8
import Statewright.Proofs.Binary
import Statewright.Proofs.Spelling
import Statewright.Proofs.BinaryLayout
import Statewright.Proofs.Uuid
import Statewright.Proofs.Json
import Statewright.Proofs.JsonScan
import Statewright.Proofs.JsonSkip
import Statewright.Proofs.JsonExtent
import Statewright.Proofs.JsonSpelling
import Statewright.Proofs.SpelledJson
import Statewright.Proofs.RoundTrip
import Statewright.Proofs.Commands
import Statewright.Proofs.Lines
import Statewright.Proofs.Reader
import Statewright.Proofs.Layout
import Statewright.Proofs.Runs
import Statewright.Proofs.Quiet
import Statewright.Proofs.Script
import Statewright.Proofs.History
import Statewright.Proofs.Restore
import Statewright.Proofs.Failure
import Statewright.Proofs.Joined
import Statewright.Proofs.Moments
import Statewright.Proofs.Steps
import Statewright.Proofs.FileTree
import Statewright.Proofs.Loading
import Statewright.Proofs.Lockstep
import Statewright.Proofs.FileUpdate
import Statewright.Proofs.Saving
import Statewright.Proofs.LogFile
import Statewright.Proofs.Exit
import Statewright.Proofs.Compiled
import Statewright.Proofs.Agenda
import Statewright.Proofs.Boundary
import Statewright.Proofs.Pieces
import Statewright.Proofs.Rewritable
import Statewright.Proofs.Messages
import Statewright.Proofs.Faults
import Statewright.Proofs.Diagnostics
import Statewright.Proofs.LetterCase
import Statewright.Proofs.Traces
import Statewright.Proofs.Extension
import Statewright.Proofs.TransitionLists
import Statewright.Proofs.Capitals
import Statewright.Proofs.AnyCase
import Statewright.Proofs.Splitting
import Statewright.Proofs.Parsing
import Statewright.Proofs.Itemwise
import Statewright.Proofs.Atomic
import Statewright.Proofs.Surroundings
import Statewright.Proofs.Truncation
import Statewright.Proofs.Contents
import Statewright.Proofs.Outcomes
import Statewright.Proofs.EditOrder
import Statewright.Proofs.SettingSources
import Statewright.Proofs.OpenFiles
import Statewright.Proofs.Recording
