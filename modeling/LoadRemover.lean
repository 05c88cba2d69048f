import LoadRemover.Action
import LoadRemover.Arguments
import LoadRemover.Build
import LoadRemover.Bytes
import LoadRemover.Code.Buffer
import LoadRemover.Code.Instruction
import LoadRemover.Code.Relocation
import LoadRemover.Config
import LoadRemover.Diagnostic
import LoadRemover.Display
import LoadRemover.Engine
import LoadRemover.Failure
import LoadRemover.Folder
import LoadRemover.Head
import LoadRemover.Hex
import LoadRemover.Install
import LoadRemover.Json.Number
import LoadRemover.Json.Scan
import LoadRemover.Locate
import LoadRemover.Log.Filter
import LoadRemover.Log.Record
import LoadRemover.Main
import LoadRemover.Preamble
import LoadRemover.Program
import LoadRemover.Proofs.Bystanders
import LoadRemover.Proofs.Calls
import LoadRemover.Proofs.Contents
import LoadRemover.Proofs.Corrections
import LoadRemover.Proofs.Custody
import LoadRemover.Proofs.Decoding
import LoadRemover.Proofs.Deeds
import LoadRemover.Proofs.Durations
import LoadRemover.Proofs.Erasing
import LoadRemover.Proofs.Events
import LoadRemover.Proofs.Examining
import LoadRemover.Proofs.Execution
import LoadRemover.Proofs.Failures
import LoadRemover.Proofs.Fields
import LoadRemover.Proofs.Finding
import LoadRemover.Proofs.Following
import LoadRemover.Proofs.Footprints
import LoadRemover.Proofs.Forwarding
import LoadRemover.Proofs.Handles
import LoadRemover.Proofs.Hook
import LoadRemover.Proofs.Images
import LoadRemover.Proofs.Installing
import LoadRemover.Proofs.Journal
import LoadRemover.Proofs.Layout
import LoadRemover.Proofs.Ledger
import LoadRemover.Proofs.Leftovers
import LoadRemover.Proofs.Listing
import LoadRemover.Proofs.Merging
import LoadRemover.Proofs.Moving
import LoadRemover.Proofs.Naming
import LoadRemover.Proofs.Nesting
import LoadRemover.Proofs.Occupied
import LoadRemover.Proofs.Ownership
import LoadRemover.Proofs.Pairing
import LoadRemover.Proofs.Patching
import LoadRemover.Proofs.Patrols
import LoadRemover.Proofs.Preambles
import LoadRemover.Proofs.Protecting
import LoadRemover.Proofs.Readings
import LoadRemover.Proofs.Recording
import LoadRemover.Proofs.Redirects
import LoadRemover.Proofs.Refusals
import LoadRemover.Proofs.Regions
import LoadRemover.Proofs.Remembering
import LoadRemover.Proofs.Runs
import LoadRemover.Proofs.Safety
import LoadRemover.Proofs.Scanning
import LoadRemover.Proofs.Settling
import LoadRemover.Proofs.Shadows
import LoadRemover.Proofs.Sweeps
import LoadRemover.Proofs.Tiling
import LoadRemover.Proofs.Timing
import LoadRemover.Proofs.Tracking
import LoadRemover.Proofs.Transparency
import LoadRemover.Proofs.Triple
import LoadRemover.Proofs.Unwinding
import LoadRemover.Proofs.Views
import LoadRemover.Proofs.Visits
import LoadRemover.Proofs.Writing
import LoadRemover.Schedule
import LoadRemover.Session
import LoadRemover.Settings
import LoadRemover.Signal
import LoadRemover.Site
import LoadRemover.StopSignal
import LoadRemover.Target.Faults
import LoadRemover.Target.InMemory
import LoadRemover.Target.Platform
import LoadRemover.Target.Region
import LoadRemover.Target.Unsupported
import LoadRemover.Text.Blank
import LoadRemover.Text.Clock
import LoadRemover.Text.Decimal
import LoadRemover.Text.Utf16
import LoadRemover.Timer
import LoadRemover.Toml.Document
import LoadRemover.Toml.Scalar
import LoadRemover.Toml.Table
import LoadRemover.Toml.Text
import LoadRemover.Watcher
import LoadRemover.Windows.Api
import LoadRemover.Windows.Platform
import LoadRemover.Windows.Simulation
import LoadRemover.X86.Machine
import LoadRemover.X86.Operation
