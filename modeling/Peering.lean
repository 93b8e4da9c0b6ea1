import Peering.Duration
import Peering.Event
import Peering.FaultSwitch
import Peering.PeerArgument
import Peering.Registry
import Peering.RunningConfig
import Peering.Effect
import Peering.Engine.Basic
import Peering.Engine.Change
import Peering.Engine.Reading
import Peering.Monitor
import Peering.Engine.Call
import Peering.Table
import Peering.Schedule.Free
import Peering.Schedule.Stepped
import Peering.Schedule.Timed
import Peering.Text.Utf8
import Peering.Yaml.Block
import Peering.Yaml.Plain
import Peering.Yaml.Lexer
import Peering.Yaml.Scalar
import Peering.Yaml.Document
import Peering.Settings.Basic
import Peering.Settings.Document
import Peering.Folder
import Peering.Folder.Making
import Peering.Settings.File
import Peering.Simulation
import Peering.CommandLine.Arguments
import Peering.CommandLine.Run
import Peering.Main
import Peering.Yaml.Binary
import Peering.Yaml.Moment
import Peering.Value.Copy
import Peering.Proofs.Validation
import Peering.Proofs.Copies
import Peering.Proofs.Registrations
import Peering.Proofs.Turns
import Peering.Proofs.Requests
import Peering.Proofs.Steps
import Peering.Proofs.Invariant
import Peering.Proofs.Succession
import Peering.Proofs.LiveWrites
import Peering.Proofs.Tables
import Peering.Proofs.Course
import Peering.Proofs.History
import Peering.Proofs.Reference
import Peering.Proofs.Refinement
import Peering.Proofs.Verdicts
import Peering.Proofs.Edits
import Peering.Proofs.Selection
import Peering.Proofs.Likeness
import Peering.Proofs.Restriction
import Peering.Proofs.Parallel
import Peering.Proofs.Projection
import Peering.Proofs.Isolation
import Peering.Proofs.Erasure
import Peering.Proofs.Episode
import Peering.Proofs.Accounts
import Peering.Proofs.Sessions
import Peering.Proofs.Standing
import Peering.Proofs.Walks
import Peering.Proofs.Attendance
import Peering.Proofs.Traces
import Peering.Proofs.Pacing
import Peering.Proofs.Orphans
import Peering.Proofs.Notices
import Peering.Proofs.Transparency
import Peering.Proofs.Readings
import Peering.Proofs.TextKeys
import Peering.Proofs.Changes
import Peering.Proofs.Monitoring
import Peering.Proofs.Directions
import Peering.Proofs.Failures
import Peering.Proofs.ClockOrder
import Peering.Proofs.Timestamps
import Peering.Proofs.Closing
import Peering.Proofs.Admission
import Peering.Proofs.TimerHeap
import Peering.Proofs.ClockSums
import Peering.Proofs.Rounds
import Peering.Proofs.Cohort
import Peering.Proofs.Marching
import Peering.Proofs.Halting
import Peering.Proofs.Seeding
import Peering.Proofs.Simulations
import Peering.Proofs.Differences
import Peering.Proofs.Footprints
import Peering.Proofs.Counting
import Peering.Proofs.Dates
import Peering.Proofs.Answers
import Peering.Proofs.Runs
import Peering.Proofs.Durations
import Peering.Proofs.IntegerLiterals
import Peering.Proofs.PeerArguments
import Peering.Proofs.RenderedLines
import Peering.Proofs.RenderedText
import Peering.Proofs.MappingKeys
import Peering.Proofs.DocumentParts
import Peering.Proofs.ShownValues
import Peering.Proofs.Documents
import Peering.Proofs.DocumentShapes
import Peering.Proofs.FieldChecks
import Peering.Proofs.PeerMappings
import Peering.Proofs.LevelNames
import Peering.Proofs.DoubleNumbers
import Peering.Proofs.Fitness
import Peering.Proofs.Progress
