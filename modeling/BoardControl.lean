import BoardControl.Ticks.Clock
import BoardControl.Voltage.Sampling
import BoardControl.Rail.Switched
import BoardControl.Reset.Line
import BoardControl.Scheduler.Periodic
import BoardControl.Ring.Content
import BoardControl.Bitstream.Updater
import BoardControl.Boot.Decision
import BoardControl.Bench.Units
import BoardControl.Proofs.Bitstream.Watched
import BoardControl.Proofs.Bitstream.Token
import BoardControl.Proofs.Bitstream.Programming
import BoardControl.Proofs.Bitstream.Preparation
import BoardControl.Proofs.Bitstream.Session
import BoardControl.Proofs.Bitstream.Simulation
import BoardControl.Proofs.Bitstream.ParserStep
import BoardControl.Proofs.Bitstream.BodyStep
import BoardControl.Proofs.Bitstream.Delivery
import BoardControl.Proofs.Bitstream.Chip
import BoardControl.Proofs.Bitstream.Format
import BoardControl.Proofs.Bitstream.Parsed
import BoardControl.Proofs.Bitstream.Calls
import BoardControl.Proofs.Bitstream.Reading
import BoardControl.Proofs.Bitstream.Faithful
import BoardControl.Proofs.Bitstream.WholeFile
import BoardControl.Proofs.Bitstream.Chunking
import BoardControl.Proofs.Bitstream.Conservation
import BoardControl.Proofs.Bitstream.Acceptance
import BoardControl.Proofs.Bitstream.FlashPhases
import BoardControl.Proofs.Bitstream.Gates
import BoardControl.Proofs.Bitstream.Guarded
import BoardControl.Proofs.Bitstream.Lifetime
import BoardControl.Proofs.Bitstream.Reopened
import BoardControl.Proofs.Mirrors
import BoardControl.Proofs.Recorded
import BoardControl.Proofs.Supervisor.Trace
import BoardControl.Proofs.Supervisor.Walks
import BoardControl.Proofs.Supervisor.Orderly
import BoardControl.Proofs.Supervisor.Operations
import BoardControl.Proofs.Supervisor.Mirror
import BoardControl.Proofs.Supervisor.Erasure
import BoardControl.Proofs.Supervisor.Safety
import BoardControl.Proofs.Supervisor.Chain
import BoardControl.Proofs.Supervisor.Cursor
import BoardControl.Proofs.Supervisor.Upkeep
import BoardControl.Proofs.Scheduler.Timeline
import BoardControl.Proofs.Scheduler.Seat
import BoardControl.Proofs.Scheduler.Journal
import BoardControl.Proofs.Scheduler.PassOrder
import BoardControl.Proofs.Scheduler.SettleTime
import BoardControl.Proofs.Scheduler.Drift
import BoardControl.Proofs.Boot.Bootloop
import BoardControl.Proofs.Boot.DecisionTable
import BoardControl.Proofs.Boot.History
import BoardControl.Proofs.Supervisor.Indices
import BoardControl.Proofs.Supervisor.Observed
import BoardControl.Proofs.Supervisor.Monitoring
import BoardControl.Proofs.Scheduler.TimerPass
import BoardControl.Proofs.Scheduler.Tables
import BoardControl.Proofs.Ring.Slices
import BoardControl.Proofs.Ring.Fifo
import BoardControl.Proofs.Bitstream.Buffers
import BoardControl.Proofs.Bitstream.Contained
import BoardControl.Proofs.Bitstream.Quiescence
import BoardControl.Proofs.Bitstream.SessionLaw
import BoardControl.Proofs.Bitstream.Confined
import BoardControl.Proofs.Bitstream.Identified
import BoardControl.Proofs.Journal
import BoardControl.Proofs.Supervisor.Wired
import BoardControl.Proofs.Supervisor.Blind
import BoardControl.Proofs.Supervisor.LogLevel
import BoardControl.Proofs.Scheduler.IdealTimer
import BoardControl.Proofs.Supervisor.Overheard
import BoardControl.Proofs.Supervisor.ResetPass
import BoardControl.Proofs.Supervisor.Vouched
import BoardControl.Proofs.Supervisor.Convergence
import BoardControl.Proofs.Supervisor.Restart
import BoardControl.Proofs.Supervisor.Probed
import BoardControl.Proofs.Supervisor.Shutdown
import BoardControl.Proofs.Bitstream.FirstFault
import BoardControl.Proofs.Bitstream.Ledger
import BoardControl.Proofs.Bitstream.VerifiedPages
import BoardControl.Proofs.Scheduler.Registration
import BoardControl.Proofs.Rail.BringUp
import BoardControl.Proofs.Reset.Delay
import BoardControl.Proofs.Voltage.Scaling
import BoardControl.Proofs.Bitstream.HeaderWords
import BoardControl.Proofs.Bitstream.SyncSearch
import BoardControl.Proofs.Bitstream.Capacity
import BoardControl.Proofs.Ticks.Restarts
import BoardControl.Proofs.Voltage.Window
