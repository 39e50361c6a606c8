import Foreman.Audit
import Foreman.Config.Basic
import Foreman.Config.DotEnv
import Foreman.Config.Environment
import Foreman.Config.Reader
import Foreman.Decimal.Binary
import Foreman.Decimal.Literal
import Foreman.Decimal.Power
import Foreman.Decimal.Shortest
import Foreman.Engine.Attempt
import Foreman.Engine.Blueprint
import Foreman.Engine.Direct
import Foreman.Engine.Dispatch
import Foreman.Engine.Move
import Foreman.Engine.Service
import Foreman.Engine.State
import Foreman.Engine.Tally
import Foreman.Engine.Timeline
import Foreman.Engine.Upkeep
import Foreman.Fault
import Foreman.Files.Path
import Foreman.Files.Tree
import Foreman.Gate.Basic
import Foreman.Gate.Line
import Foreman.Gate.Session
import Foreman.Job.Basic
import Foreman.Job.Identity
import Foreman.Job.Status
import Foreman.Json.Canonical
import Foreman.Json.Printer
import Foreman.Json.Reader
import Foreman.Json.Record
import Foreman.Json.Shape
import Foreman.Json.Value
import Foreman.Ledger.Basic
import Foreman.Ledger.Life
import Foreman.Proofs.Engine.Account
import Foreman.Proofs.Engine.Annals
import Foreman.Proofs.Engine.Attempt
import Foreman.Proofs.Engine.Balance
import Foreman.Proofs.Engine.Budget
import Foreman.Proofs.Engine.Conduct
import Foreman.Proofs.Engine.Conservation
import Foreman.Proofs.Engine.Custody
import Foreman.Proofs.Engine.Dispatchable
import Foreman.Proofs.Engine.Ending
import Foreman.Proofs.Engine.Fidelity
import Foreman.Proofs.Engine.Frames
import Foreman.Proofs.Engine.Leaks
import Foreman.Proofs.Engine.Life
import Foreman.Proofs.Engine.Loans
import Foreman.Proofs.Engine.Names
import Foreman.Proofs.Engine.Protection
import Foreman.Proofs.Engine.Shape
import Foreman.Proofs.Engine.Stranded
import Foreman.Proofs.Files.Walk
import Foreman.Proofs.Gate.Interleaving
import Foreman.Proofs.Gate.Settling
import Foreman.Proofs.Gate.Slots
import Foreman.Proofs.Gate.Wakeups
import Foreman.Proofs.Keyed
import Foreman.Proofs.Ledger.Record
import Foreman.Proofs.Queue.Index
import Foreman.Proofs.Queue.Order
import Foreman.Proofs.Queue.Roster
import Foreman.Proofs.Registry
import Foreman.Proofs.Retention
import Foreman.Proofs.Since
import Foreman.Queue.Basic
import Foreman.Queue.Indexed
import Foreman.Rate.Bucket
import Foreman.Rate.Limiter
import Foreman.Rate.Quantity
import Foreman.Record.Job
import Foreman.Record.Report
import Foreman.Registry
import Foreman.Retention
import Foreman.Span
import Foreman.Text.Blank
import Foreman.Text.Digit
import Foreman.Text.Hidden
import Foreman.Text.Integer
import Foreman.Text.Quoted
import Foreman.Text.Real
import Foreman.Text.Word
import Foreman.Volume
import Foreman.Proofs.Engine.Filing
import Foreman.Proofs.Ledger.History
import Foreman.Proofs.Ledger.Standing
import Foreman.Proofs.Ledger.Frozen
import Foreman.Proofs.Rate.Refill
import Foreman.Proofs.Rate.Callers
import Foreman.Proofs.Gate.Book
import Foreman.Proofs.Gate.Accounting
import Foreman.Proofs.Audit
import Foreman.Proofs.Engine.Reports
import Foreman.Proofs.Engine.Bookkeeping
import Foreman.Proofs.Engine.Sharing
import Foreman.Proofs.Engine.Turns
import Foreman.Proofs.Engine.Interleavings
import Foreman.Proofs.Engine.Statistics
import Foreman.Proofs.Engine.Spoiling
import Foreman.Engine.Crew
import Foreman.Proofs.Queue.Service
import Foreman.Proofs.Queue.Turns
import Foreman.Proofs.Rate.Envelope
import Foreman.Proofs.Engine.Crew
import Foreman.Proofs.Engine.Timing
import Foreman.Proofs.Engine.Site
import Foreman.Proofs.Engine.Agreement
import Foreman.Proofs.Engine.Queueing
import Foreman.Proofs.Engine.Tenure
import Foreman.Proofs.Engine.Restart
import Foreman.Proofs.Rate.Waiting
import Foreman.Proofs.Rate.Rewinds
import Foreman.Proofs.Engine.Deeds
import Foreman.Proofs.Engine.Refusals
import Foreman.Proofs.Engine.Withdrawal
import Foreman.Ledger.Eviction
import Foreman.Proofs.Ledger.Eviction
import Foreman.Proofs.Engine.Aside
import Foreman.Proofs.Engine.Lineup
import Foreman.Proofs.Engine.Submission
import Foreman.Proofs.Engine.Attendance
import Foreman.Proofs.Sweeping
import Foreman.Proofs.Engine.DirectRuns
import Foreman.Ledger.InPlace
import Foreman.Proofs.Ledger.Listing
import Foreman.Proofs.Ledger.Locality
import Foreman.Proofs.Engine.Errands
import Foreman.Proofs.Engine.Places
import Foreman.Proofs.Engine.Bursts
import Foreman.Proofs.Files.Spelling
import Foreman.Proofs.Claiming
import Foreman.Proofs.Engine.Upkeep
import Foreman.Proofs.Gate.Endings
import Foreman.Proofs.Json.Fields
import Foreman.Proofs.Config.Overlay
import Foreman.Proofs.Identity
import Foreman.Proofs.Json.Nesting
import Foreman.Proofs.Json.Printed
import Foreman.Proofs.Records
