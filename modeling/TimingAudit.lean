import TimingAudit.Bench
import TimingAudit.Bench.Simulated
import TimingAudit.Branching
import TimingAudit.ByteSink
import TimingAudit.ClassQueue
import TimingAudit.CommandLine.Argument
import TimingAudit.CommandLine.Reader
import TimingAudit.CommandLine.Usage
import TimingAudit.Console
import TimingAudit.Console.Simulated
import TimingAudit.Dataset
import TimingAudit.Disk
import TimingAudit.Draw
import TimingAudit.Failure
import TimingAudit.Grid.Basic
import TimingAudit.Grid.Converge
import TimingAudit.InputClass
import TimingAudit.Main
import TimingAudit.Options
import TimingAudit.Program
import TimingAudit.Random.ByteCycle
import TimingAudit.Random.ChaCha
import TimingAudit.Random.Keystream
import TimingAudit.Random.Source
import TimingAudit.Report.Delivery
import TimingAudit.Report.Table
import TimingAudit.ResultLog
import TimingAudit.Run
import TimingAudit.Session
import TimingAudit.Summary
import TimingAudit.Text.Blank
import TimingAudit.Text.Number
import TimingAudit.Text.Pieces
import TimingAudit.Proofs.Bench.Trace
import TimingAudit.Proofs.BoundedWriter
import TimingAudit.Proofs.ClassQueue
import TimingAudit.Proofs.ClassQueue.Grammar
import TimingAudit.Proofs.CommandLine.Items
import TimingAudit.Proofs.CommandLine.RoundTrip
import TimingAudit.Proofs.CommandLine.Values
import TimingAudit.Proofs.Disk
import TimingAudit.Proofs.Draw
import TimingAudit.Proofs.Draw.Consumption
import TimingAudit.Proofs.Draw.Fairness
import TimingAudit.Proofs.Grid.AtRest
import TimingAudit.Proofs.Grid.EarlyExit
import TimingAudit.Proofs.Grid.Frame
import TimingAudit.Proofs.Grid.InPlace
import TimingAudit.Proofs.Grid.Layout
import TimingAudit.Proofs.Grid.Ledger
import TimingAudit.Proofs.Grid.Matrix
import TimingAudit.Proofs.Grid.Measured
import TimingAudit.Proofs.Grid.Noise
import TimingAudit.Proofs.Grid.Order
import TimingAudit.Proofs.Grid.Passes
import TimingAudit.Proofs.Grid.Reachable
import TimingAudit.Proofs.Grid.Resume
import TimingAudit.Proofs.Grid.Steady
import TimingAudit.Proofs.Lockstep
import TimingAudit.Proofs.Outcome
import TimingAudit.Proofs.Report.Decoding
import TimingAudit.Proofs.Report.Delivery
import TimingAudit.Proofs.Report.Framing
import TimingAudit.Proofs.Report.Reading
import TimingAudit.Proofs.Report.Schema
import TimingAudit.Proofs.Report.Sections
import TimingAudit.Proofs.ResultLog.Blocks
import TimingAudit.Proofs.ResultLog.Calls
import TimingAudit.Proofs.ResultLog.Closed
import TimingAudit.Proofs.ResultLog.Reading
import TimingAudit.Proofs.Run
import TimingAudit.Proofs.Run.ByRule
import TimingAudit.Proofs.Run.ClockShift
import TimingAudit.Proofs.Run.Inputs
import TimingAudit.Proofs.Run.Mixed
import TimingAudit.Proofs.Run.Refusal
import TimingAudit.Proofs.Run.Requests
import TimingAudit.Proofs.Session.Draws
import TimingAudit.Proofs.Session.Events
import TimingAudit.Proofs.Session.Kept
import TimingAudit.Proofs.Session.Lockstep
import TimingAudit.Proofs.Session.Sinks
import TimingAudit.Proofs.Session.Steps
import TimingAudit.Proofs.Summary
import TimingAudit.Proofs.Text
import TimingAudit.Proofs.Text.Numeral
import TimingAudit.Proofs.Text.Runs
import TimingAudit.Proofs.Draw.Choice
