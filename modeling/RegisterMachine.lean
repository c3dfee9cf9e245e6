import RegisterMachine.Main
import RegisterMachine.Machine.Session
import RegisterMachine.Proofs.Program.FirstFault
import RegisterMachine.Proofs.Program.Spelling
import RegisterMachine.Proofs.Program.Concatenation
import RegisterMachine.Proofs.Program.InstrViews
import RegisterMachine.Proofs.Effect
import RegisterMachine.Proofs.Messages
import RegisterMachine.Proofs.Emission
import RegisterMachine.Proofs.Emission.Bounded
import RegisterMachine.Proofs.RegisterFile.Writes
import RegisterMachine.Proofs.Machine.Attempts
import RegisterMachine.Proofs.Machine.Reference
import RegisterMachine.Proofs.Machine.Runs
import RegisterMachine.Proofs.Machine.Sessions
import RegisterMachine.Proofs.Machine.Flushing
import RegisterMachine.Proofs.Machine.Output
import RegisterMachine.Proofs.Machine.SinkIndependence
import RegisterMachine.Proofs.Machine.Failure
import RegisterMachine.Proofs.Machine.HiddenRegisters
import RegisterMachine.Proofs.Machine.LimitedCapacity
import RegisterMachine.Proofs.Machine.Concatenation
import RegisterMachine.Proofs.Machine.Events
import RegisterMachine.Proofs.Machine.Accounting
import RegisterMachine.Proofs.Machine.Arithmetic
import RegisterMachine.Proofs.Machine.Iteration
import RegisterMachine.Proofs.Machine.ForwardJumps
import RegisterMachine.Proofs.Machine.Recurrence
import RegisterMachine.Proofs.Machine.Undoing
import RegisterMachine.Proofs.Machine.CountedLoop
import RegisterMachine.Proofs.Machine.Renaming
import RegisterMachine.Proofs.Launch
import RegisterMachine.Proofs.Launch.EntryPoints
import RegisterMachine.Proofs.CommandLine.Arguments
import RegisterMachine.Proofs.CommandLine.Documented
import RegisterMachine.Proofs.CommandLine.Plain
import RegisterMachine.Proofs.CommandLine.Sides
import RegisterMachine.Proofs.CommandLine.Status
import RegisterMachine.Proofs.CommandLine.Log
import RegisterMachine.Proofs.CommandLine.Diagnostics
