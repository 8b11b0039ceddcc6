import WordMachine.Access
import WordMachine.Amplifier.Pipeline
import WordMachine.Amplifier.Ring
import WordMachine.Amplifier.Settings
import WordMachine.Channel
import WordMachine.Channel.Fifo
import WordMachine.Channel.Link
import WordMachine.Channel.Source
import WordMachine.CommandLine
import WordMachine.CommandLine.Arguments
import WordMachine.CommandLine.Command
import WordMachine.CommandLine.Files
import WordMachine.CommandLine.Session
import WordMachine.Debugger
import WordMachine.Debugger.MemoryPane
import WordMachine.Debugger.OutputPane
import WordMachine.Debugger.Pane
import WordMachine.Debugger.ProgramPane
import WordMachine.Debugger.RegistersPane
import WordMachine.Debugger.StatusBar
import WordMachine.Debugger.Theme
import WordMachine.Disassembly
import WordMachine.Duration
import WordMachine.Failure
import WordMachine.Fault
import WordMachine.History
import WordMachine.Instruction
import WordMachine.Journal
import WordMachine.Journal.Filter
import WordMachine.Listing
import WordMachine.Machine
import WordMachine.Machine.Run
import WordMachine.Main
import WordMachine.Memory
import WordMachine.Memory.Sparse
import WordMachine.Network
import WordMachine.Network.Monitor
import WordMachine.Network.Node
import WordMachine.Output
import WordMachine.Program
import WordMachine.Proofs.AddressRange
import WordMachine.Proofs.BestOrder
import WordMachine.Proofs.Contract
import WordMachine.Proofs.Coverage
import WordMachine.Proofs.Cursor
import WordMachine.Proofs.Decoding
import WordMachine.Proofs.Footprint
import WordMachine.Proofs.Grammar
import WordMachine.Proofs.Ideal
import WordMachine.Proofs.Intake
import WordMachine.Proofs.Interchange
import WordMachine.Proofs.KeptFaults
import WordMachine.Proofs.Lifecycle
import WordMachine.Proofs.LiveMachine
import WordMachine.Proofs.Network.Budget
import WordMachine.Proofs.Network.Conservation
import WordMachine.Proofs.Network.Containment
import WordMachine.Proofs.Network.Convergence
import WordMachine.Proofs.Network.Delivery
import WordMachine.Proofs.Network.Idle
import WordMachine.Proofs.Network.Log
import WordMachine.Proofs.Network.Operations
import WordMachine.Proofs.Network.Recall
import WordMachine.Proofs.Network.Ways
import WordMachine.Proofs.Orderings
import WordMachine.Proofs.OutputText
import WordMachine.Proofs.Overlap
import WordMachine.Proofs.Pieces
import WordMachine.Proofs.ProgramPane
import WordMachine.Proofs.Readings
import WordMachine.Proofs.Recording
import WordMachine.Proofs.RecordingEnd
import WordMachine.Proofs.Refinement
import WordMachine.Proofs.RelativeAccess
import WordMachine.Proofs.Ring.Dataflow
import WordMachine.Proofs.Ring.Deadlock
import WordMachine.Proofs.Ring.Determinacy
import WordMachine.Proofs.Ring.Pipeline
import WordMachine.Proofs.Ring.Relay
import WordMachine.Proofs.Ring.Simulation
import WordMachine.Proofs.Ring.Verdict
import WordMachine.Proofs.Schedule
import WordMachine.Proofs.Screen
import WordMachine.Proofs.StepLimit
import WordMachine.Proofs.Storage
import WordMachine.Proofs.Timeline
import WordMachine.Proofs.Transition
import WordMachine.Proofs.Unambiguous
import WordMachine.Proofs.Views
import WordMachine.Recorder
import WordMachine.Screen
import WordMachine.Screen.Style
import WordMachine.Text.Blank
import WordMachine.Text.Column
import WordMachine.Text.Numeral
import WordMachine.Text.Printable
import WordMachine.Text.Quoted
import WordMachine.Text.Record
import WordMachine.Turn
import WordMachine.Word
