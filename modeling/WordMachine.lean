import WordMachine.Assembly.File
import WordMachine.Assembly.Operand
import WordMachine.Assembly.Program
import WordMachine.Assembly.Token
import WordMachine.Binary64
import WordMachine.Channel
import WordMachine.CommandLine.Execution
import WordMachine.CommandLine.Grammar
import WordMachine.CommandLine.Request
import WordMachine.CommandLine.Usage
import WordMachine.Computer.Basic
import WordMachine.Computer.Report
import WordMachine.Device.Console
import WordMachine.Device.Exchange
import WordMachine.Device.Monitor
import WordMachine.Device.Select
import WordMachine.Device.Sink
import WordMachine.Engine.Basic
import WordMachine.Engine.Narration
import WordMachine.Engine.Report
import WordMachine.Engine.Run
import WordMachine.Fault
import WordMachine.FileStore
import WordMachine.Flags
import WordMachine.Instruction.Basic
import WordMachine.Instruction.Builder
import WordMachine.Instruction.Codec
import WordMachine.Instruction.Disassembly
import WordMachine.Log
import WordMachine.Main
import WordMachine.Memory
import WordMachine.Message
import WordMachine.Processor
import WordMachine.Proofs.Assembly.Comment
import WordMachine.Proofs.Assembly.Failure
import WordMachine.Proofs.Assembly.File
import WordMachine.Proofs.Assembly.Joining
import WordMachine.Proofs.Assembly.Layout
import WordMachine.Proofs.Assembly.Line
import WordMachine.Proofs.Assembly.Listing
import WordMachine.Proofs.Assembly.Margin
import WordMachine.Proofs.Assembly.Notation
import WordMachine.Proofs.Assembly.NumberToken
import WordMachine.Proofs.Assembly.Numeral
import WordMachine.Proofs.Assembly.RoundTrip
import WordMachine.Proofs.Assembly.Single
import WordMachine.Proofs.Assembly.Spacing
import WordMachine.Proofs.Assembly.Spelling
import WordMachine.Proofs.Assembly.Token
import WordMachine.Proofs.Assembly.TrailingComment
import WordMachine.Proofs.Channel
import WordMachine.Proofs.Channel.Lossless
import WordMachine.Proofs.CommandLine.Execution
import WordMachine.Proofs.CommandLine.Request
import WordMachine.Proofs.Computer.Action
import WordMachine.Proofs.Computer.Completion
import WordMachine.Proofs.Computer.Coordination
import WordMachine.Proofs.Computer.Interleaving
import WordMachine.Proofs.Computer.Listening
import WordMachine.Proofs.Computer.Service
import WordMachine.Proofs.Computer.Shutdown
import WordMachine.Proofs.Computer.Stirring
import WordMachine.Proofs.Computer.Waiting
import WordMachine.Proofs.Computer.Wiring
import WordMachine.Proofs.Device.Console
import WordMachine.Proofs.Device.Monitor
import WordMachine.Proofs.Device.Sink
import WordMachine.Proofs.Device.Store
import WordMachine.Proofs.Device.Waking
import WordMachine.Proofs.Engine.Bounds
import WordMachine.Proofs.Engine.Effect
import WordMachine.Proofs.Engine.Faulting
import WordMachine.Proofs.Engine.FlagHistory
import WordMachine.Proofs.Engine.Frame
import WordMachine.Proofs.Engine.Halting
import WordMachine.Proofs.Engine.LoadOnce
import WordMachine.Proofs.Engine.Path
import WordMachine.Proofs.Engine.Reachable
import WordMachine.Proofs.Engine.Run
import WordMachine.Proofs.Engine.Step
import WordMachine.Proofs.Engine.Straight
import WordMachine.Proofs.Engine.Task
import WordMachine.Proofs.Engine.Telling
import WordMachine.Proofs.Engine.Twin
import WordMachine.Proofs.Engine.Widening
import WordMachine.Proofs.FileStore
import WordMachine.Proofs.Instruction.Builder
import WordMachine.Proofs.Instruction.Codec
import WordMachine.Proofs.Instruction.Disassembly
import WordMachine.Proofs.Instruction.Operand
import WordMachine.Proofs.Processor.Access
import WordMachine.Proofs.Processor.Cycle
import WordMachine.Proofs.Processor.Table
import WordMachine.Proofs.Processor.Widening
import WordMachine.Proofs.Stream
import WordMachine.Proofs.Text.Digit
import WordMachine.Proofs.Text.Escape
import WordMachine.Proofs.Text.Grouping
import WordMachine.Proofs.Text.Line
import WordMachine.Proofs.Text.Numeral
import WordMachine.Proofs.Text.Padding
import WordMachine.Text.Blank
import WordMachine.Text.Digit
import WordMachine.Text.Numeral
import WordMachine.Text.Printable
import WordMachine.Text.Quoted
import WordMachine.Text.Radix
import WordMachine.Word
