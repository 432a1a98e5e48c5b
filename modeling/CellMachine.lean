import CellMachine.Arithmetic
import CellMachine.Binary32
import CellMachine.Binary32.Arithmetic
import CellMachine.Binary32.Decimal
import CellMachine.Bundle
import CellMachine.Bytes
import CellMachine.Cell
import CellMachine.Cell.Editing
import CellMachine.CommandLine
import CellMachine.CommandLine.Usage
import CellMachine.Config
import CellMachine.Diagnostic
import CellMachine.ErrorMode
import CellMachine.Extension
import CellMachine.Extension.Plugin
import CellMachine.Fault
import CellMachine.Files.Command
import CellMachine.Files.Host
import CellMachine.Files.Path
import CellMachine.Files.Provider
import CellMachine.Files.ProviderError
import CellMachine.Frame
import CellMachine.Input
import CellMachine.Instruction
import CellMachine.Instruction.Json
import CellMachine.Json
import CellMachine.Machine.Data
import CellMachine.Machine.Execution
import CellMachine.Machine.Hooks
import CellMachine.Machine.Instructions
import CellMachine.Machine.Launch
import CellMachine.Machine.Operand
import CellMachine.Machine.Threads
import CellMachine.Machine.Turn
import CellMachine.Machine.Waiting
import CellMachine.Machine.World
import CellMachine.Main
import CellMachine.Namespace
import CellMachine.Opcode
import CellMachine.OrderedMap
import CellMachine.Paint
import CellMachine.Panic
import CellMachine.Program
import CellMachine.Proofs.Arithmetic
import CellMachine.Proofs.Binary32.Decimal
import CellMachine.Proofs.Binary32.Rounding
import CellMachine.Proofs.Bundle
import CellMachine.Proofs.Bytes
import CellMachine.Proofs.Cell
import CellMachine.Proofs.Cell.ByteList
import CellMachine.Proofs.Cell.Number
import CellMachine.Proofs.Cell.Numeral
import CellMachine.Proofs.Files.Directory
import CellMachine.Proofs.Files.Path
import CellMachine.Proofs.Files.Provider
import CellMachine.Proofs.Frame
import CellMachine.Proofs.Input
import CellMachine.Proofs.Input.Delivery
import CellMachine.Proofs.Instruction
import CellMachine.Proofs.Machine.Action
import CellMachine.Proofs.Machine.ActiveNamespace
import CellMachine.Proofs.Machine.Assignment
import CellMachine.Proofs.Machine.Brackets
import CellMachine.Proofs.Machine.Budget
import CellMachine.Proofs.Machine.Callers
import CellMachine.Proofs.Machine.Change
import CellMachine.Proofs.Machine.Compiled
import CellMachine.Proofs.Machine.Conversions
import CellMachine.Proofs.Machine.Disguise
import CellMachine.Proofs.Machine.Failure
import CellMachine.Proofs.Machine.Footprint
import CellMachine.Proofs.Machine.InPlace
import CellMachine.Proofs.Machine.Independence
import CellMachine.Proofs.Machine.Jump
import CellMachine.Proofs.Machine.Labels
import CellMachine.Proofs.Machine.Ledger
import CellMachine.Proofs.Machine.Limit
import CellMachine.Proofs.Machine.Log
import CellMachine.Proofs.Machine.Operands
import CellMachine.Proofs.Machine.Policy
import CellMachine.Proofs.Machine.Reload
import CellMachine.Proofs.Machine.Report
import CellMachine.Proofs.Machine.Restricted
import CellMachine.Proofs.Machine.Run
import CellMachine.Proofs.Machine.Schedule
import CellMachine.Proofs.Machine.Sequential
import CellMachine.Proofs.Machine.Sink
import CellMachine.Proofs.Machine.Snapshot
import CellMachine.Proofs.Machine.Spawn
import CellMachine.Proofs.Machine.Splitting
import CellMachine.Proofs.Machine.Station
import CellMachine.Proofs.Machine.Stopping
import CellMachine.Proofs.Machine.Superuser
import CellMachine.Proofs.Machine.Turn
import CellMachine.Proofs.Machine.Values
import CellMachine.Proofs.Machine.Waiting
import CellMachine.Proofs.Namespace
import CellMachine.Proofs.OrderedMap
import CellMachine.Proofs.Program
import CellMachine.Proofs.Source.Compile
import CellMachine.Proofs.Source.Decompile
import CellMachine.Proofs.Source.Floats
import CellMachine.Proofs.Source.Position
import CellMachine.Proofs.Source.Token
import CellMachine.Proofs.Stateful
import CellMachine.Proofs.Table
import CellMachine.Proofs.Text.Blank
import CellMachine.Proofs.Text.Fields
import CellMachine.Proofs.Text.Numeral
import CellMachine.Proofs.Text.Order
import CellMachine.Proofs.Text.Utf8
import CellMachine.Proofs.Truncation
import CellMachine.Session
import CellMachine.Settings
import CellMachine.Sink
import CellMachine.Source.Argument
import CellMachine.Source.Compile
import CellMachine.Source.Decompile
import CellMachine.Source.Token
import CellMachine.Table
import CellMachine.Text.Blank
import CellMachine.Text.Fields
import CellMachine.Text.Numeral
import CellMachine.Text.Quoted
import CellMachine.Text.Unprintable
import CellMachine.Text.Utf8
import CellMachine.Toml
import CellMachine.Toml.Document
import CellMachine.Toml.Scalar
import CellMachine.Toml.Table
