import Accumulator.Text.Ranges
import Accumulator.Text.Alphabetic
import Accumulator.Text.Character
import Accumulator.Text.Line
import Accumulator.Text.Numeral
import Accumulator.Text.Escape
import Accumulator.Text.Cluster.Property
import Accumulator.Text.Cluster.Class
import Accumulator.Text.Cluster.Basic
import Accumulator.Text.Width.Property
import Accumulator.Text.Width.Basic
import Accumulator.Text.Cell
import Accumulator.Expression.Operator
import Accumulator.Expression.Lexeme
import Accumulator.Expression.Evaluation
import Accumulator.Instruction.Operation
import Accumulator.Instruction.Table
import Accumulator.Source.Fault
import Accumulator.Source.Token
import Accumulator.Source.Constants
import Accumulator.Source.Expansion
import Accumulator.Program.Scope
import Accumulator.Program.Nesting
import Accumulator.Program.Layout
import Accumulator.Program.Code
import Accumulator.Word
import Accumulator.Listing
import Accumulator.Assembly
import Accumulator.Display.Packed
import Accumulator.Display.Basic
import Accumulator.Machine.Arithmetic
import Accumulator.Machine.State
import Accumulator.Machine.Execution
import Accumulator.Machine.Processor
import Accumulator.Machine.Bounds
import Accumulator.Stepper.Session
import Accumulator.Stepper.Screen
import Accumulator.CommandLine.Arguments
import Accumulator.CommandLine.Event
import Accumulator.CommandLine.Request
import Accumulator.CommandLine.Response
import Accumulator.Main
import Accumulator.Proofs.Machine.Run
import Accumulator.Proofs.Machine.Control
import Accumulator.Proofs.Machine.Memory
import Accumulator.Proofs.Machine.CallFrame
import Accumulator.Proofs.Machine.CallReturn
import Accumulator.Proofs.Checked
import Accumulator.Proofs.Program.Declaration
import Accumulator.Proofs.Program.Nesting
import Accumulator.Proofs.Program.Placement
import Accumulator.Proofs.Program.Code
import Accumulator.Proofs.Program.Operand
import Accumulator.Proofs.Program.Fetch
import Accumulator.Proofs.Assembled.MainScope
import Accumulator.Proofs.Assembled.FrameSize
import Accumulator.Proofs.Symbolic.Machine
import Accumulator.Proofs.Symbolic.Position
import Accumulator.Proofs.Symbolic.Simulation
import Accumulator.Proofs.Expression.Arithmetic
import Accumulator.Proofs.Expression.Grammar
import Accumulator.Proofs.Expression.Spelling
import Accumulator.Proofs.Expression.Reading
import Accumulator.Proofs.Program.Denotation
import Accumulator.Proofs.Program.Division
import Accumulator.Proofs.Program.Acceptance
import Accumulator.Proofs.Assembled.LineOrder
import Accumulator.Proofs.Machine.Failure
import Accumulator.Proofs.Machine.Ceiling
import Accumulator.Proofs.Assembled.KnownWords
import Accumulator.Proofs.Assembled.LineTable
import Accumulator.Proofs.Display.PixelSets
import Accumulator.Proofs.Text.Character
import Accumulator.Proofs.Text.Line
import Accumulator.Proofs.Listing.RoundTrip
import Accumulator.Proofs.Source.Substitution
import Accumulator.Proofs.Source.Moved
import Accumulator.Proofs.Program.Moved
import Accumulator.Proofs.Assembled.Blame
import Accumulator.Proofs.Assembled.Spacing
import Accumulator.Proofs.Machine.Independence
import Accumulator.Proofs.Stepper.Context
import Accumulator.Proofs.Stepper.Invariant
import Accumulator.Proofs.Stepper.Cycles
import Accumulator.Proofs.Program.WellNested
import Accumulator.Proofs.Program.Insertion
import Accumulator.Proofs.Assembled.Mirroring
import Accumulator.Proofs.Assembled.Renaming
import Accumulator.Proofs.Assembled.Blocks
import Accumulator.Proofs.Assembled.ArgumentPassing
import Accumulator.Proofs.Assembled.Skipping
import Accumulator.Proofs.Assembled.LabelLine
import Accumulator.Proofs.Text.Run
import Accumulator.Proofs.Source.Replacement
import Accumulator.Proofs.Source.Definitions
import Accumulator.Proofs.Expression.Joining
import Accumulator.Proofs.Source.Directive
import Accumulator.Proofs.Expression.Formula
import Accumulator.Proofs.Source.NamedOperands
import Accumulator.Proofs.Program.Offence
import Accumulator.Proofs.Assembled.Variables
import Accumulator.Proofs.Program.Literal
import Accumulator.Proofs.Machine.Rows
import Accumulator.Proofs.Machine.Repetition
import Accumulator.Proofs.Machine.PlaneTransfer
import Accumulator.Proofs.Source.Joined
import Accumulator.Proofs.Assembled.Appending
import Accumulator.Proofs.Machine.Contract
import Accumulator.Proofs.Fibonacci.Calls
import Accumulator.Proofs.Fibonacci.Words
import Accumulator.Proofs.Source.LineLocal
import Accumulator.Proofs.Machine.CycleByCycle
import Accumulator.Proofs.Machine.FrameGrowth
import Accumulator.Proofs.Machine.IteratedRun
import Accumulator.Proofs.Assembled.AddressWidth
