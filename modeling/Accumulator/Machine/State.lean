import Accumulator.Display.Basic
import Accumulator.Text.Numeral

set_option autoImplicit false

/-!
The state of the machine, and memory access relative to the current frame.
-/

namespace Accumulator.Machine

/-- The content of W, of a memory cell and of a port: 32 bits, read as a signed number. -/
abbrev Value := BitVec 32

def memorySize : Nat := 4096

/-- Why the machine stops before it halts. -/
inductive Fault
  | unknownInstruction (opcode : BitVec 8) (address : Nat)
  | cycleTimeout (cycles : Nat)
  | memoryOutOfBounds (address : Int) (pc : Nat)
  | callStackUnderflow (pc : Nat)
  | programCounterOutOfRange (pc : Nat)
deriving DecidableEq, Repr

def Fault.message : Fault → String
  | .unknownInstruction opcode address =>
    "unknown instruction 0x" ++ String.ofList (Text.hexadecimal 2 opcode.toNat) ++ " at address "
      ++ toString address
  | .cycleTimeout cycles => "program did not halt after " ++ toString cycles ++ " cycles"
  | .memoryOutOfBounds address pc =>
    "memory access at " ++ toString address ++ " is out of bounds (pc " ++ toString pc ++ ")"
  | .callStackUnderflow pc => "return without a matching call at address " ++ toString pc
  | .programCounterOutOfRange pc => "program counter " ++ toString pc ++ " is outside the program"

structure Ports where
  one : Value
  two : Value
deriving DecidableEq, Repr

namespace Ports

def get (p : Ports) : Port → Value
  | .one => p.one
  | .two => p.two

def set (p : Ports) (port : Port) (v : Value) : Ports :=
  match port with
  | .one => { p with one := v }
  | .two => { p with two := v }

end Ports

/-- Both stacks have their top first: the return addresses of the pending calls, and the bases of
the frames that these calls made. -/
structure State where
  w : Value
  memory : Vector Value memorySize
  pc : Nat
  calls : List Nat
  frames : List Nat
  frameSize : Nat
  outputs : Ports
  inputs : Ports
  display : Display
  cycles : Nat
  halted : Bool
deriving DecidableEq, Repr

namespace State

/-- A state before its first cycle. Execution begins at address one. -/
def start : State where
  w := 0
  memory := Vector.replicate memorySize 0
  pc := 1
  calls := []
  frames := []
  frameSize := 0
  outputs := ⟨0, 0⟩
  inputs := ⟨0, 0⟩
  display := Display.blank
  cycles := 0
  halted := false

/-- The cell that the current frame begins after. -/
def frameBase (s : State) : Nat := s.frames.headD 0

/-- The cell at an address of the current frame. -/
def cell (s : State) (address : Int) : Except Fault (Fin memorySize) :=
  let absolute := address + s.frameBase
  if h : 0 ≤ absolute ∧ absolute < memorySize then .ok ⟨absolute.toNat, by omega⟩
  else .error (.memoryOutOfBounds absolute s.pc)

def load (s : State) (address : Int) : Except Fault Value :=
  match s.cell address with
  | .ok i => .ok s.memory[i]
  | .error f => .error f

def put (s : State) (i : Fin memorySize) (v : Value) : State :=
  { s with memory := s.memory.set i v }

def store (s : State) (address : Int) (v : Value) : Except Fault State :=
  match s.cell address with
  | .ok i => .ok (s.put i v)
  | .error f => .error f

def pushFrame (s : State) (base : Nat) : State := { s with frames := base :: s.frames }

/-- The base of the innermost frame and the state without this frame. -/
def popFrame? (s : State) : Option (Nat × State) :=
  match s.frames with
  | [] => none
  | base :: rest => some (base, { s with frames := rest })

end State

end Accumulator.Machine
