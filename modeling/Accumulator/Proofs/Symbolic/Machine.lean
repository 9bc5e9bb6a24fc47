import Accumulator.Machine.Processor
import Accumulator.Program.Code

set_option autoImplicit false

/-!
The symbolic machine: it executes the scopes of a program as they stand, without words and without
addresses to go to. Control is a position in a scope; only an operand that names a label, and a
fault, tell an address.
-/

namespace Accumulator

open Source

namespace Symbolic

/-- A token by the number of its scope, the main scope having number zero, and its index there. The
end of the main scope is a position as well. -/
structure Position where
  scope : Nat
  index : Nat
deriving DecidableEq, Repr

def Position.forward (p : Position) (n : Nat) : Position := { p with index := p.index + n }

/-- An instruction with its operand understood: the literal, and for a call and a jump the position
that control goes to instead. -/
structure Line where
  operation : Operation
  literal : BitVec 24
  target : Option Position
deriving DecidableEq, Repr

/-- The state of the symbolic machine. The positions to return to have their top first. -/
structure State where
  w : Machine.Value
  memory : Vector Machine.Value Machine.memorySize
  position : Position
  calls : List Position
  frames : List Nat
  frameSize : Nat
  outputs : Machine.Ports
  inputs : Machine.Ports
  display : Display
  cycles : Nat
  halted : Bool
deriving DecidableEq, Repr

end Symbolic

/-- The variables of a scope by the order of their declarations. -/
def Scope.declared (s : Scope) : List String :=
  (s.tokens.filter Token.isDeclaration).flatMap Token.args

namespace Program

open Symbolic

/-- The address of the first word of the scope with a number. -/
def base (program : Program) : Nat → Nat
  | 0 => 1
  | n + 1 =>
    (program.functions.take n).foldl (fun address s => address + s.size) (program.main.size + 2)

def address (program : Program) (p : Position) : Nat := program.base p.scope + p.index

/-- What an operand means in a scope: the number that it writes, else the rank of the variable that
it names, else the address of the label. -/
def meaning? (program : Program) (n : Nat) (scope : Scope) (operand : String) : Option Nat :=
  match numeral? operand.toList with
  | some (radix, digits) => signedValue? radix digits
  | none =>
    match scope.declared.idxOf? operand with
    | some rank => some (rank + 1)
    | none => (scope.label? operand).map (program.base n + ·)

/-- What a token of the scope with a number says. A literal has the 24 bits that a word has for
it. -/
def lineOf? (program : Program) (n : Nat) (scope : Scope) (t : Token) : Option Line :=
  (Instruction.find? t.mnemonic).bind fun i =>
    match i.operation, t.args with
    | .call, function :: _ =>
      (program.functions.findIdx? (·.name == function)).map fun f => ⟨.call, 0, some ⟨f + 1, 0⟩⟩
    | .goto, [label] => (scope.label? label).map fun index => ⟨.goto, 0, some ⟨n, index⟩⟩
    | operation, [operand] =>
      (program.meaning? n scope operand).map fun value => ⟨operation, BitVec.ofNat 24 value, none⟩
    | operation, [] => some ⟨operation, 0, none⟩
    | _, _ => none

/-- What stands at a position. At the end of the main scope the program halts. -/
def line? (program : Program) (p : Position) : Option Line :=
  (program.scopes[p.scope]?).bind fun scope =>
    match scope.tokens[p.index]? with
    | some t => program.lineOf? p.scope scope t
    | none => if p = ⟨0, program.main.size⟩ then some ⟨.halt, 0, none⟩ else none

/-- A position that holds a token, or the end of the main scope. -/
def Inside (program : Program) (p : Position) : Prop :=
  (∃ scope ∈ program.scopes[p.scope]?, p.index < scope.size) ∨ p = ⟨0, program.main.size⟩

instance (program : Program) (p : Position) : Decidable (program.Inside p) :=
  inferInstanceAs (Decidable ((∃ scope ∈ program.scopes[p.scope]?, p.index < scope.size) ∨
    p = ⟨0, program.main.size⟩))

end Program

namespace Symbolic

namespace State

def start : State where
  w := 0
  memory := Vector.replicate Machine.memorySize 0
  position := ⟨0, 0⟩
  calls := []
  frames := []
  frameSize := 0
  outputs := ⟨0, 0⟩
  inputs := ⟨0, 0⟩
  display := Display.blank
  cycles := 0
  halted := false

/-- The same state with addresses in the place of positions. -/
def machine (program : Program) (s : State) : Machine.State where
  w := s.w
  memory := s.memory
  pc := program.address s.position
  calls := s.calls.map program.address
  frames := s.frames
  frameSize := s.frameSize
  outputs := s.outputs
  inputs := s.inputs
  display := s.display
  cycles := s.cycles
  halted := s.halted

/-- Takes over everything but the positions. -/
def absorb (s : State) (m : Machine.State) : State where
  w := m.w
  memory := m.memory
  position := s.position
  calls := s.calls
  frames := m.frames
  frameSize := m.frameSize
  outputs := m.outputs
  inputs := m.inputs
  display := m.display
  cycles := m.cycles
  halted := m.halted

/-- The value that an operation has for its operand. -/
def operand? (program : Program) (s : State) (operand : Operand) (literal : BitVec 24) :
    Option Machine.Value :=
  match operand with
  | .literal => some (literal.setWidth 32)
  | .w => some s.w
  | .memory => ((s.machine program).load literal.toNat).toOption

/-- Where control is after a line, and the positions to return to then. -/
def next? (program : Program) (s : State) (line : Line) : Option (Position × List Position) :=
  match line.operation with
  | .halt => some (s.position, s.calls)
  | .goto => line.target.map fun target => (target, s.calls)
  | .call => line.target.map fun target => (target, s.position.forward 1 :: s.calls)
  | .ret | .retLW | .retFW => s.calls.head?.map fun target => (target, s.calls.tail)
  | .compare condition operand skip =>
    (s.operand? program operand line.literal).map fun v =>
      (s.position.forward (if condition.holds s.w v then 1 else skip.val + 2), s.calls)
  | _ => some (s.position.forward 1, s.calls)

/-- Carries out a line. Everything but the positions changes as the processor changes it; where a
fault ends the line, control stays. -/
def execute? (program : Program) (s : State) (line : Line) :
    Option (State × Option Machine.Fault) :=
  match (s.machine program).execute line.operation line.literal with
  | .failed f m => some (s.absorb m, some f)
  | .ok m =>
    (s.next? program line).map fun (position, calls) => ({ s.absorb m with position, calls }, none)

end State

/-- One cycle, and the fault that ended it. -/
def step? (program : Program) (input : Machine.Input) (s : State) :
    Option (State × Option Machine.Fault) :=
  if s.halted then some (s, none)
  else
    (program.line? s.position).bind fun line =>
      ({ s with inputs := input s.cycles, cycles := s.cycles + 1 } : State).execute? program line

/-- The state after a number of cycles, and what each of them ended with. -/
def run? (program : Program) (input : Machine.Input) :
    Nat → Option (State × List (Option Machine.Fault))
  | 0 => some (State.start, [])
  | n + 1 =>
    (run? program input n).bind fun (s, seen) =>
      (step? program input s).map fun (next, fault) => (next, seen ++ [fault])

end Symbolic

end Accumulator
