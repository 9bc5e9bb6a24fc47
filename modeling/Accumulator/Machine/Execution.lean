import Accumulator.Machine.Arithmetic
import Accumulator.Machine.State

set_option autoImplicit false

/-!
The effect of one operation on the state.
-/

namespace Accumulator.Machine

/-- The result of one or more cycles. A fault leaves a state behind as well. -/
inductive Outcome
  | ok (s : State)
  | failed (f : Fault) (s : State)
deriving DecidableEq, Repr

namespace Outcome

def state : Outcome → State
  | .ok s => s
  | .failed _ s => s

def fault? : Outcome → Option Fault
  | .ok _ => none
  | .failed f _ => some f

end Outcome

namespace State

/-- Goes on to the next word. -/
def advance (s : State) : State := { s with pc := s.pc + 1 }

/-- Enters a function. Its frame begins where the caller's ends, and has no variables yet. -/
def enter (s : State) (address : Nat) : State :=
  { s with
    calls := (s.pc + 1) :: s.calls
    frames := (s.frameBase + s.frameSize) :: s.frames
    frameSize := 0
    pc := address }

/-- Returns to the pending call. The frame before ends where the frame that is left began. -/
def leave (s : State) : Outcome :=
  match s.calls, s.frames with
  | target :: calls, base :: frames =>
    .ok { s with calls, frames, frameSize := base - frames.headD 0, pc := target }
  | _, _ => .failed (.callStackUnderflow s.pc) s

/-- Stores consecutive rows; those before a fault stay stored. -/
def storeRows (s : State) (address : Int) : List Value → Outcome
  | [] => .ok s
  | row :: rows =>
    match s.cell address with
    | .ok i => (s.put i row).storeRows (address + 1) rows
    | .error f => .failed f s

/-- Stores consecutive rows and goes on to the next word. -/
def saving (s : State) (address : Int) (rows : List Value) : Outcome :=
  match s.storeRows address rows with
  | .ok next => .ok next.advance
  | .failed f next => .failed f next

/-- The first `n` of the consecutive rows from an address on. -/
def loadRows (s : State) (address : Int) : (n : Nat) → Except Fault (Vector Value n)
  | 0 => .ok #v[]
  | n + 1 => do
    let rows ← s.loadRows address n
    let row ← s.load (address + n)
    return rows.push row

/-- Makes loaded rows the active plane and goes on to the next word. -/
def restoring (s : State) : Except Fault Plane → Outcome
  | .ok plane => .ok { s with display := s.display.setActive plane }.advance
  | .error f => .failed f s

/-- Goes on with a loaded value. -/
@[inline]
def loading (s : State) (address : Int) (k : Value → Outcome) : Outcome :=
  match s.load address with
  | .ok v => k v
  | .error f => .failed f s

/-- Stores a value and goes on to the next word. -/
def storing (s : State) (address : Int) (v : Value) : Outcome :=
  match s.cell address with
  | .ok i => .ok (s.put i v).advance
  | .error f => .failed f s

/-- Goes on with the value of an operand. -/
@[inline]
def fetching (s : State) (operand : Operand) (literal : BitVec 24) (k : Value → Outcome) :
    Outcome :=
  match operand with
  | .literal => k (literal.setWidth 32)
  | .w => k s.w
  | .memory => s.loading literal.toNat k

/-- Carries out one operation. -/
def execute (s : State) (operation : Operation) (literal : BitVec 24) : Outcome :=
  match operation with
  | .halt => .ok { s with halted := true }
  | .nop | .pulse => .ok s.advance
  | .var => .ok { s with frameSize := max s.frameSize literal.toNat }.advance
  | .movLW => .ok { s with w := literal.setWidth 32 }.advance
  | .movWF => s.storing literal.toNat s.w
  | .movFW => s.loading literal.toNat fun v => .ok { s with w := v }.advance
  | .movLF => s.storing s.w.toInt (literal.setWidth 32)
  | .call => .ok (s.enter literal.toNat)
  | .ret => s.leave
  | .retLW => { s with w := literal.setWidth 32 }.leave
  | .retFW => s.loading literal.toNat fun v => { s with w := v }.leave
  | .goto => .ok { s with pc := literal.toNat }
  | .arithmetic op .immediate =>
    .ok { s with w := op.apply s.w (literal.setWidth 32) }.advance
  | .arithmetic op .toW =>
    s.loading literal.toNat fun v => .ok { s with w := op.apply s.w v }.advance
  | .arithmetic op .toMemory =>
    s.loading literal.toNat fun v => s.storing literal.toNat (op.apply s.w v)
  | .compare condition operand skip =>
    s.fetching operand literal fun v =>
      .ok { s with pc := s.pc + if condition.holds s.w v then 1 else skip.val + 2 }
  | .write port operand =>
    s.fetching operand literal fun v => .ok { s with outputs := s.outputs.set port v }.advance
  | .read port false => .ok { s with w := s.inputs.get port }.advance
  | .read port true => s.storing literal.toNat (s.inputs.get port)
  | .display .save _ => s.saving literal.toNat s.display.active.toList
  | .display .load _ => s.restoring (s.loadRows literal.toNat screenSize)
  | .display drawing operand =>
    s.fetching operand literal fun v =>
      .ok { s with display := s.display.execute drawing v }.advance

end State

end Accumulator.Machine
