import Accumulator.Machine.Processor

set_option autoImplicit false

/-!
The bounds of addresses. A processor keeps its program counter, its return addresses and its frame
bases in 32 bits. A cycle that computes an address out of bounds breaks the execution off, which leaves
neither a state nor a fault behind.
-/

namespace Accumulator.Machine

/-- The addresses are the natural numbers below this one. -/
def addressBound : Nat := 0x100000000

/-- Whether all addresses are in bounds that were computed by a cycle at a program counter: that of the
next word, which every operation computes first, and those that control and the frame are left at. -/
def Outcome.inBounds (o : Outcome) (pc : Nat) : Bool :=
  pc + 1 < addressBound && o.state.pc < addressBound && o.state.frameBase < addressBound

/-- One cycle, unless it breaks off. A cycle that carries nothing out is not counted and computes no
address. -/
def step? (code : Code) (input : Input) (s : State) : Option Outcome :=
  let pc := s.pc
  let cycles := s.cycles
  let outcome := step code input s
  if outcome.state.cycles = cycles ∨ outcome.inBounds pc = true then some outcome else none

/-- Runs for at most `budget` cycles and folds `observe` over the states after each of them, unless a
cycle breaks off. -/
def runObserving? {α : Type} (observe : α → State → α) (code : Code) (input : Input) :
    (budget : Nat) → α → State → Option (α × Outcome)
  | 0, seen, s => some (seen, if s.halted then .ok s else .failed (.cycleTimeout s.cycles) s)
  | budget + 1, seen, s =>
    if s.halted then some (seen, .ok s)
    else
      match step? code input s with
      | none => none
      | some (.ok next) => runObserving? observe code input budget (observe seen next) next
      | some (.failed f next) => some (seen, .failed f next)

namespace Processor

def step? (p : Processor) (input : Input) : Option (Processor × Option Fault) :=
  (Machine.step? p.code input p.state).map fun outcome =>
    ({ p with state := outcome.state }, outcome.fault?)

def runObserving? {α : Type} (p : Processor) (observe : α → State → α) (seen : α)
    (input : Input) : Option (α × Processor × Option Fault) :=
  (Machine.runObserving? observe p.code input (p.limit - p.state.cycles) seen p.state).map
    fun (seen, outcome) => (seen, { p with state := outcome.state }, outcome.fault?)

def run? (p : Processor) (input : Input) : Option (Processor × Option Fault) :=
  (p.runObserving? (fun _ _ => ()) () input).map Prod.snd

end Processor

/-- The state in which a program halts under the default ceiling, unless a cycle breaks off. -/
def simulate? (words : List Word) (input : Input) : Option (Except Fault State) :=
  ((Processor.load words).run? input).map fun
    | (p, none) => .ok p.state
    | (_, some f) => .error f

end Accumulator.Machine
