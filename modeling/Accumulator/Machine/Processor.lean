import Accumulator.Instruction.Table
import Accumulator.Machine.Execution
import Accumulator.Word

set_option autoImplicit false

/-!
The processor: fetching and executing words, one cycle at a time or until the program halts.
-/

namespace Accumulator.Machine

/-- The values at the input ports, by the number of cycles before the current one. -/
abbrev Input := Nat → Ports

/-- The words of a program; the first has address one. -/
abbrev Code := Array Word

def Code.fetch? (code : Code) (pc : Nat) : Option Word :=
  if pc = 0 then none else code[pc - 1]?

/-- One cycle: fetches a word, samples the input ports and executes the word. A halted machine stays
as it is. -/
def step (code : Code) (input : Input) (s : State) : Outcome :=
  if s.halted then .ok s
  else
    match Code.fetch? code s.pc with
    | none => .failed (.programCounterOutOfRange s.pc) s
    | some word =>
      match Instruction.decode? word.opcode with
      | none => .failed (.unknownInstruction word.opcode s.pc) s
      | some i =>
        { s with inputs := input s.cycles, cycles := s.cycles + 1 }.execute i.operation word.literal

/-- Runs for at most `budget` cycles and folds `observe` over the states after each of them. -/
def runObserving {α : Type} (observe : α → State → α) (code : Code) (input : Input) :
    (budget : Nat) → α → State → α × Outcome
  | 0, seen, s => (seen, if s.halted then .ok s else .failed (.cycleTimeout s.cycles) s)
  | budget + 1, seen, s =>
    if s.halted then (seen, .ok s)
    else
      match step code input s with
      | .ok next => runObserving observe code input budget (observe seen next) next
      | .failed f next => (seen, .failed f next)

/-- The ceiling on the cycles of a run where nothing else is asked for. -/
def defaultLimit : Nat := 50000

/-- A program under execution, with a ceiling on the cycles of a run. -/
structure Processor where
  code : Code
  state : State
  limit : Nat
deriving DecidableEq, Repr

namespace Processor

def load (words : List Word) : Processor := ⟨words.toArray, State.start, defaultLimit⟩

/-- One cycle, and the fault that ended it. -/
def step (p : Processor) (input : Input) : Processor × Option Fault :=
  let outcome := Machine.step p.code input p.state
  ({ p with state := outcome.state }, outcome.fault?)

/-- Runs until the program halts, a cycle fails or the counter of cycles is at the ceiling. -/
def runObserving {α : Type} (p : Processor) (observe : α → State → α) (seen : α)
    (input : Input) : α × Processor × Option Fault :=
  let (seen, outcome) :=
    Machine.runObserving observe p.code input (p.limit - p.state.cycles) seen p.state
  (seen, { p with state := outcome.state }, outcome.fault?)

def run (p : Processor) (input : Input) : Processor × Option Fault :=
  (p.runObserving (fun _ _ => ()) () input).2

end Processor

end Accumulator.Machine
