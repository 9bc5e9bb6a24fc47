import Accumulator.Machine.Processor
import Mathlib.Logic.Function.Iterate

set_option autoImplicit false

/-!
Runs of the machine, cycle by cycle: the states that a fresh machine gets to, failed cycles
included, and what the next cycle is about to carry out.
-/

namespace Accumulator.Machine

/-- The operation and the literal of the next cycle, if there is a word that says so. -/
def State.pending? (code : Code) (s : State) : Option (Operation × BitVec 24) :=
  if s.halted then none
  else
    (code.fetch? s.pc).bind fun word =>
      (Instruction.decode? word.opcode).map fun i => (i.operation, word.literal)

/-- The state in which an operation is carried out: the ports are sampled and the cycle counts. -/
def State.sample (s : State) (input : Input) : State :=
  { s with inputs := input s.cycles, cycles := s.cycles + 1 }

theorem pending_eq_some_iff (code : Code) (s : State) (operation : Operation)
    (literal : BitVec 24) :
    s.pending? code = some (operation, literal) ↔
      s.halted = false ∧ ∃ word i, code.fetch? s.pc = some word ∧
        Instruction.decode? word.opcode = some i ∧ i.operation = operation ∧
        word.literal = literal := by
  unfold State.pending?
  cases halted : s.halted
  · simp [Option.bind_eq_some_iff, Option.map_eq_some_iff]
  · simp

theorem step_of_pending (code : Code) (input : Input) (s : State) (operation : Operation)
    (literal : BitVec 24) (pending : s.pending? code = some (operation, literal)) :
    step code input s = (s.sample input).execute operation literal := by
  obtain ⟨running, word, i, fetched, decoded, rfl, rfl⟩ :=
    (pending_eq_some_iff code s operation literal).mp pending
  simp [step, running, fetched, decoded, State.sample]

/-- Without an operation to carry out, a cycle changes nothing. -/
theorem step_of_idle (code : Code) (input : Input) (s : State)
    (idle : s.pending? code = none) : (step code input s).state = s := by
  unfold step
  unfold State.pending? at idle
  split
  · rfl
  · rename_i running
    simp only [running, Bool.false_eq_true, ↓reduceIte, Option.bind_eq_none_iff,
      Option.map_eq_none_iff] at idle
    split
    · rfl
    · rename_i word fetched
      simp only [idle word fetched, Outcome.state]

/-- The state after a number of cycles, failed ones included. -/
def after (code : Code) (input : Input) (s : State) : Nat → State
  | 0 => s
  | n + 1 => (step code input (after code input s n)).state

/-- What each of a number of cycles ends with: nothing, or a fault. -/
def results (code : Code) (input : Input) (s : State) : Nat → List (Option Fault)
  | 0 => []
  | n + 1 => results code input s n ++ [(step code input (after code input s n)).fault?]

theorem after_add (code : Code) (input : Input) (s : State) (m n : Nat) :
    after code input s (m + n) = after code input (after code input s m) n := by
  induction n with
  | zero => rfl
  | succ n ih =>
    change (step code input (after code input s (m + n))).state = _
    rw [ih]
    rfl

theorem after_succ (code : Code) (input : Input) (s : State) (n : Nat) :
    after code input s (n + 1) = after code input (step code input s).state n := by
  rw [Nat.add_comm]
  exact after_add code input s 1 n

/-- The states that a program gets to from its start. A counter value is sampled at most once, so
an input given by the counter stands for every source of inputs. -/
def Reachable (words : List Word) (input : Input) (s : State) : Prop :=
  ∃ n, after words.toArray input State.start n = s

/-- What holds at the start and is kept by every cycle holds in every state of a run. -/
theorem Reachable.invariant {words : List Word} {input : Input} {s : State}
    (reached : Reachable words input s) (invariant : State → Prop)
    (start : invariant State.start)
    (kept : ∀ t, invariant t → invariant (step words.toArray input t).state) : invariant s := by
  obtain ⟨n, rfl⟩ := reached
  induction n with
  | zero => exact start
  | succ n ih => exact kept _ ih

theorem Reachable.after {words : List Word} {input : Input} {s : State}
    (reached : Reachable words input s) (n : Nat) :
    Reachable words input (Machine.after words.toArray input s n) := by
  obtain ⟨m, rfl⟩ := reached
  exact ⟨m + n, after_add words.toArray input State.start m n⟩

/-- A run stops in a state that some number of cycles leads to. -/
theorem runObserving_state {α : Type} (observe : α → State → α) (code : Code) (input : Input)
    (budget : Nat) (seen : α) (s : State) :
    ∃ n, (runObserving observe code input budget seen s).2.state = after code input s n := by
  induction budget generalizing seen s with
  | zero =>
    refine ⟨0, ?_⟩
    unfold runObserving
    split <;> rfl
  | succ budget ih =>
    unfold runObserving
    split
    · exact ⟨0, rfl⟩
    · split
      · rename_i next stepped
        obtain ⟨n, stops⟩ := ih (observe seen next) next
        refine ⟨n + 1, ?_⟩
        rw [after_succ, stepped, stops]
        rfl
      · rename_i f next stepped
        refine ⟨1, ?_⟩
        simp only [after, stepped]

theorem run_reachable (words : List Word) (input : Input) (limit : Nat) :
    Reachable words input
      (({ Processor.load words with limit } : Processor).run input).1.state := by
  obtain ⟨n, stops⟩ := runObserving_state (fun _ _ => ()) words.toArray input
    (limit - State.start.cycles) () State.start
  exact ⟨n, stops.symm⟩

end Accumulator.Machine
