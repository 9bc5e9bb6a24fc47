import Accumulator.Machine.Bounds
import Accumulator.Proofs.Machine.Ceiling

set_option autoImplicit false

/-!
When a run breaks off: at the first cycle that computes an address out of bounds. Where there is no such
cycle, the bounds change nothing, so what is known of runs holds of what they come to.
-/

namespace Accumulator.Machine

section Cycles

variable {code : Code} {input : Input} {s : State}

theorem step_cycles_of_pending (input : Input) {operation : Operation} {literal : BitVec 24}
    (pending : s.pending? code = some (operation, literal)) :
    (step code input s).state.cycles = s.cycles + 1 := by
  rw [step_of_pending code input s operation literal pending]
  exact (execute_spares (s.sample input) operation literal).cycles

/-- A cycle is counted exactly if it carries an operation out. -/
theorem step_cycles_cases (code : Code) (input : Input) (s : State) :
    (step code input s).state = s ∨ (step code input s).state.cycles = s.cycles + 1 := by
  cases pending : s.pending? code with
  | none => exact .inl (step_of_idle code input s pending)
  | some carried => exact .inr (step_cycles_of_pending input pending)

theorem after_cycles_le (code : Code) (input : Input) (s : State) (n : Nat) :
    (after code input s n).cycles ≤ s.cycles + n := by
  induction n with
  | zero => exact Nat.le_refl _
  | succ n ih =>
    change (step code input (after code input s n)).state.cycles ≤ _
    rcases step_cycles_cases code input (after code input s n) with idle | counted
    · rw [idle]
      omega
    · omega

theorem step?_cases (code : Code) (input : Input) (s : State) :
    step? code input s = none ∨ step? code input s = some (step code input s) := by
  unfold step?
  dsimp only
  split
  · exact .inr rfl
  · exact .inl rfl

theorem step?_of_idle (idle : (step code input s).state = s) :
    step? code input s = some (step code input s) := by
  unfold step?
  simp [idle]

theorem step?_of_bounds (next : s.pc + 1 < addressBound)
    (control : (step code input s).state.pc < addressBound)
    (frame : (step code input s).state.frameBase < addressBound) :
    step? code input s = some (step code input s) := by
  unfold step? Outcome.inBounds
  simp [next, control, frame]

theorem step?_frameBase {o : Outcome} (frame : s.frameBase < addressBound)
    (taken : step? code input s = some o) : o.state.frameBase < addressBound := by
  unfold step? at taken
  dsimp only at taken
  split at taken
  · rename_i fits
    cases taken
    rcases step_cycles_cases code input s with idle | counted
    · rw [idle]
      exact frame
    · have inside := fits.resolve_left (by omega)
      simp only [Outcome.inBounds, Bool.and_eq_true, decide_eq_true_eq] at inside
      exact inside.2
  · cases taken

/-- A call breaks off if the frame of the function would begin out of bounds. -/
theorem step?_of_call {literal : BitVec 24} (calling : s.pending? code = some (.call, literal))
    (beyond : addressBound ≤ s.frameBase + s.frameSize) : step? code input s = none := by
  have counted := step_cycles_of_pending input calling
  have frame : (step code input s).state.frameBase = s.frameBase + s.frameSize := by
    rw [step_of_pending code input s .call literal calling]
    rfl
  have outside : (step code input s).inBounds s.pc = false := by
    unfold Outcome.inBounds
    rw [frame]
    simp [beyond]
  unfold step?
  simp [counted, outside]

end Cycles

section Runs

variable {α : Type} {code : Code} {input : Input}

/-- The bounds can only break a run off, at a cycle that does so. Else it is a run with addresses of any
size. -/
theorem runObserving?_cases (observe : α → State → α) (budget : Nat) (seen : α) (s : State) :
    ((∃ k < budget, step? code input (after code input s k) = none) ∧
      runObserving? observe code input budget seen s = none) ∨
      runObserving? observe code input budget seen s =
        some (runObserving observe code input budget seen s) := by
  induction budget generalizing seen s with
  | zero => exact .inr rfl
  | succ budget ih =>
    unfold runObserving? runObserving
    split
    · exact .inr rfl
    · rcases step?_cases code input s with broken | taken
      · rw [broken]
        exact .inl ⟨⟨0, Nat.succ_pos budget, broken⟩, rfl⟩
      · rw [taken]
        cases stepped : step code input s with
        | failed f next => exact .inr rfl
        | ok next =>
          rcases ih (observe seen next) next with ⟨⟨k, less, breaks⟩, broken⟩ | through
          · refine .inl ⟨⟨k + 1, Nat.succ_lt_succ less, ?_⟩, broken⟩
            rw [after_succ, stepped]
            exact breaks
          · exact .inr through

theorem Processor.run?_cases (p : Processor) (input : Input) :
    ((∃ k < p.limit - p.state.cycles,
        Machine.step? p.code input (after p.code input p.state k) = none) ∧
      p.run? input = none) ∨ p.run? input = some (p.run input) := by
  unfold Processor.run? Processor.runObserving?
  rcases runObserving?_cases (fun _ _ => ()) (p.limit - p.state.cycles) () p.state with
    ⟨breaks, broken⟩ | through
  · refine .inl ⟨breaks, ?_⟩
    rw [broken]
    rfl
  · rw [through]
    exact .inr rfl

end Runs

end Accumulator.Machine
