import Accumulator.Proofs.Machine.Control
import Accumulator.Proofs.Program.Fetch

set_option autoImplicit false

/-!
The main scope is executed with empty stacks. It comes first in the program and is not callable,
jumps stay in their scope, and comparisons only move forward, so the words up to the halt word are
left by a call or for good; only the return address of the first pending call leads back to them.
-/

namespace Accumulator

open Machine

/-- No call is pending at the addresses up to `last`, and only the return address at the bottom of
the stack is one of them. -/
structure Machine.Control.Balanced (last : Nat) (c : Control) : Prop where
  paired : c.calls.length = c.frames.length
  main : c.pc ≤ last → c.calls = []
  bottom : ∀ i target, c.calls[i]? = some target → target ≤ last → i + 1 = c.calls.length

theorem Machine.Control.Balanced.forward {last : Nat} {c d : Control} (balanced : c.Balanced last)
    (ahead : c.pc ≤ d.pc) (calls : d.calls = c.calls) (frames : d.frames = c.frames) :
    d.Balanced last := by
  refine ⟨?_, ?_, ?_⟩
  · rw [calls, frames]
    exact balanced.paired
  · intro inside
    rw [calls]
    exact balanced.main (Nat.le_trans ahead inside)
  · rw [calls]
    exact balanced.bottom

/-- What a step keeps, if calls lead behind `last` and jumps from behind `last` stay there. -/
theorem Machine.Control.Balanced.step {last : Nat} {c d : Control} {operation : Operation}
    {literal : BitVec 24} {fault : Option Machine.Fault} (balanced : c.Balanced last)
    (stepped : Control.Step operation literal c fault d)
    (called : operation = .call → last < literal.toNat)
    (jumped : operation = .goto → literal.toNat ≤ last → c.pc ≤ last) : d.Balanced last := by
  cases stepped with
  | failed f => exact balanced
  | halt isHalt => exact balanced.forward (Nat.le_refl _) rfl rfl
  | plain isPlain => exact balanced.forward (Nat.le_succ _) rfl rfl
  | declare isVar => exact balanced.forward (Nat.le_succ _) rfl rfl
  | call isCall =>
    refine ⟨congrArg Nat.succ balanced.paired, ?_, ?_⟩
    · intro inside
      exact absurd (called isCall) (Nat.not_lt.mpr inside)
    · intro i target found low
      cases i with
      | zero =>
        cases found
        have none : c.calls = [] := balanced.main (Nat.le_of_succ_le low)
        simp [none]
      | succ i => exact congrArg Nat.succ (balanced.bottom i target found low)
  | leave returns target base calls frames called framed =>
    have paired := balanced.paired
    rw [called, framed] at paired
    refine ⟨Nat.succ.inj paired, ?_, ?_⟩
    · intro low
      have bottom := balanced.bottom 0 target (by rw [called]; rfl) low
      rw [called] at bottom
      exact List.length_eq_zero_iff.mp (Nat.succ.inj bottom).symm
    · intro i target found low
      have bottom := balanced.bottom (i + 1) target (by rw [called]; exact found) low
      rw [called] at bottom
      exact Nat.succ.inj bottom
  | goto isGoto =>
    refine ⟨balanced.paired, ?_, balanced.bottom⟩
    intro inside
    exact balanced.main (jumped isGoto inside)
  | compare condition operand skip holds isCompare =>
    exact balanced.forward (Nat.le_add_right _ _) rfl rfl

section

variable {l : Layout} {program : Program} {words : List Word}

theorem Layout.Assembles.call_behind_main (assembles : l.Assembles program words)
    (bounded : l.size + 1 < literalBound) (s : State) (literal : BitVec 24)
    (pending : s.pending? words.toArray = some (.call, literal)) :
    l.main.size + 1 < literal.toNat := by
  obtain ⟨q, function, rfl⟩ := assembles.call_target s literal pending
  have bounds := assembles.places.function_bounds q function
  rw [literal_exact (by omega)]
  omega

theorem Layout.Assembles.goto_main (assembles : l.Assembles program words)
    (bounded : l.size + 1 < literalBound) (s : State) (literal : BitVec 24)
    (pending : s.pending? words.toArray = some (.goto, literal))
    (target : literal.toNat ≤ l.main.size + 1) : s.pc ≤ l.main.size + 1 := by
  obtain ⟨p, member, offset, owned, _, within, rfl⟩ := assembles.goto_target s literal pending
  have bounds := assembles.places.bounds p member
  rw [literal_exact (by omega)] at target
  rw [owns_iff] at owned
  rcases List.mem_cons.mp member with rfl | function
  · have main := assembles.places.main_base
    omega
  · have behind := assembles.places.function_bounds p function
    omega

theorem Layout.Assembles.balanced (assembles : l.Assembles program words)
    (bounded : l.size + 1 < literalBound) {input : Input} {s : State}
    (reached : Reachable words input s) : s.control.Balanced (l.main.size + 1) := by
  apply reached.invariant fun t => t.control.Balanced (l.main.size + 1)
  · exact ⟨rfl, fun _ => rfl, nofun⟩
  · intro t balanced
    rcases step_control words.toArray input t with idle | ⟨operation, literal, pending, stepped⟩
    · rw [idle]
      exact balanced
    · apply balanced.step stepped
      · rintro rfl
        exact assembles.call_behind_main bounded t literal pending
      · rintro rfl
        exact assembles.goto_main bounded t literal pending

end

/-- In the main scope and on the halt word behind it both stacks are empty, in particular when the
program halts there. A return address among these words is that of the first pending call. -/
theorem main_runs_with_empty_stacks (text : List Char) (a : Assembly)
    (compiled : Assembly.ofSource text = .ok a) (bounded : a.layout.size + 1 < literalBound)
    (input : Input) :
    (∀ s, Reachable a.words input s →
      (s.pc ≤ a.layout.main.size + 1 → s.calls = [] ∧ s.frames = []) ∧
      ∀ i target, s.calls[i]? = some target → target ≤ a.layout.main.size + 1 →
        i + 1 = s.calls.length) ∧
    ∀ limit, let final := (({ Processor.load a.words with limit } : Processor).run input).1.state
      final.halted = true → final.pc ≤ a.layout.main.size + 1 →
        final.calls = [] ∧ final.frames = [] := by
  obtain ⟨program, parsed, _⟩ := Assembly.ofSource_eq_ok.mp compiled
  have assembles := Assembly.assembles compiled parsed
  have emptied : ∀ s, Reachable a.words input s → s.pc ≤ a.layout.main.size + 1 →
      s.calls = [] ∧ s.frames = [] := by
    intro s reached inside
    have balanced := assembles.balanced bounded reached
    have none : s.calls = [] := balanced.main inside
    have paired : s.calls.length = s.frames.length := balanced.paired
    rw [none] at paired
    exact ⟨none, List.length_eq_zero_iff.mp paired.symm⟩
  refine ⟨fun s reached => ⟨emptied s reached, (assembles.balanced bounded reached).bottom⟩, ?_⟩
  intro limit _ _
  exact emptied _ (run_reachable a.words input limit)

/-- A main program whose only word calls a function that calls another one. -/
def callChain : List Char :=
  "CALL outer\nFN outer\nCALL inner\nRET\nEND\nFN inner\nRET\nEND\n".toList

/-- In the inner function the return address to the halt word is at the bottom, and the program
halts with empty stacks. -/
theorem callChain_halts_with_empty_stacks :
    ∃ a, Assembly.ofSource callChain = .ok a ∧ a.layout.size + 1 < literalBound ∧
      a.layout.main.size + 1 = 2 ∧
      (after a.words.toArray (fun _ => ⟨0, 0⟩) State.start 2).calls = [4, 2] ∧
      ((Processor.load a.words).run fun _ => ⟨0, 0⟩).1.state.halted = true ∧
      ((Processor.load a.words).run fun _ => ⟨0, 0⟩).1.state.calls = [] := by
  have characters : callChain = _ := String.toList_ofList
  have facts : ∃ a, Assembly.ofSource callChain = .ok a ∧ a.layout.size + 1 < literalBound ∧
      a.layout.main.size + 1 = 2 ∧
      (after a.words.toArray (fun _ => ⟨0, 0⟩) State.start 2).calls = [4, 2] ∧
      ((Processor.load a.words).run fun _ => ⟨0, 0⟩).1.state.halted = true ∧
      ((Processor.load a.words).run fun _ => ⟨0, 0⟩).1.state.pc ≤ 2 := by
    rw [characters]
    decide +kernel
  obtain ⟨a, compiled, bounded, main, pending, halted, stopped⟩ := facts
  have emptied := main_runs_with_empty_stacks callChain a compiled bounded fun _ => ⟨0, 0⟩
  exact ⟨a, compiled, bounded, main, pending, halted,
    (emptied.2 defaultLimit halted (main ▸ stopped)).1⟩

end Accumulator
