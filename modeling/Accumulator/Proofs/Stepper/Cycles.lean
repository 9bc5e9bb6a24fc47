import Accumulator.Proofs.Stepper.Invariant

set_option autoImplicit false

/-!
Stepping through a program and running it. The text is assembled once, by the first step or by the
run, and from then on each step is one cycle of the same processor. So the steps come to where the
run ends, and a run takes up where the steps before it have left the program.
-/

namespace Accumulator.Machine.Processor

/-- A run of a processor that has not halted, and that does not come to its ceiling, ends with a
last cycle: one that halts or fails, after cycles that all succeed. -/
theorem exists_last_cycle (p : Processor) (input : Input) (running : p.state.halted = false)
    (ends : ∀ cycles, (p.run input).2 ≠ some (.cycleTimeout cycles)) :
    ∃ n, p.Proceeds input n ∧ (p.stepped input n).state.halted = false ∧
      (p.stepped input n).step input = p.run input := by
  obtain ⟨n, q, fault, proceeds, stops⟩ := p.exists_stops input
  have ran := stops.run proceeds
  cases stops with
  | timedOut =>
    rw [ran] at ends
    exact absurd rfl (ends _)
  | failed f running _ failure =>
    refine ⟨n, proceeds, running, ?_⟩
    rw [ran]
    exact Prod.ext rfl failure
  | halted halted =>
    cases n with
    | zero =>
      rw [stepped_zero, running] at halted
      cases halted
    | succ n =>
      have last := proceeds n (Nat.lt_succ_self n)
      refine ⟨n, proceeds.mono (Nat.le_succ n), last.running, ?_⟩
      rw [ran, stepped_succ]
      exact Prod.ext rfl last.success

end Accumulator.Machine.Processor

namespace Accumulator.Stepper.Session

open Machine (Processor)

/-- The session that is stepping through the program of its text and has brought it to a state of
the processor. -/
def stepping (s : Session) (a : Assembly) (p : Processor) : Session :=
  { s.loaded a with mode := .stepping, program := some ⟨a, p⟩ }

section

variable {s : Session} {a : Assembly}

/-- How a session that is over has been stepped or run does not show. -/
theorem settle_over (s : Session) (mode : Mode) (before : Option Loaded) (program : Loaded)
    (fault : Option Machine.Fault)
    (ended : fault.isSome ∨ program.processor.state.halted = true) :
    ({ s with mode, program := before } : Session).settle program fault =
      s.settle program fault := by
  unfold settle
  cases fault with
  | some f => rfl
  | none =>
    have halted : program.processor.state.halted = true := by simpa using ended
    simp only [halted, ↓reduceIte]
    rfl

/-- A cycle that neither fails nor halts leaves the session stepping. -/
theorem settle_stepping (s : Session) (a : Assembly) (p q : Processor)
    (running : q.state.halted = false) :
    (s.stepping a p).settle ⟨a, q⟩ none = s.stepping a q := by
  unfold settle
  simp only [running, Bool.false_eq_true, ↓reduceIte]
  rfl

theorem loadIfEditing_stepping (s : Session) (a : Assembly) (p : Processor) :
    (s.stepping a p).loadIfEditing = (s.stepping a p, true) := rfl

theorem step_stepping (s : Session) (a : Assembly) (p : Processor) :
    (s.stepping a p).step =
      (s.stepping a p).settle ⟨a, (p.step fun _ => s.ports).1⟩ (p.step fun _ => s.ports).2 :=
  step_of_entered (loadIfEditing_stepping s a p) rfl

/-- A run is over when it returns, so it does not show that the session has been stepping. -/
theorem run_stepping (s : Session) (a : Assembly) (p : Processor) :
    (s.stepping a p).run =
      (s.loaded a).settle ⟨a, (p.run fun _ => s.ports).1⟩ (p.run fun _ => s.ports).2 := by
  rw [run_of_entered (loadIfEditing_stepping s a p) rfl]
  exact settle_over (s.loaded a) .running _ _ _ (p.over_of_run _)

/-- The first step and the run both begin with loading the program. -/
theorem step_editing (editing : s.mode = .editing)
    (compiled : Assembly.ofSource s.source = .ok a) :
    s.step = (s.stepping a (Processor.load a.words)).step := by
  have stepped : (s.loaded a).mode.stepped = .stepping := by
    change s.mode.stepped = .stepping
    rw [editing]
    rfl
  rw [step_stepping, step_of_entered (loadIfEditing_editing editing compiled) rfl, stepped]
  rfl

theorem run_editing (editing : s.mode = .editing)
    (compiled : Assembly.ofSource s.source = .ok a) :
    s.run = (s.stepping a (Processor.load a.words)).run := by
  rw [run_stepping, run_of_entered (loadIfEditing_editing editing compiled) rfl]
  exact settle_over (s.loaded a) .running _ _ _ (Processor.over_of_run _ _)

/-- As long as cycles succeed and do not halt, that many steps are that many cycles. -/
theorem iterate_step_stepping (s : Session) (a : Assembly) (p : Processor) (n : Nat)
    (proceeds : p.Proceeds (fun _ => s.ports) n)
    (running : (p.stepped (fun _ => s.ports) n).state.halted = false) :
    Nat.iterate step n (s.stepping a p) = s.stepping a (p.stepped (fun _ => s.ports) n) := by
  induction n with
  | zero => rfl
  | succ n ih =>
    have advances := proceeds n (Nat.lt_succ_self n)
    rw [Function.iterate_succ_apply', ih (proceeds.mono (Nat.le_succ n)) advances.running,
      step_stepping, advances.success]
    rw [Processor.stepped_succ] at running ⊢
    exact settle_stepping s a _ _ running

/-- The step that ends the program comes to where the run ends. -/
theorem iterate_step_last (s : Session) (a : Assembly) (p : Processor) (n : Nat)
    (proceeds : p.Proceeds (fun _ => s.ports) n)
    (running : (p.stepped (fun _ => s.ports) n).state.halted = false)
    (last : ((p.stepped (fun _ => s.ports) n).step fun _ => s.ports) = p.run fun _ => s.ports) :
    Nat.iterate step (n + 1) (s.stepping a p) = (s.stepping a p).run := by
  rw [Function.iterate_succ_apply', iterate_step_stepping s a p n proceeds running, step_stepping,
    last, run_stepping]
  exact settle_over (s.loaded a) .stepping _ _ _ (p.over_of_run _)

/-- A run takes up where the cycles before it have left the program. -/
theorem run_resumes (s : Session) (a : Assembly) (p : Processor) (n : Nat)
    (proceeds : p.Proceeds (fun _ => s.ports) n) :
    (s.stepping a (p.stepped (fun _ => s.ports) n)).run = (s.stepping a p).run := by
  rw [run_stepping, run_stepping, proceeds.run]

/-- From the first step on it makes no difference that the program had to be loaded. -/
theorem iterate_step_editing (editing : s.mode = .editing)
    (compiled : Assembly.ofSource s.source = .ok a) (n : Nat) :
    Nat.iterate step (n + 1) s =
      Nat.iterate step (n + 1) (s.stepping a (Processor.load a.words)) := by
  rw [Function.iterate_succ_apply, Function.iterate_succ_apply, step_editing editing compiled]

end

/-- Where the run of a text that is being edited does not come to the ceiling, some number of steps
has exactly its effect on the whole session, and both return to editing. Each step before the last
is one more cycle of the processor that was loaded by the first, and leaves the session stepping. A
run after any of them goes on from there to the end of the whole run. -/
theorem steps_agree_with_run (s : Session) (a : Assembly) (editing : s.mode = .editing)
    (compiled : Assembly.ofSource s.source = .ok a)
    (ends : ∀ cycles,
      ((Processor.load a.words).run fun _ => s.ports).2 ≠ some (.cycleTimeout cycles)) :
    ∃ n, 1 ≤ n ∧ Nat.iterate step n s = s.run ∧ s.run.mode = .editing ∧
      s.run.program = some ⟨a, ((Processor.load a.words).run fun _ => s.ports).1⟩ ∧
      (∀ k, 0 < k → k ≤ n → (Nat.iterate step k s).program =
        some ⟨a, (Processor.load a.words).stepped (fun _ => s.ports) k⟩) ∧
      (∀ k, 0 < k → k < n → (Nat.iterate step k s).mode = .stepping) ∧
      ∀ k < n, (Nat.iterate step k s).run = s.run := by
  have fresh : (Processor.load a.words).state.halted = false := rfl
  -- The processor is only known by its cycles from here on.
  have whole := run_editing editing compiled
  have steps := iterate_step_editing editing compiled
  generalize Processor.load a.words = p at *
  obtain ⟨m, proceeds, running, last⟩ := p.exists_last_cycle _ fresh ends
  have before : ∀ k, k < m → Nat.iterate step (k + 1) s =
      s.stepping a (p.stepped (fun _ => s.ports) (k + 1)) := by
    intro k less
    rw [steps]
    apply iterate_step_stepping s a p (k + 1) (proceeds.mono less)
    rcases Nat.lt_or_eq_of_le less with earlier | rfl
    · exact (proceeds (k + 1) earlier).running
    · exact running
  have final : Nat.iterate step (m + 1) s = s.run := by
    rw [steps, iterate_step_last s a p m proceeds running last, whole]
  have program : s.run.program = some ⟨a, (p.run fun _ => s.ports).1⟩ := by
    rw [whole, run_stepping, settle_program]
  refine ⟨m + 1, Nat.succ_le_succ (Nat.zero_le m), final, ?_, program, ?_, ?_, ?_⟩
  · rw [whole, run_stepping, settle_mode, if_pos (p.over_of_run _)]
  · rintro (_ | k) positive within
    · cases positive
    · rcases Nat.lt_or_eq_of_le (Nat.le_of_succ_le_succ within) with earlier | rfl
      · rw [before k earlier]
        rfl
      · rw [final, program, ← last, Processor.stepped_succ]
  · rintro (_ | k) positive less
    · cases positive
    · rw [before k (Nat.lt_of_succ_lt_succ less)]
      rfl
  · rintro (_ | k) less
    · rfl
    · have earlier := Nat.lt_of_succ_lt_succ less
      rw [before k earlier, run_resumes s a p (k + 1) (proceeds.mono earlier), whole]

/-- A session in which a program has been run before the text is changed to one that reads a port
and fails. -/
def resumed : Session :=
  ((start "NOP".toList).run.setPorts ⟨7, 0⟩).edit "RINW,1\nWOUTW,2\nMOVFW 5000".toList

/-- Two steps leave it stepping, and a run behind them comes to the same fault, in the third cycle,
as a run without them. -/
theorem resumed_steps_to_fault :
    ∃ a, Assembly.ofSource resumed.source = .ok a ∧ resumed.mode = .editing ∧
      ((Processor.load a.words).run fun _ => resumed.ports).2 = some (.memoryOutOfBounds 5000 3) ∧
      (Nat.iterate step 2 resumed).mode = .stepping ∧
      (Nat.iterate step 2 resumed).run = resumed.run ∧
      (Nat.iterate step 2 resumed).run.logs =
        ["Assembled 2 words. Processor reset and loaded.", "Halted after 2 cycles.",
          "Assembled 4 words. Processor reset and loaded.",
          "Stopped: memory access at 5000 is out of bounds (pc 3)"] := by
  have facts : ∃ a, Assembly.ofSource resumed.source = .ok a ∧
      ((Processor.load a.words).run fun _ => resumed.ports).2 =
        some (.memoryOutOfBounds 5000 3) := by
    decide +kernel
  obtain ⟨a, compiled, fault⟩ := facts
  have editing : resumed.mode = .editing := rfl
  have ends : ∀ cycles, ((Processor.load a.words).run fun _ => resumed.ports).2 ≠
      some (.cycleTimeout cycles) := by
    rw [fault]
    nofun
  have stepping : (Nat.iterate step 1 resumed).mode = .stepping ∧
      (Nat.iterate step 2 resumed).mode = .stepping := by
    decide +kernel
  have logs : resumed.run.logs =
      ["Assembled 2 words. Processor reset and loaded.", "Halted after 2 cycles.",
        "Assembled 4 words. Processor reset and loaded.",
        "Stopped: memory access at 5000 is out of bounds (pc 3)"] := by
    decide +kernel
  obtain ⟨n, positive, final, ended, _, _, _, resumes⟩ :=
    steps_agree_with_run resumed a editing compiled ends
  have beyond : 2 < n := by
    rw [← final] at ended
    by_contra few
    obtain rfl | rfl : n = 1 ∨ n = 2 := by omega
    · rw [stepping.1] at ended
      cases ended
    · rw [stepping.2] at ended
      cases ended
  have same := resumes 2 beyond
  exact ⟨a, compiled, editing, fault, stepping.2, same, by rw [same]; exact logs⟩

end Accumulator.Stepper.Session
