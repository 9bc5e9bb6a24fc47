import Accumulator.Proofs.Machine.Failure

set_option autoImplicit false

/-!
Runs under a ceiling, with addresses of any size, are cycles taken one by one: a run goes on while the
machine has not halted, the counter is below the ceiling and the cycle succeeds. So a run that is cut
somewhere by single cycles goes on to the end of the whole one.
-/

namespace Accumulator.Machine

/-- A cycle that succeeds counts, unless the machine has halted before. -/
theorem step_cycles (code : Code) (input : Input) (s next : State) (running : s.halted = false)
    (success : step code input s = .ok next) : next.cycles = s.cycles + 1 := by
  cases pending : s.pending? code with
  | none =>
    unfold step at success
    unfold State.pending? at pending
    simp only [running, Bool.false_eq_true, ↓reduceIte, Option.bind_eq_none_iff,
      Option.map_eq_none_iff] at success pending
    split at success
    · cases success
    · rename_i word fetched
      simp only [pending word fetched] at success
      cases success
  | some carried =>
    obtain ⟨operation, literal⟩ := carried
    have counted := (execute_spares (s.sample input) operation literal).cycles
    rw [← step_of_pending code input s operation literal pending, success] at counted
    exact counted

namespace Processor

/-- The processor after a number of calls of `step`. -/
def stepped (p : Processor) (input : Input) (n : Nat) : Processor :=
  Nat.iterate (fun q => (q.step input).1) n p

/-- A run goes on from here, and the next cycle succeeds. -/
structure Advances (p : Processor) (input : Input) : Prop where
  running : p.state.halted = false
  below : p.state.cycles < p.limit
  success : (p.step input).2 = none

/-- A run ends here: the machine has halted, the counter is at the ceiling, or the next cycle
fails. -/
inductive Stops (p : Processor) (input : Input) : Processor → Option Fault → Prop
  | halted (halted : p.state.halted = true) : Stops p input p none
  | timedOut (running : p.state.halted = false) (reached : p.limit ≤ p.state.cycles) :
      Stops p input p (some (.cycleTimeout p.state.cycles))
  | failed (f : Fault) (running : p.state.halted = false) (below : p.state.cycles < p.limit)
      (failure : (p.step input).2 = some f) : Stops p input (p.step input).1 (some f)

/-- A run goes on for a number of cycles, which all succeed. -/
def Proceeds (p : Processor) (input : Input) (n : Nat) : Prop :=
  ∀ k < n, (p.stepped input k).Advances input

@[simp] theorem stepped_zero (p : Processor) (input : Input) : p.stepped input 0 = p := rfl

theorem stepped_succ (p : Processor) (input : Input) (n : Nat) :
    p.stepped input (n + 1) = ((p.stepped input n).step input).1 :=
  Function.iterate_succ_apply' _ n p

@[simp] theorem stepped_limit (p : Processor) (input : Input) (n : Nat) :
    (p.stepped input n).limit = p.limit := by
  induction n with
  | zero => rfl
  | succ n ih =>
    rw [stepped_succ]
    exact ih

@[simp] theorem stepped_code (p : Processor) (input : Input) (n : Nat) :
    (p.stepped input n).code = p.code := by
  induction n with
  | zero => rfl
  | succ n ih =>
    rw [stepped_succ]
    exact ih

theorem Proceeds.mono {p : Processor} {input : Input} {m n : Nat} (proceeds : p.Proceeds input n)
    (fewer : m ≤ n) : p.Proceeds input m :=
  fun k less => proceeds k (Nat.lt_of_lt_of_le less fewer)

theorem step_counts {p : Processor} {input : Input} (running : p.state.halted = false)
    (success : (p.step input).2 = none) :
    (p.step input).1.state.cycles = p.state.cycles + 1 := by
  unfold step at success ⊢
  cases done : Machine.step p.code input p.state with
  | ok next => exact step_cycles p.code input p.state next running done
  | failed f next =>
    rw [done] at success
    cases success

theorem Proceeds.counts {p : Processor} {input : Input} {n : Nat}
    (proceeds : p.Proceeds input n) : (p.stepped input n).state.cycles = p.state.cycles + n := by
  induction n with
  | zero => rfl
  | succ n ih =>
    have advances := proceeds n (Nat.lt_succ_self n)
    rw [stepped_succ, step_counts advances.running advances.success,
      ih (proceeds.mono (Nat.le_succ n)), Nat.add_assoc]

theorem advances_or_stops (p : Processor) (input : Input) :
    p.Advances input ∨ ∃ q fault, p.Stops input q fault := by
  by_cases halted : p.state.halted = true
  · exact .inr ⟨_, _, .halted halted⟩
  · have running : p.state.halted = false := by simpa using halted
    by_cases reached : p.limit ≤ p.state.cycles
    · exact .inr ⟨_, _, .timedOut running reached⟩
    · have below : p.state.cycles < p.limit := by omega
      cases result : (p.step input).2 with
      | none => exact .inl ⟨running, below, result⟩
      | some f => exact .inr ⟨_, _, .failed f running below result⟩

/-- A run takes one cycle after the other as long as it can. -/
theorem run_eq (p : Processor) (input : Input) :
    p.run input =
      if p.state.halted then (p, none)
      else if p.limit ≤ p.state.cycles then (p, some (.cycleTimeout p.state.cycles))
      else
        match p.step input with
        | (next, none) => next.run input
        | (next, some f) => (next, some f) := by
  unfold run runObserving step
  by_cases halted : p.state.halted = true
  · rw [if_pos halted]
    cases p.limit - p.state.cycles <;>
      simp [Machine.runObserving, halted, Outcome.state, Outcome.fault?]
  · rw [if_neg halted]
    by_cases reached : p.limit ≤ p.state.cycles
    · rw [if_pos reached, Nat.sub_eq_zero_of_le reached]
      simp [Machine.runObserving, halted, Outcome.state, Outcome.fault?]
    · rw [if_neg reached]
      obtain ⟨budget, room⟩ : ∃ budget, p.limit - p.state.cycles = budget + 1 :=
        ⟨p.limit - p.state.cycles - 1, by omega⟩
      rw [room]
      cases done : Machine.step p.code input p.state with
      | ok next =>
        have running : p.state.halted = false := by simpa using halted
        have counted := step_cycles p.code input p.state next running done
        have fewer : p.limit - next.cycles = budget := by omega
        simp [Machine.runObserving, halted, done, Outcome.state, Outcome.fault?, fewer]
      | failed f next => simp [Machine.runObserving, halted, done, Outcome.state, Outcome.fault?]

/-- A run from the processor after some of the cycles ends as the whole run does. -/
theorem Proceeds.run {p : Processor} {input : Input} {n : Nat} (proceeds : p.Proceeds input n) :
    (p.stepped input n).run input = p.run input := by
  induction n with
  | zero => rfl
  | succ n ih =>
    obtain ⟨running, below, success⟩ := proceeds n (Nat.lt_succ_self n)
    have result : (p.stepped input n).step input = (((p.stepped input n).step input).1, none) :=
      Prod.ext rfl success
    rw [← ih (proceeds.mono (Nat.le_succ n)), run_eq (p.stepped input n), if_neg (by simp [running]),
      if_neg (by omega), result, stepped_succ]

/-- Every run ends: it proceeds for as many cycles as asked for, or it stops before. -/
theorem proceeds_or_stops (p : Processor) (input : Input) (n : Nat) :
    p.Proceeds input n ∨
      ∃ k < n, p.Proceeds input k ∧ ∃ q fault, (p.stepped input k).Stops input q fault := by
  induction n with
  | zero => exact .inl nofun
  | succ n ih =>
    rcases ih with proceeds | ⟨k, less, proceeds, stops⟩
    · rcases (p.stepped input n).advances_or_stops input with advances | stops
      · left
        intro k less
        rcases Nat.lt_succ_iff_lt_or_eq.mp less with earlier | rfl
        · exact proceeds k earlier
        · exact advances
      · exact .inr ⟨n, Nat.lt_succ_self n, proceeds, stops⟩
    · exact .inr ⟨k, by omega, proceeds, stops⟩

theorem exists_stops (p : Processor) (input : Input) :
    ∃ n q fault, p.Proceeds input n ∧ (p.stepped input n).Stops input q fault := by
  rcases p.proceeds_or_stops input (p.limit + 1) with proceeds | ⟨k, _, proceeds, q, fault, stops⟩
  · have counted := (proceeds.mono (Nat.le_succ p.limit)).counts
    have below := (proceeds p.limit (Nat.lt_succ_self _)).below
    rw [stepped_limit] at below
    omega
  · exact ⟨k, q, fault, proceeds, stops⟩

theorem Stops.run {p q : Processor} {input : Input} {fault : Option Fault} {n : Nat}
    (stops : (p.stepped input n).Stops input q fault) (proceeds : p.Proceeds input n) :
    p.run input = (q, fault) := by
  rw [← proceeds.run, run_eq]
  cases stops with
  | halted halted => rw [if_pos halted]
  | timedOut running reached => rw [if_neg (by simp [running]), if_pos reached]
  | failed f running below failure =>
    have result : (p.stepped input n).step input = (((p.stepped input n).step input).1, some f) :=
      Prod.ext rfl failure
    rw [if_neg (by simp [running]), if_neg (by omega), result]

/-- A run is over when it returns: with a fault, or in a state that has halted. -/
theorem over_of_run (p : Processor) (input : Input) :
    (p.run input).2.isSome ∨ (p.run input).1.state.halted = true := by
  obtain ⟨n, q, fault, proceeds, stops⟩ := p.exists_stops input
  rw [stops.run proceeds]
  cases stops with
  | halted halted => exact .inr halted
  | timedOut | failed => exact .inl rfl

end Processor

end Accumulator.Machine
