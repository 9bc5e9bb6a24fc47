import Accumulator.Proofs.Machine.Bounds

set_option autoImplicit false

/-!
A run is its cycles, taken one by one, and each of them may break off. The cycles that come before the
last make up `Traverses`, and `Ends` lists what the last one can be. From any of these cycles the run
can be taken up again, and so it can at its ceiling.
-/

namespace Accumulator.Machine.Processor

/-- The processor after a number of calls of `step?`, whatever faults they end in, unless one of them
breaks off. -/
def stepped? (p : Processor) (input : Input) : Nat → Option Processor
  | 0 => some p
  | n + 1 => (p.step? input).bind fun taken => taken.1.stepped? input n

/-- A run goes on for some cycles, which all succeed, and leaves these states after each of them. -/
inductive Traverses (input : Input) : Processor → List State → Processor → Prop
  | refl (p : Processor) : Traverses input p [] p
  | cycle {p q r : Processor} {states : List State} (running : p.state.halted = false)
      (below : p.state.cycles < p.limit) (success : p.step? input = some (q, none))
      (rest : Traverses input q states r) : Traverses input p (q.state :: states) r

/-- A run ends here: the machine has halted, the counter is at the ceiling, the next cycle fails, or it
breaks off and there is no result. -/
inductive Ends (p : Processor) (input : Input) : Option (Processor × Option Fault) → Prop
  | halted (halted : p.state.halted = true) : Ends p input (some (p, none))
  | timedOut (running : p.state.halted = false) (reached : p.limit ≤ p.state.cycles) :
      Ends p input (some (p, some (.cycleTimeout p.state.cycles)))
  | failed (f : Fault) (q : Processor) (running : p.state.halted = false)
      (below : p.state.cycles < p.limit) (failure : p.step? input = some (q, some f)) :
      Ends p input (some (q, some f))
  | broken (running : p.state.halted = false) (below : p.state.cycles < p.limit)
      (breaks : p.step? input = none) : Ends p input none

section Cycles

variable {p q : Processor} {input : Input} {fault : Option Fault}

theorem step?_cases (p : Processor) (input : Input) :
    p.step? input = none ∨ p.step? input = some (p.step input) := by
  unfold step? step
  rcases Machine.step?_cases p.code input p.state with broken | taken
  · simp [broken]
  · simp [taken]

theorem step?_eq_none_iff :
    p.step? input = none ↔ Machine.step? p.code input p.state = none :=
  Option.map_eq_none_iff

theorem step_of_step? (taken : p.step? input = some (q, fault)) : p.step input = (q, fault) := by
  rcases p.step?_cases input with broken | same
  · rw [broken] at taken
    cases taken
  · rw [same] at taken
    exact Option.some.inj taken

theorem step?_limit (taken : p.step? input = some (q, fault)) : q.limit = p.limit := by
  have same := step_of_step? taken
  unfold step at same
  cases same
  rfl

theorem step?_counts (running : p.state.halted = false) (success : p.step? input = some (q, none)) :
    q.state.cycles = p.state.cycles + 1 := by
  have same := step_of_step? success
  have counted := step_counts running (congrArg Prod.snd same)
  rw [same] at counted
  exact counted

/-- The ceiling is of no importance to single cycles. -/
theorem step?_withLimit (limit : Nat) (taken : p.step? input = some (q, fault)) :
    ({ p with limit } : Processor).step? input = some ({ q with limit }, fault) := by
  unfold step? at taken ⊢
  obtain ⟨outcome, done, same⟩ := Option.map_eq_some_iff.mp taken
  cases same
  simp [done]

theorem cycle_or_ends (p : Processor) (input : Input) :
    (p.state.halted = false ∧ p.state.cycles < p.limit ∧ ∃ q, p.step? input = some (q, none)) ∨
      ∃ result, p.Ends input result := by
  cases running : p.state.halted with
  | true => exact .inr ⟨_, .halted running⟩
  | false =>
    by_cases reached : p.limit ≤ p.state.cycles
    · exact .inr ⟨_, .timedOut running reached⟩
    · have below : p.state.cycles < p.limit := by omega
      cases taken : p.step? input with
      | none => exact .inr ⟨_, .broken running below taken⟩
      | some result =>
        obtain ⟨q, fault⟩ := result
        cases fault with
        | none => exact .inl ⟨rfl, below, q, rfl⟩
        | some f => exact .inr ⟨_, .failed f q running below taken⟩

end Cycles

section Runs

variable {α : Type} {p q r : Processor} {input : Input} {states : List State}
  {result : Option (Processor × Option Fault)}

/-- A run takes one cycle after the other as long as it can. -/
theorem runObserving?_eq (p : Processor) (observe : α → State → α) (seen : α) (input : Input) :
    p.runObserving? observe seen input =
      if p.state.halted then some (seen, p, none)
      else if p.limit ≤ p.state.cycles then some (seen, p, some (.cycleTimeout p.state.cycles))
      else
        match p.step? input with
        | none => none
        | some (next, none) => next.runObserving? observe (observe seen next.state) input
        | some (next, some f) => some (seen, next, some f) := by
  unfold runObserving? step?
  by_cases halted : p.state.halted = true
  · rw [if_pos halted]
    cases p.limit - p.state.cycles <;>
      simp [Machine.runObserving?, halted, Outcome.state, Outcome.fault?]
  · rw [if_neg halted]
    by_cases reached : p.limit ≤ p.state.cycles
    · rw [if_pos reached, Nat.sub_eq_zero_of_le reached]
      simp [Machine.runObserving?, halted, Outcome.state, Outcome.fault?]
    · rw [if_neg reached]
      obtain ⟨budget, room⟩ : ∃ budget, p.limit - p.state.cycles = budget + 1 :=
        ⟨p.limit - p.state.cycles - 1, by omega⟩
      rw [room]
      rcases Machine.step?_cases p.code input p.state with broken | taken
      · simp [Machine.runObserving?, halted, broken]
      · cases done : Machine.step p.code input p.state with
        | ok next =>
          -- The cycle counts, so what is left of the budget is the room below the ceiling again.
          have running : p.state.halted = false := by simpa using halted
          have counted := step_cycles p.code input p.state next running done
          have fewer : p.limit - next.cycles = budget := by omega
          simp [Machine.runObserving?, halted, taken, done, Outcome.state, Outcome.fault?, fewer]
        | failed f next =>
          simp [Machine.runObserving?, halted, taken, done, Outcome.state, Outcome.fault?]

/-- A run from a processor that it gets to is the rest of the whole run. -/
theorem Traverses.runObserving? (traversed : p.Traverses input states q)
    (observe : α → State → α) (seen : α) :
    p.runObserving? observe seen input =
      q.runObserving? observe (states.foldl observe seen) input := by
  induction traversed generalizing seen with
  | refl p => rfl
  | cycle running below success rest ih =>
    rw [runObserving?_eq, if_neg (by simp [running]), if_neg (by omega), success]
    exact ih _

theorem Ends.runObserving? (ends : p.Ends input result) (observe : α → State → α) (seen : α) :
    p.runObserving? observe seen input = result.map (Prod.mk seen) := by
  rw [runObserving?_eq]
  cases ends with
  | halted halted => rw [if_pos halted]; rfl
  | timedOut running reached => rw [if_neg (by simp [running]), if_pos reached]; rfl
  | failed f q running below failure =>
    rw [if_neg (by simp [running]), if_neg (by omega), failure]; rfl
  | broken running below breaks =>
    rw [if_neg (by simp [running]), if_neg (by omega), breaks]; rfl

theorem Traverses.run? (traversed : p.Traverses input states q) : p.run? input = q.run? input := by
  unfold Processor.run?
  rw [traversed.runObserving?]

theorem Ends.run? (ends : p.Ends input result) : p.run? input = result := by
  unfold Processor.run?
  rw [ends.runObserving?]
  cases result <;> rfl

/-- Every cycle leaves less room below the ceiling, so there is a last one. -/
theorem exists_ends (p : Processor) (input : Input) :
    ∃ states q result, p.Traverses input states q ∧ q.Ends input result := by
  induction room : p.limit - p.state.cycles using Nat.strongRecOn generalizing p with
  | ind room ih =>
    rcases p.cycle_or_ends input with ⟨running, below, q, success⟩ | ⟨result, ends⟩
    · have counted := step?_counts running success
      have limit := step?_limit success
      obtain ⟨states, r, result, rest, ends⟩ := ih (q.limit - q.state.cycles) (by omega) q rfl
      exact ⟨q.state :: states, r, result, .cycle running below success rest, ends⟩
    · exact ⟨[], p, result, .refl p, ends⟩

theorem Traverses.stepped? (traversed : p.Traverses input states q) :
    p.stepped? input states.length = some q := by
  induction traversed with
  | refl p => rfl
  | cycle running below success rest ih =>
    simp only [List.length_cons, Processor.stepped?, success]
    exact ih

theorem Traverses.take (traversed : p.Traverses input states r) (k : Nat) :
    ∃ q, p.Traverses input (states.take k) q := by
  induction traversed generalizing k with
  | refl p => exact ⟨p, by simpa using Traverses.refl p⟩
  | cycle running below success rest ih =>
    cases k with
    | zero => exact ⟨_, .refl _⟩
    | succ k =>
      obtain ⟨q, first⟩ := ih k
      exact ⟨q, .cycle running below success first⟩

/-- What every cycle keeps holds wherever calls of `step?` lead to. -/
theorem stepped?_invariant (invariant : Processor → Prop)
    (kept : ∀ p q fault, invariant p → p.step? input = some (q, fault) → invariant q) (n : Nat)
    (start : invariant p) (reached : p.stepped? input n = some q) : invariant q := by
  induction n generalizing p with
  | zero =>
    cases reached
    exact start
  | succ n ih =>
    unfold stepped? at reached
    obtain ⟨⟨next, fault⟩, taken, rest⟩ := Option.bind_eq_some_iff.mp reached
    exact ih (kept p next fault start taken) rest

theorem Traverses.limit (traversed : p.Traverses input states q) : q.limit = p.limit := by
  induction traversed with
  | refl p => rfl
  | cycle running below success rest ih => rw [ih, step?_limit success]

/-- The counter gets to the ceiling at most, unless it was higher from the start. -/
theorem Traverses.cycles (traversed : p.Traverses input states q) :
    p.state.cycles ≤ q.state.cycles ∧ q.state.cycles ≤ max p.limit p.state.cycles := by
  induction traversed with
  | refl p => omega
  | cycle running below success rest ih =>
    have counted := step?_counts running success
    have limit := step?_limit success
    omega

/-- At its ceiling a run is where the cycles before have led. -/
theorem Traverses.at_ceiling {cycles : Nat} (traversed : p.Traverses input states q)
    (ends : q.Ends input (some (r, some (.cycleTimeout cycles)))) :
    r = q ∧ cycles = max p.limit p.state.cycles := by
  have bounds := traversed.cycles
  have limit := traversed.limit
  cases ends with
  | timedOut running reached => exact ⟨rfl, by omega⟩
  | failed _ _ _ _ failure =>
    exact absurd (congrArg Prod.snd (step_of_step? failure)) (step_not_timeout _ input _ cycles)

theorem Traverses.withLimit (traversed : p.Traverses input states q) {larger : Nat}
    (higher : p.limit ≤ larger) :
    ({ p with limit := larger } : Processor).Traverses input states { q with limit := larger } := by
  induction traversed with
  | refl p => exact .refl _
  | @cycle p q r states running below success rest ih =>
    have limit := step?_limit success
    have taken := step?_withLimit larger success
    exact .cycle (q := { q with limit := larger }) running (Nat.lt_of_lt_of_le below higher) taken
      (ih (by omega))

/-- A run that has come to its ceiling goes on under a higher one as if it had been there from the
start. -/
theorem run?_resumes {q : Processor} {cycles larger : Nat} (observe : α → State → α) (seen : α)
    (timedOut : p.run? input = some (q, some (.cycleTimeout cycles))) (higher : p.limit ≤ larger) :
    ({ q with limit := larger } : Processor).run? input =
        ({ p with limit := larger } : Processor).run? input ∧
      ∃ before, p.runObserving? observe seen input = some (before, q, some (.cycleTimeout cycles)) ∧
        ({ q with limit := larger } : Processor).runObserving? observe before input =
          ({ p with limit := larger } : Processor).runObserving? observe seen input := by
  obtain ⟨states, r, result, traversed, ends⟩ := p.exists_ends input
  rw [traversed.run?, ends.run?] at timedOut
  subst timedOut
  obtain ⟨rfl, _⟩ := traversed.at_ceiling ends
  have further := traversed.withLimit higher
  refine ⟨further.run?.symm, states.foldl observe seen, ?_, (further.runObserving? _ _).symm⟩
  rw [traversed.runObserving?, ends.runObserving?]
  rfl

end Runs

end Accumulator.Machine.Processor
