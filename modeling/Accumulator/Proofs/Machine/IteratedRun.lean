import Accumulator.Proofs.Machine.FrameGrowth

set_option autoImplicit false

/-!
The runs of programs. Nothing but a call can break a program off, and in all other ways its runs are
made of the cycles that single steps take.
-/

namespace Accumulator.Machine

/-- The next cycle is a call, and the frame of the function would begin out of bounds. -/
def State.CallsBeyond (code : Code) (s : State) : Prop :=
  (∃ literal, s.pending? code = some (.call, literal)) ∧ addressBound ≤ s.frameBase + s.frameSize

/-- Only a call puts the base of the frame up, and by the size of the frame. -/
theorem Control.Step.frameBase_le {c d : Control} {operation : Operation} {literal : BitVec 24}
    {fault : Option Fault} (nested : c.Nested) (stepped : Control.Step operation literal c fault d) :
    d.frameBase ≤ c.frameBase ∨ operation = .call ∧ d.frameBase = c.frameEnd := by
  cases stepped with
  | failed | halt | plain | declare | goto | compare => exact .inl (Nat.le_refl _)
  | call isCall => exact .inr ⟨isCall, rfl⟩
  | leave returns target base calls frames called framed =>
    left
    unfold Control.frameBase
    rw [framed]
    exact nested.below_le framed

theorem step_frameBase_cases (code : Code) (input : Input) (s : State) (nested : s.control.Nested) :
    (step code input s).state.frameBase ≤ s.frameBase ∨
      (∃ literal, s.pending? code = some (.call, literal)) ∧
        (step code input s).state.frameBase = s.frameBase + s.frameSize := by
  rcases step_control code input s with idle | ⟨operation, literal, pending, stepped⟩
  · rw [idle]
    exact .inl (Nat.le_refl _)
  · rcases stepped.frameBase_le nested with lower | ⟨rfl, higher⟩
    · exact .inl lower
    · exact .inr ⟨⟨literal, pending⟩, higher⟩

namespace Processor

section Executes

variable {words : List Word} {input : Input} {p q : Processor} {fault : Option Fault}

/-- What is known of a processor that single cycles get to: it executes the same words, in a state of
theirs, and its frame begins in bounds. -/
structure Executes (words : List Word) (input : Input) (p : Processor) : Prop where
  code : p.code = words.toArray
  reachable : Reachable words input p.state
  frame : p.state.frameBase < addressBound

theorem Executes.step? (executes : Executes words input p)
    (taken : p.step? input = some (q, fault)) : Executes words input q := by
  obtain ⟨code, reachable, frame⟩ := executes
  unfold Processor.step? at taken
  obtain ⟨outcome, done, same⟩ := Option.map_eq_some_iff.mp taken
  obtain ⟨rfl, -⟩ := Prod.mk.inj same
  refine ⟨code, ?_, step?_frameBase frame done⟩
  rcases Machine.step?_cases p.code input p.state with broken | whole
  · cases broken.symm.trans done
  · obtain rfl := Option.some.inj (whole.symm.trans done)
    rw [code]
    exact reachable.after 1

theorem Executes.stepped? {n : Nat} (executes : Executes words input p)
    (reached : p.stepped? input n = some q) : Executes words input q :=
  stepped?_invariant (Executes words input) (fun _ _ _ now taken => now.step? taken) n executes
    reached

theorem executes_load (words : List Word) (input : Input) (limit : Nat) :
    Executes words input { Processor.load words with limit } := by
  refine ⟨rfl, ⟨0, rfl⟩, ?_⟩
  show 0 < addressBound
  decide

/-- Nothing but a call breaks a program off, unless it has as many words as there are addresses. -/
theorem Executes.breaks_iff (executes : Executes words input p)
    (short : words.length + 17 < addressBound) :
    p.step? input = none ↔ p.state.CallsBeyond p.code := by
  obtain ⟨code, reachable, frame⟩ := executes
  rw [step?_eq_none_iff, code]
  constructor
  · intro breaks
    by_contra calls
    -- Without such a call the next frame begins in bounds, and addresses of words always are.
    have fits : (Machine.step words.toArray input p.state).state.frameBase < addressBound := by
      rcases step_frameBase_cases words.toArray input p.state reachable.nested with
        lower | ⟨calling, higher⟩
      · exact Nat.lt_of_le_of_lt lower frame
      · rw [higher]
        by_contra beyond
        exact calls ⟨calling, Nat.not_lt.mp beyond⟩
    cases breaks.symm.trans (reachable.step?_of_frame short fits)
  · rintro ⟨⟨literal, calling⟩, beyond⟩
    exact step?_of_call calling beyond

theorem Executes.run?_eq_none_iff (executes : Executes words input p)
    (short : words.length + 17 < addressBound) :
    p.run? input = none ↔ ∃ states q, p.Traverses input states q ∧ q.state.cycles < q.limit ∧
      q.state.CallsBeyond q.code := by
  constructor
  · intro broken
    obtain ⟨states, q, result, traversed, ends⟩ := p.exists_ends input
    rw [traversed.run?, ends.run?] at broken
    subst broken
    cases ends with
    | broken running below breaks =>
      have there := executes.stepped? traversed.stepped?
      exact ⟨states, q, traversed, below, (there.breaks_iff short).mp breaks⟩
  · rintro ⟨states, q, traversed, below, beyond⟩
    obtain ⟨literal, calling⟩ := beyond.1
    have running := ((pending_eq_some_iff q.code q.state .call literal).mp calling).1
    have there := executes.stepped? traversed.stepped?
    have breaks := (there.breaks_iff short).mpr beyond
    rw [traversed.run?, (Ends.broken running below breaks).run?]

end Executes

section Whole

variable {α : Type}

/-- A run ends, after cycles that all succeed from states below the ceiling that have not halted: in
the first state that has halted, with the first fault, at the ceiling, or without a result where the
next cycle breaks off. The observer sees the state after each of these cycles once, in their order. A
run after some of the cycles goes on to the same end, and so does a run with a higher ceiling after one
that came to its ceiling. The run of a program breaks off exactly if it comes to a call below the
ceiling whose frame would begin out of bounds. -/
theorem run_iterates_step (p : Processor) (input : Input) (observe : α → State → α) (seen : α) :
    (∃ states q result, p.Traverses input states q ∧ q.Ends input result) ∧
    (∀ states q result, p.Traverses input states q → q.Ends input result →
      p.runObserving? observe seen input = result.map (Prod.mk (states.foldl observe seen)) ∧
      p.run? input = result ∧
      (∀ r cycles, result = some (r, some (.cycleTimeout cycles)) →
        r = q ∧ cycles = max p.limit p.state.cycles) ∧
      ∀ k ≤ states.length, ∃ r, p.Traverses input (states.take k) r ∧ p.stepped? input k = some r ∧
        r.runObserving? observe ((states.take k).foldl observe seen) input =
          p.runObserving? observe seen input ∧
        r.run? input = p.run? input) ∧
    (∀ q cycles larger, p.run? input = some (q, some (.cycleTimeout cycles)) → p.limit ≤ larger →
      ({ q with limit := larger } : Processor).run? input =
        ({ p with limit := larger } : Processor).run? input ∧
      ∃ before, p.runObserving? observe seen input = some (before, q, some (.cycleTimeout cycles)) ∧
        ({ q with limit := larger } : Processor).runObserving? observe before input =
          ({ p with limit := larger } : Processor).runObserving? observe seen input) ∧
    ∀ words limit n, words.length + 17 < addressBound →
      ({ Processor.load words with limit } : Processor).stepped? input n = some p →
      (p.run? input = none ↔ ∃ states q, p.Traverses input states q ∧ q.state.cycles < q.limit ∧
        q.state.CallsBeyond q.code) := by
  refine ⟨p.exists_ends input, ?_, ?_, ?_⟩
  · intro states q result traversed ends
    refine ⟨?_, traversed.run?.trans ends.run?, ?_, ?_⟩
    · rw [traversed.runObserving?, ends.runObserving?]
    · rintro r cycles rfl
      exact traversed.at_ceiling ends
    · intro k within
      obtain ⟨r, first⟩ := traversed.take k
      have reached := first.stepped?
      rw [List.length_take_of_le within] at reached
      exact ⟨r, first, reached, (first.runObserving? observe seen).symm, first.run?.symm⟩
  · intro q cycles larger timedOut higher
    exact run?_resumes observe seen timedOut higher
  · intro words limit n short reached
    have executes := (executes_load words input limit).stepped? reached
    exact executes.run?_eq_none_iff short

/-- Three cycles of work under a ceiling of two. -/
def pausedRun : Processor :=
  { Processor.load [⟨0x01, 0⟩, ⟨0x01, 0⟩, Word.halt] with limit := 2 }

/-- The run comes to its ceiling after two cycles, which the observer sees, without a call on its way.
It goes on from the cycle between them to its end, and under a higher ceiling from there to the halt. -/
theorem pausedRun_resumes :
    let input : Input := fun _ => ⟨0, 0⟩
    ∃ states between cut last, pausedRun.Traverses input states cut ∧
      pausedRun.runObserving? (fun places s => places ++ [s.pc]) [] input =
        some ([2, 3], cut, some (.cycleTimeout 2)) ∧
      pausedRun.stepped? input 1 = some between ∧
      between.run? input = some (cut, some (.cycleTimeout 2)) ∧
      ({ cut with limit := 9 } : Processor).run? input = some (last, none) ∧
      last.state.halted = true ∧
      ¬ ∃ states q, pausedRun.Traverses input states q ∧ q.state.cycles < q.limit ∧
        q.state.CallsBeyond q.code := by
  intro input
  let next := (pausedRun.step input).1
  let cut := (next.step input).1
  let last := (({ cut with limit := 9 } : Processor).step input).1
  have first : pausedRun.step? input = some (next, none) := rfl
  have second : next.step? input = some (cut, none) := rfl
  have whole : ({ pausedRun with limit := 9 } : Processor).run? input = some (last, none) := rfl
  have traversed : pausedRun.Traverses input [next.state, cut.state] cut :=
    .cycle rfl (by decide) first (.cycle rfl (by decide) second (.refl cut))
  have ends : cut.Ends input (some (cut, some (.cycleTimeout 2))) := .timedOut rfl (by decide)
  obtain ⟨_, runs, resumes, breaks⟩ :=
    pausedRun.run_iterates_step input (fun places s => places ++ [s.pc]) []
  obtain ⟨observed, ran, _, cuts⟩ := runs _ cut _ traversed ends
  obtain ⟨between, _, reached, _, rest⟩ := cuts 1 (by decide)
  have resumed := (resumes cut 2 9 ran (by decide)).1
  have calls := breaks [⟨0x01, 0⟩, ⟨0x01, 0⟩, Word.halt] 2 0 (by decide) rfl
  refine ⟨_, between, cut, last, traversed, observed, reached, rest.trans ran, resumed.trans whole,
    rfl, fun beyond => ?_⟩
  rw [calls.mpr beyond] at ran
  cases ran

/-- With the largest frame that a literal can declare, the run of this program under the default
ceiling ends neither in a state that has halted, nor with a fault, nor at its ceiling. -/
theorem deepNesting_breaks_off :
    let p := Processor.load (nesting 0xFFFFFF)
    let input : Input := fun _ => ⟨0, 0⟩
    p.run? input = none ∧ ∃ states q, p.Traverses input states q ∧ q.state.cycles < q.limit ∧
      q.state.CallsBeyond q.code := by
  intro p input
  have field : 0xFFFFFF < literalBound := by decide
  have broken : p.run? input = none :=
    nesting_breaks_off field input (n := 513) (by decide) (by decide) (by decide)
  have executes : Executes (nesting 0xFFFFFF) input p := executes_load _ input defaultLimit
  have short : (nesting 0xFFFFFF).length + 17 < addressBound := by
    show 2 + 17 < addressBound
    decide
  exact ⟨broken, (executes.run?_eq_none_iff short).mp broken⟩

end Whole

end Processor

end Accumulator.Machine
