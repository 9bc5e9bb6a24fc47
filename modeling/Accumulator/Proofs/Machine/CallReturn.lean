import Accumulator.Proofs.Machine.CallFrame

set_option autoImplicit false

/-!
Calls and returns undo each other, in any program. The size of a caller's frame is on no stack: a
return computes it from the two frame bases on top, and finds it again because frames are nested.
-/

namespace Accumulator.Machine

/-- Every pending call has a return address and a frame. -/
def Control.Paired (c : Control) : Prop :=
  c.calls.length = c.frames.length

theorem Control.Paired.step {c d : Control} {operation : Operation} {literal : BitVec 24}
    {fault : Option Fault} (paired : c.Paired)
    (stepped : Control.Step operation literal c fault d) : d.Paired := by
  unfold Control.Paired at paired ⊢
  cases stepped with
  | failed | halt | plain | declare | goto | compare => exact paired
  | call => simp [paired]
  | leave returns target base calls frames called framed =>
    simp only [called, framed, List.length_cons] at paired
    exact Nat.succ.inj paired

theorem Reachable.paired {words : List Word} {input : Input} {s : State}
    (reached : Reachable words input s) : s.control.Paired := by
  apply reached.invariant (fun t => t.control.Paired) rfl
  intro t paired
  rcases step_control words.toArray input t with idle | ⟨operation, literal, _, stepped⟩
  · rw [idle]
    exact paired
  · exact paired.step stepped

/-- The frame that a return uncovers does not begin behind the one that it drops. -/
theorem Control.Nested.below_le {c : Control} {base : Nat} {below : List Nat} (nested : c.Nested)
    (framed : c.frames = base :: below) : below.headD 0 ≤ base := by
  unfold Control.Nested at nested
  rw [framed] at nested
  cases below with
  | nil => exact Nat.zero_le base
  | cons next rest => exact List.rel_of_pairwise_cons nested List.mem_cons_self

theorem Control.Within.deeper {entry c : Control} (within : entry.Within c) :
    entry.calls.length < c.calls.length := by
  obtain ⟨pushed, calls, _, _⟩ := within
  have length := congrArg List.length calls
  simp only [List.length_append, List.length_map, List.length_cons] at length
  omega

/-- The step that ends a call restores the control part from before the call, one word on. -/
theorem Control.Within.returned {entry c d : Control} {operation : Operation}
    {literal : BitVec 24} {fault : Option Fault} (within : entry.Within c)
    (stepped : Control.Step operation literal c fault d)
    (back : d.calls.length ≤ entry.calls.length) :
    d = { entry with pc := entry.pc + 1, halted := c.halted } := by
  have deeper := within.deeper
  cases stepped with
  | failed | halt | plain | declare | goto | compare =>
    have deep : c.calls.length ≤ entry.calls.length := back
    omega
  | call isCall =>
    simp only [List.length_cons] at back
    omega
  | leave returns target base rest below called framed =>
    obtain ⟨pushed, calls, frames, _⟩ := within
    rw [called] at calls deeper
    rw [framed] at frames
    cases pushed with
    | nil =>
      simp only [List.map_nil, List.nil_append, List.cons.injEq] at calls frames
      obtain ⟨rfl, rfl⟩ := calls
      obtain ⟨rfl, rfl⟩ := frames
      have size : entry.frameEnd - entry.frames.headD 0 = entry.frameSize := by
        unfold Control.frameEnd Control.frameBase
        omega
      simp only [size]
    | cons call pushed =>
      simp only [List.map_cons, List.cons_append, List.cons.injEq] at calls
      change rest.length ≤ entry.calls.length at back
      rw [calls.2] at back
      simp only [List.length_append, List.length_map, List.length_cons] at back
      omega

/-- Between a call and the first state that is back at the depth of the caller, all states are
deeper: the depth changes by one at a time. -/
theorem deeper_until_returned (code : Code) (input : Input) (s : State) (literal : BitVec 24)
    (n : Nat) (calling : s.pending? code = some (.call, literal))
    (first : ∀ k, 0 < k → k < n →
      (after code input s k).calls.length ≠ s.calls.length) :
    ∀ k, 0 < k → k < n → s.calls.length < (after code input s k).calls.length := by
  intro k
  induction k using Nat.strongRecOn with
  | ind k ih =>
    intro positive less
    by_cases one : k = 1
    · subst one
      change s.calls.length < (step code input s).state.calls.length
      rw [step_of_pending code input s .call literal calling]
      exact Nat.lt_succ_self _
    · obtain ⟨j, rfl⟩ : ∃ j, k = j + 1 := ⟨k - 1, by omega⟩
      have within := within_of_unreturned code input s literal j calling (by omega)
        fun i above below => ih i (by omega) above (by omega)
      have apart := first (j + 1) positive less
      by_contra shallow
      rcases step_control code input (after code input s j) with
        idle | ⟨operation, carried, _, stepped⟩
      · have deep : s.calls.length < (after code input s j).calls.length := within.deeper
        change ¬ s.calls.length < (step code input (after code input s j)).state.calls.length
          at shallow
        rw [idle] at shallow
        exact shallow deep
      · have same := within.returned stepped (Nat.le_of_not_lt shallow)
        exact apart (congrArg (fun c => c.calls.length) same)

/-- In every state of every program the two stacks have the same length and no frame begins before
the one below it, so a return never cuts the frame size off at zero. The first state after a call
that is as deep as the caller has everything that the call put away: control is at the word behind
the call, and the stacks, the frame base and the frame size are those from before it. -/
theorem return_undoes_call (words : List Word) (input : Input) (s : State)
    (reached : Reachable words input s) :
    s.calls.length = s.frames.length ∧
      s.frames.Pairwise (· ≥ ·) ∧
      (∀ base below, s.frames = base :: below → below.headD 0 ≤ base) ∧
      ∀ (literal : BitVec 24) (n : Nat), s.pending? words.toArray = some (.call, literal) →
        0 < n →
        (∀ k, 0 < k → k < n →
          (after words.toArray input s k).calls.length ≠ s.calls.length) →
        (after words.toArray input s n).calls.length = s.calls.length →
        let t := after words.toArray input s n
        t.pc = s.pc + 1 ∧ t.calls = s.calls ∧ t.frames = s.frames ∧ t.frameBase = s.frameBase ∧
          t.frameSize = s.frameSize := by
  refine ⟨reached.paired, reached.nested, fun base below framed => reached.nested.below_le framed,
    ?_⟩
  intro literal n calling positive first back t
  obtain ⟨m, rfl⟩ : ∃ m, n = m + 1 := ⟨n - 1, by omega⟩
  have unreturned := deeper_until_returned words.toArray input s literal (m + 1) calling first
  have called := step_of_pending words.toArray input s .call literal calling
  have entered : 0 < m := by
    by_contra none
    obtain rfl : m = 0 := by omega
    change (step words.toArray input s).state.calls.length = s.calls.length at back
    rw [called] at back
    exact absurd back (Nat.succ_ne_self _)
  have within := within_of_unreturned words.toArray input s literal m calling entered
    fun k above below => unreturned k above (by omega)
  change (step words.toArray input (after words.toArray input s m)).state.calls.length = _ at back
  have restored : t.control = { s.control with
      pc := s.pc + 1
      halted := (after words.toArray input s m).halted } := by
    change (step words.toArray input (after words.toArray input s m)).state.control = _
    rcases step_control words.toArray input (after words.toArray input s m) with
      idle | ⟨operation, carried, _, stepped⟩
    · have deep : s.calls.length < (after words.toArray input s m).calls.length := within.deeper
      rw [idle] at back
      omega
    · exact within.returned stepped (Nat.le_of_eq back)
  have frames : t.frames = s.frames := congrArg Control.frames restored
  refine ⟨congrArg Control.pc restored, congrArg Control.calls restored, frames, ?_,
    congrArg Control.frameSize restored⟩
  unfold State.frameBase
  rw [frames]

/-- The state in which the first function of the program calls the second one. -/
def nestedCallsInner : State :=
  after nestedCalls.toArray (fun _ => ⟨0, 0⟩) State.start 7

/-- The second function returns after three cycles, to the word behind the call and to a frame that
begins behind the variable of the main program. -/
theorem nestedCalls_inner_returned :
    Reachable nestedCalls (fun _ => ⟨0, 0⟩) nestedCallsInner ∧
      nestedCallsInner.pending? nestedCalls.toArray = some (.call, 11) ∧
      let t := after nestedCalls.toArray (fun _ => ⟨0, 0⟩) nestedCallsInner 3
      t.pc = 10 ∧ t.calls = [5] ∧ t.frames = [1] ∧ t.frameBase = 1 ∧ t.frameSize = 1 := by
  have reached : Reachable nestedCalls (fun _ => ⟨0, 0⟩) nestedCallsInner := ⟨7, rfl⟩
  have calling : nestedCallsInner.pending? nestedCalls.toArray = some (.call, 11) := by
    decide +kernel
  have first : ∀ k < 3, 0 < k →
      (after nestedCalls.toArray (fun _ => ⟨0, 0⟩) nestedCallsInner k).calls.length ≠
        nestedCallsInner.calls.length := by
    decide +kernel
  have back : (after nestedCalls.toArray (fun _ => ⟨0, 0⟩) nestedCallsInner 3).calls.length =
      nestedCallsInner.calls.length := by
    decide +kernel
  have before : nestedCallsInner.pc = 9 ∧ nestedCallsInner.calls = [5] ∧
      nestedCallsInner.frames = [1] ∧ nestedCallsInner.frameBase = 1 ∧
      nestedCallsInner.frameSize = 1 := by
    decide +kernel
  obtain ⟨_, _, _, returned⟩ :=
    return_undoes_call nestedCalls (fun _ => ⟨0, 0⟩) nestedCallsInner reached
  have after := returned 11 3 calling (by decide) (fun k positive less => first k less positive)
    back
  rw [before.1, before.2.1, before.2.2.1, before.2.2.2.1, before.2.2.2.2] at after
  exact ⟨reached, calling, after⟩

end Accumulator.Machine
