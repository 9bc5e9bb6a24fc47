import Accumulator.Proofs.Machine.Memory

set_option autoImplicit false

/-!
Calls and their frames. While a call is pending, the stacks at its entry stay at the bottom of the
stacks, and every frame pushed since begins at or after the end of the caller's. So a program that
stores only above the base of its current frame leaves the caller's cells alone.
-/

namespace Accumulator

/-- A word that stores to memory, if it does, at a literal address other than zero. -/
def Word.StoresAboveBase (w : Word) : Prop :=
  ∀ i ∈ Instruction.decode? w.opcode,
    i.operation ≠ .movLF ∧ (i.operation.storesAtLiteral = true → 1 ≤ w.literal.toNat)

instance (w : Word) : Decidable w.StoresAboveBase :=
  inferInstanceAs (Decidable (∀ i ∈ Instruction.decode? w.opcode, _))

namespace Machine

def Control.frameBase (c : Control) : Nat := c.frames.headD 0

/-- The cell that the frame of a function called next begins after. -/
def Control.frameEnd (c : Control) : Nat := c.frameBase + c.frameSize

def State.frameEnd (s : State) : Nat := s.frameBase + s.frameSize

/-- The stacks of a call that was made at `entry` and has not returned: above what the call pushed
there is one return address for each frame, and no frame begins before the end of the caller's. -/
def Control.Within (entry c : Control) : Prop :=
  ∃ pushed : List (Nat × Nat),
    c.calls = pushed.map Prod.fst ++ (entry.pc + 1) :: entry.calls ∧
    c.frames = pushed.map Prod.snd ++ entry.frameEnd :: entry.frames ∧
    ∀ call ∈ pushed, entry.frameEnd ≤ call.2

theorem Control.Within.frameEnd_le {entry c : Control} (within : entry.Within c) :
    entry.frameEnd ≤ c.frameBase := by
  obtain ⟨pushed, _, frames, above⟩ := within
  unfold Control.frameBase
  rw [frames]
  cases pushed with
  | nil => exact Nat.le_refl _
  | cons call rest => exact above call (by simp)

/-- A call is left only by the return that brings the stack of calls back to where it was. -/
theorem Control.Within.step {entry c d : Control} {operation : Operation} {literal : BitVec 24}
    {fault : Option Fault} (within : entry.Within c)
    (stepped : Control.Step operation literal c fault d)
    (deep : entry.calls.length < d.calls.length) : entry.Within d := by
  have base := within.frameEnd_le
  obtain ⟨pushed, calls, frames, above⟩ := within
  cases stepped with
  | failed | halt | plain | declare | goto | compare => exact ⟨pushed, calls, frames, above⟩
  | call =>
    refine ⟨(c.pc + 1, c.frameEnd) :: pushed, ?_, ?_, ?_⟩
    · simp only [calls, List.map_cons, List.cons_append]
    · simp only [frames, List.map_cons, List.cons_append]
      rw [← frames]
      rfl
    · intro call member
      rcases List.mem_cons.mp member with rfl | member
      · exact Nat.le_trans base (Nat.le_add_right _ _)
      · exact above call member
  | leave returns target base rest below called framed =>
    rw [called] at calls
    rw [framed] at frames
    cases pushed with
    | nil =>
      simp only [List.map_nil, List.nil_append, List.cons.injEq] at calls
      simp only [calls.2, Nat.lt_irrefl] at deep
    | cons call pushed =>
      simp only [List.map_cons, List.cons_append, List.cons.injEq] at calls frames
      exact ⟨pushed, calls.2, frames.2, fun call member => above call (by simp [member])⟩

theorem Control.within_call (entry : Control) (literal : BitVec 24) :
    entry.Within
      { entry with
        pc := literal.toNat
        calls := (entry.pc + 1) :: entry.calls
        frames := entry.frameEnd :: entry.frames
        frameSize := 0 } :=
  ⟨[], rfl, rfl, by simp⟩

/-- Each frame begins at or after the one below it, and ends at or after its beginning. -/
def Control.Nested (c : Control) : Prop :=
  c.frames.Pairwise (· ≥ ·)

theorem Control.Nested.le_frameEnd {c : Control} (nested : c.Nested) (base : Nat)
    (member : base ∈ c.frames) : base ≤ c.frameEnd := by
  unfold Control.Nested at nested
  unfold Control.frameEnd Control.frameBase
  cases frames : c.frames with
  | nil =>
    rw [frames] at member
    cases member
  | cons top rest =>
    rw [frames] at member nested
    rw [List.headD_cons]
    rcases List.mem_cons.mp member with rfl | below
    · exact Nat.le_add_right _ _
    · exact Nat.le_trans (List.rel_of_pairwise_cons nested below) (Nat.le_add_right _ _)

theorem Control.Nested.step {c d : Control} {operation : Operation} {literal : BitVec 24}
    {fault : Option Fault} (nested : c.Nested)
    (stepped : Control.Step operation literal c fault d) : d.Nested := by
  cases stepped with
  | failed | halt | plain | declare | goto | compare => exact nested
  | call => exact List.pairwise_cons.mpr ⟨nested.le_frameEnd, nested⟩
  | leave returns target base rest below called framed =>
    unfold Control.Nested at nested
    rw [framed] at nested
    exact (List.pairwise_cons.mp nested).2

theorem Reachable.nested {words : List Word} {input : Input} {s : State}
    (reached : Reachable words input s) : s.control.Nested := by
  apply reached.invariant (fun t => t.control.Nested) List.Pairwise.nil
  intro t nested
  rcases step_control words.toArray input t with idle | ⟨operation, literal, _, stepped⟩
  · rw [idle]
    exact nested
  · exact nested.step stepped

theorem fetch_mem (words : List Word) (pc : Nat) (word : Word)
    (fetched : Code.fetch? words.toArray pc = some word) : word ∈ words := by
  unfold Code.fetch? at fetched
  split at fetched
  · cases fetched
  · rw [List.getElem?_toArray] at fetched
    exact List.mem_of_getElem? fetched

/-- A program that stores above its frame base keeps the cells up to this base. -/
theorem step_memory_below (words : List Word) (input : Input) (s : State) (cell : Fin memorySize)
    (safe : ∀ w ∈ words, w.StoresAboveBase) (below : cell.val ≤ s.frameBase) :
    (step words.toArray input s).state.memory.get cell = s.memory.get cell := by
  apply step_memory
  intro operation literal pending covers
  obtain ⟨_, word, i, fetched, decoded, rfl, rfl⟩ :=
    (pending_eq_some_iff words.toArray s operation literal).mp pending
  obtain ⟨direct, above⟩ := safe word (fetch_mem words s.pc word fetched) i decoded
  unfold State.Covers at covers
  rcases i.operation.storeRange_cases word.literal s.w direct with ⟨stores, first⟩ | none
  · have positive := above stores
    rw [first] at covers
    omega
  · rw [none] at covers
    omega

/-- While a call is pending, the stacks at its entry lie at the bottom of the stacks. -/
theorem within_of_unreturned (code : Code) (input : Input) (s : State) (literal : BitVec 24)
    (n : Nat) (calling : s.pending? code = some (.call, literal)) (positive : 0 < n)
    (unreturned : ∀ k, 0 < k → k ≤ n → s.calls.length < (after code input s k).calls.length) :
    s.control.Within (after code input s n).control := by
  induction n with
  | zero => cases positive
  | succ n ih =>
    by_cases first : n = 0
    · subst first
      change s.control.Within (step code input s).state.control
      rw [step_of_pending code input s .call literal calling]
      exact s.control.within_call literal
    · have before := ih (by omega) fun k positive less => unreturned k positive (by omega)
      change s.control.Within (step code input _).state.control
      rcases step_control code input (after code input s n) with
        idle | ⟨operation, literal, _, stepped⟩
      · rw [idle]
        exact before
      · exact before.step stepped (unreturned (n + 1) (by omega) (by omega))

/-- From a call until it returns, a program that stores above its frame base keeps every cell up to
the base that the call pushes. Each frame that was there before begins among these cells. -/
theorem call_keeps_outer_cells (words : List Word) (input : Input) (s : State)
    (literal : BitVec 24) (n : Nat) (safe : ∀ w ∈ words, w.StoresAboveBase)
    (reached : Reachable words input s)
    (calling : s.pending? words.toArray = some (.call, literal))
    (unreturned : ∀ k, 0 < k → k < n →
      s.calls.length < (after words.toArray input s k).calls.length) :
    (step words.toArray input s).state.frames = s.frameEnd :: s.frames ∧
      (∀ base ∈ s.frames, base ≤ s.frameEnd) ∧
      ∀ cell : Fin memorySize, cell.val ≤ s.frameEnd →
        (after words.toArray input s n).memory.get cell = s.memory.get cell := by
  have called := step_of_pending words.toArray input s .call literal calling
  refine ⟨by rw [called]; rfl, reached.nested.le_frameEnd, fun cell below => ?_⟩
  induction n with
  | zero => rfl
  | succ n ih =>
    rw [← ih fun k positive less => unreturned k positive (by omega)]
    by_cases first : n = 0
    · subst first
      change (step words.toArray input s).state.memory.get cell = _
      rw [called]
      rfl
    · have within := within_of_unreturned words.toArray input s literal n calling (by omega)
        fun k positive less => unreturned k positive (by omega)
      exact step_memory_below words input _ cell safe
        (Nat.le_trans below within.frameEnd_le)

/-- A main program with one variable, which it sets before it calls the function at address 6. This
one sets its own variable and calls the function at address 11, which stores once more. -/
def nestedCalls : List Word :=
  [⟨0x03, 1⟩, ⟨0x04, 11⟩, ⟨0x05, 1⟩, ⟨0x08, 6⟩, ⟨0x00, 0⟩,
   ⟨0x03, 1⟩, ⟨0x04, 99⟩, ⟨0x05, 1⟩, ⟨0x08, 11⟩, ⟨0x09, 0⟩,
   ⟨0x05, 1⟩, ⟨0x09, 0⟩]

/-- The state of this program before its first call. -/
def nestedCallsEntry : State :=
  after nestedCalls.toArray (fun _ => ⟨0, 0⟩) State.start 3

/-- The main program's variable is the same when both functions have returned. -/
theorem nestedCalls_keep_variable :
    (∀ w ∈ nestedCalls, w.StoresAboveBase) ∧
      Reachable nestedCalls (fun _ => ⟨0, 0⟩) nestedCallsEntry ∧
      nestedCallsEntry.pending? nestedCalls.toArray = some (.call, 6) ∧
      (∀ k < 8, 0 < k → nestedCallsEntry.calls.length <
        (after nestedCalls.toArray (fun _ => ⟨0, 0⟩) nestedCallsEntry k).calls.length) ∧
      (after nestedCalls.toArray (fun _ => ⟨0, 0⟩) nestedCallsEntry 8).calls = [] ∧
      (after nestedCalls.toArray (fun _ => ⟨0, 0⟩) nestedCallsEntry 8).memory.get
        ⟨1, by decide⟩ = 11 := by
  have safe : ∀ w ∈ nestedCalls, w.StoresAboveBase := by decide +kernel
  have reached : Reachable nestedCalls (fun _ => ⟨0, 0⟩) nestedCallsEntry := ⟨3, rfl⟩
  have calling : nestedCallsEntry.pending? nestedCalls.toArray = some (.call, 6) := by
    decide +kernel
  have unreturned : ∀ k < 8, 0 < k → nestedCallsEntry.calls.length <
      (after nestedCalls.toArray (fun _ => ⟨0, 0⟩) nestedCallsEntry k).calls.length := by
    decide +kernel
  have kept := (call_keeps_outer_cells nestedCalls (fun _ => ⟨0, 0⟩) nestedCallsEntry 6 8 safe
    reached calling (fun k positive less => unreturned k less positive)).2.2
      ⟨1, by decide⟩ (by decide +kernel)
  have before : nestedCallsEntry.memory.get ⟨1, by decide⟩ = 11 := by decide +kernel
  exact ⟨safe, reached, calling, unreturned, by decide +kernel, kept.trans before⟩

end Machine

end Accumulator
