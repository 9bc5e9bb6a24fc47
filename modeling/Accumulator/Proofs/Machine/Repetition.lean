import Accumulator.Proofs.Machine.Ceiling
import Accumulator.Proofs.Machine.Rows

set_option autoImplicit false

/-!
A cycle that has failed fails again. What an operation has done before it fails, a value loaded into W
or rows of a plane stored, it does a second time without a change, so it comes to the same fault in the
same state, whatever the ports are at and however often it is tried.
-/

namespace Accumulator.Machine

/-- The state with other values sampled, at another count of cycles. -/
def State.resampled (s : State) (inputs : Ports) (cycles : Nat) : State := { s with inputs, cycles }

section Operations

/-- A way to go on from a state repeats its failures: from the state that a failure leaves it comes to
the same one and leaves the state as it is, with any values sampled. -/
def Repeats (k : State → Outcome) : Prop :=
  ∀ s f t, k s = .failed f t → ∀ inputs cycles,
    k (t.resampled inputs cycles) = .failed f (t.resampled inputs cycles)

theorem ok_repeats (next : State → State) : Repeats fun s => .ok (next s) := nofun

theorem cell_resampled (s : State) (inputs : Ports) (cycles : Nat) (address : Int) :
    (s.resampled inputs cycles).cell address = s.cell address := rfl

theorem load_resampled (s : State) (inputs : Ports) (cycles : Nat) (address : Int) :
    (s.resampled inputs cycles).load address = s.load address := rfl

theorem loadRows_resampled (s : State) (inputs : Ports) (cycles : Nat) (address : Int) (n : Nat) :
    (s.resampled inputs cycles).loadRows address n = s.loadRows address n := by
  induction n with
  | zero => rfl
  | succ n ih =>
    unfold State.loadRows
    rw [ih, load_resampled]

theorem storing_repeats (address : State → Int) (v : State → Value)
    (steady : ∀ s inputs cycles, address (s.resampled inputs cycles) = address s) :
    Repeats fun s => s.storing (address s) (v s) := by
  intro s f t failed inputs cycles
  change s.storing (address s) (v s) = _ at failed
  change (t.resampled inputs cycles).storing (address _) (v _) = _
  unfold State.storing at failed ⊢
  cases found : s.cell (address s) with
  | ok i =>
    rw [found] at failed
    cases failed
  | error g =>
    rw [found] at failed
    cases failed
    rw [steady, cell_resampled, found]

/-- A way that begins with a load repeats its failures if what is behind the load does so, in states
that load the same value. -/
theorem loading_repeats (address : Int) (k : State → Value → Outcome)
    (repeats : ∀ s v f t, s.load address = .ok v → k s v = .failed f t →
      t.load address = .ok v ∧ ∀ inputs cycles,
        k (t.resampled inputs cycles) v = .failed f (t.resampled inputs cycles)) :
    Repeats fun s => s.loading address (k s) := by
  intro s f t failed inputs cycles
  change s.loading address (k s) = _ at failed
  change (t.resampled inputs cycles).loading address (k _) = _
  unfold State.loading at failed ⊢
  cases loaded : s.load address with
  | ok v =>
    rw [loaded] at failed
    obtain ⟨reloaded, again⟩ := repeats s v f t loaded failed
    rw [load_resampled, reloaded]
    exact again inputs cycles
  | error g =>
    rw [loaded] at failed
    cases failed
    rw [load_resampled, loaded]

theorem loading_ok_repeats (address : Int) (next : State → Value → State) :
    Repeats fun s => s.loading address fun v => .ok (next s v) := by
  apply loading_repeats address fun s v => .ok (next s v)
  rintro s v f t _ ⟨⟩

theorem fetching_repeats (operand : Operand) (literal : BitVec 24) (next : State → Value → State) :
    Repeats fun s => s.fetching operand literal fun v => .ok (next s v) := by
  cases operand with
  | literal => exact ok_repeats fun s => next s (literal.setWidth 32)
  | w => exact ok_repeats fun s => next s s.w
  | memory => exact loading_ok_repeats literal.toNat next

/-- A return without a pending call keeps what it has put into W. -/
theorem leave_repeats (w : State → Value)
    (steady : ∀ s inputs cycles, w { s.resampled inputs cycles with w := w s } = w s) :
    Repeats fun s => { s with w := w s }.leave := by
  intro s f t failed inputs cycles
  change { s with w := w s }.leave = _ at failed
  obtain ⟨rfl, rfl, _⟩ := leave_eq_failed _ t f failed
  change { s.resampled inputs cycles with w := w { s.resampled inputs cycles with w := w s } }.leave = _
  rw [steady]
  unfold State.leave at failed ⊢
  split at failed
  · cases failed
  · rename_i unpaired
    split
    · rename_i target calls base frames called framed
      exact absurd framed (unpaired target calls base frames called)
    · rfl

/-- The cell that such a return loads W from is loaded again. -/
theorem returning_repeats (address : Int) :
    Repeats fun s => s.loading address fun v => { s with w := v }.leave := by
  apply loading_repeats address fun s v => ({ s with w := v } : State).leave
  intro s v f t loaded failed
  have again := leave_repeats (fun _ => v) (fun _ _ _ => rfl) s f t failed
  obtain ⟨_, rfl, _⟩ := leave_eq_failed _ t f failed
  exact ⟨loaded, again⟩

/-- What can be loaded from a cell can be stored to it. -/
theorem storing_of_loaded (s : State) (address : Int) (v u : Value)
    (loaded : s.load address = .ok v) : ∃ t, s.storing address u = .ok t := by
  unfold State.load at loaded
  unfold State.storing
  cases found : s.cell address with
  | ok i => exact ⟨_, rfl⟩
  | error f =>
    rw [found] at loaded
    cases loaded

theorem rewriting_repeats (address : Int) (u : State → Value → Value) :
    Repeats fun s => s.loading address fun v => s.storing address (u s v) := by
  apply loading_repeats address fun s v => s.storing address (u s v)
  intro s v f t loaded failed
  obtain ⟨next, stored⟩ := storing_of_loaded s address v (u s v) loaded
  rw [stored] at failed
  cases failed

/-- A plane that is saved again has its rows in the cells before the one that is missing. -/
theorem saving_repeats (address : Nat) :
    Repeats fun s => s.saving address s.display.active.toList := by
  intro s f t failed inputs cycles
  change s.saving address s.display.active.toList = _ at failed
  change (t.resampled inputs cycles).saving address t.display.active.toList = _
  obtain ⟨memory, left⟩ := storeRows_eq s address s.display.active.toList
  unfold State.saving at failed ⊢
  cases stored : s.storeRows address s.display.active.toList with
  | ok next =>
    rw [stored] at failed
    cases failed
  | failed g next =>
    rw [stored] at failed left
    cases failed
    have shown : t.display = s.display :=
      (congrArg State.display left : _ = ({ s with memory } : State).display)
    have again : (t.resampled inputs cycles).storeRows address s.display.active.toList =
        .failed f (t.resampled inputs cycles) := by
      apply storeRows_again s
      · omega
      · rw [stored]
        rfl
      · exact (congrArg State.frames left : _ = ({ s with memory } : State).frames)
      · exact (congrArg State.pc left : _ = ({ s with memory } : State).pc)
      · rw [stored]
        rfl
    rw [shown, again]

theorem restoring_repeats (address : Int) :
    Repeats fun s => s.restoring (s.loadRows address screenSize) := by
  intro s f t failed inputs cycles
  change s.restoring (s.loadRows address screenSize) = _ at failed
  change (t.resampled inputs cycles).restoring
    ((t.resampled inputs cycles).loadRows address screenSize) = _
  cases loaded : s.loadRows address screenSize with
  | ok plane =>
    rw [loaded] at failed
    cases failed
  | error g =>
    rw [loaded] at failed
    cases failed
    rw [loadRows_resampled, loaded]
    rfl

theorem execute_repeats (operation : Operation) (literal : BitVec 24) :
    Repeats fun s => s.execute operation literal := by
  unfold State.execute
  cases operation with
  | halt => exact ok_repeats fun s => { s with halted := true }
  | nop | pulse => exact ok_repeats fun s => s.advance
  | var => exact ok_repeats fun s => { s with frameSize := max s.frameSize literal.toNat }.advance
  | movLW => exact ok_repeats fun s => { s with w := literal.setWidth 32 }.advance
  | call => exact ok_repeats fun s => s.enter literal.toNat
  | goto => exact ok_repeats fun s => { s with pc := literal.toNat }
  | movWF => exact storing_repeats (fun _ => literal.toNat) (fun s => s.w) fun _ _ _ => rfl
  | movLF =>
    exact storing_repeats (fun s => s.w.toInt) (fun _ => literal.setWidth 32) fun _ _ _ => rfl
  | movFW =>
    exact loading_ok_repeats literal.toNat fun s v => ({ s with w := v } : State).advance
  | ret => exact leave_repeats (fun s => s.w) fun _ _ _ => rfl
  | retLW => exact leave_repeats (fun _ => literal.setWidth 32) fun _ _ _ => rfl
  | retFW => exact returning_repeats literal.toNat
  | arithmetic op transfer =>
    cases transfer with
    | immediate =>
      exact ok_repeats fun s => { s with w := op.apply s.w (literal.setWidth 32) }.advance
    | toW =>
      exact loading_ok_repeats literal.toNat fun s v =>
        ({ s with w := op.apply s.w v } : State).advance
    | toMemory => exact rewriting_repeats literal.toNat fun s v => op.apply s.w v
  | compare condition operand skip =>
    exact fetching_repeats operand literal fun s v =>
      { s with pc := s.pc + if condition.holds s.w v then 1 else skip.val + 2 }
  | write port operand =>
    exact fetching_repeats operand literal fun s v =>
      { s with outputs := s.outputs.set port v }.advance
  | read port toMemory =>
    cases toMemory with
    | false => exact ok_repeats fun s => { s with w := s.inputs.get port }.advance
    | true =>
      exact storing_repeats (fun _ => literal.toNat) (fun s => s.inputs.get port) fun _ _ _ => rfl
  | display drawing operand =>
    have draws (command : Drawing) : Repeats fun s => s.fetching operand literal fun v =>
        .ok { s with display := s.display.execute command v }.advance :=
      fetching_repeats operand literal fun s v =>
        { s with display := s.display.execute command v }.advance
    cases drawing with
    | save => exact saving_repeats literal.toNat
    | load => exact restoring_repeats literal.toNat
    | clear | render | pixel | horizontal | vertical | rectangle | setFlag => exact draws _

end Operations

section Cycles

variable {code : Code} {input later : Input} {s t : State} {f : Fault}

/-- A cycle that has failed has left the control part alone, and it was not halted. -/
theorem control_of_failed (failed : step code input s = .failed f t) :
    t.control = s.control ∧ t.halted = false := by
  have same : t.control = s.control := by
    rcases step_control code input s with idle | ⟨operation, literal, _, stepped⟩
    · rw [failed] at idle
      exact congrArg State.control idle
    · rw [failed] at stepped
      exact stepped.eq_of_fault
  have halted : t.halted = s.halted := congrArg Control.halted same
  refine ⟨same, ?_⟩
  rw [halted]
  unfold step at failed
  split at failed
  · cases failed
  · rename_i running
    exact Bool.eq_false_iff.mpr running

/-- The cycle after one that has failed fails in the same way. It may sample and count once more. -/
theorem step_repeats (failed : step code input s = .failed f t) (later : Input) (inputs : Ports)
    (cycles : Nat) : ∃ others count,
      step code later (t.resampled inputs cycles) = .failed f (t.resampled others count) := by
  obtain ⟨control, running⟩ := control_of_failed failed
  have pc : t.pc = s.pc := congrArg Control.pc control
  have unhalted : ¬ (t.resampled inputs cycles).halted = true := by
    change ¬ t.halted = true
    rw [running]
    exact Bool.false_ne_true
  have fetches : code.fetch? (t.resampled inputs cycles).pc = code.fetch? s.pc := by
    change code.fetch? t.pc = _
    rw [pc]
  unfold step at failed ⊢
  rw [if_neg unhalted, fetches]
  split at failed
  · cases failed
  · split at failed
    · cases failed
      exact ⟨inputs, cycles, rfl⟩
    · rename_i word _
      split at failed
      · cases failed
        exact ⟨inputs, cycles, rfl⟩
      · rename_i i _
        exact ⟨_, _, execute_repeats i.operation word.literal _ f t failed _ _⟩

/-- However many cycles follow, each of them ends in the fault, and all that they change is what is
sampled and counted. -/
theorem after_failed (failed : step code input s = .failed f t) (later : Input) (n : Nat) :
    results code later t n = List.replicate n (some f) ∧
      ∃ inputs cycles, after code later t n = t.resampled inputs cycles := by
  induction n with
  | zero => exact ⟨rfl, t.inputs, t.cycles, rfl⟩
  | succ n ih =>
    obtain ⟨same, inputs, cycles, left⟩ := ih
    obtain ⟨others, count, again⟩ := step_repeats failed later inputs cycles
    rw [← left] at again
    refine ⟨?_, others, count, ?_⟩
    · unfold results
      rw [same, again, List.replicate_succ']
      rfl
    · unfold after
      rw [again]
      rfl

/-- A run from such a state is over with its first cycle, or before it at the ceiling. -/
theorem run_failed (failed : step code input s = .failed f t) (later : Input) (inputs : Ports)
    (cycles limit : Nat) :
    ((⟨code, t.resampled inputs cycles, limit⟩ : Processor).run later).2 =
      some (if limit ≤ cycles then .cycleTimeout cycles else f) := by
  have running := (control_of_failed failed).2
  obtain ⟨others, count, again⟩ := step_repeats failed later inputs cycles
  have ends (q : Processor) (fault : Option Fault)
      (stops : (⟨code, t.resampled inputs cycles, limit⟩ : Processor).Stops later q fault) :
      ((⟨code, t.resampled inputs cycles, limit⟩ : Processor).run later).2 = fault :=
    congrArg Prod.snd (Processor.Stops.run (n := 0) stops nofun)
  by_cases reached : limit ≤ cycles
  · rw [if_pos reached]
    exact ends _ _ (.timedOut running reached)
  · have failure : ((⟨code, t.resampled inputs cycles, limit⟩ : Processor).step later).2 = some f := by
      unfold Processor.step
      rw [again]
      rfl
    rw [if_neg reached]
    exact ends _ _ (.failed f running (Nat.lt_of_not_le reached) failure)

end Cycles

/-- After a cycle that has failed, from any state and so from any that a program gets to, every cycle
fails with the same fault. The program counter, both stacks, the frame size, the output ports, the
display, W and the memory stay as the first failure left them, whatever the ports are at. So a run from
any of these states has the same fault, or it is at its ceiling already. -/
theorem failure_repeats (code : Code) (input later : Input) (s : State) (f : Fault) (n : Nat)
    (failed : (step code input s).fault? = some f) :
    let t := (step code input s).state
    let u := after code later t n
    results code later t n = List.replicate n (some f) ∧
      u.pc = t.pc ∧ u.calls = t.calls ∧ u.frames = t.frames ∧ u.frameSize = t.frameSize ∧
      u.outputs = t.outputs ∧ u.display = t.display ∧ u.w = t.w ∧ u.memory = t.memory ∧
      ∀ (other : Input) (limit : Nat), ((⟨code, u, limit⟩ : Processor).run other).2 =
        some (if limit ≤ u.cycles then .cycleTimeout u.cycles else f) := by
  intro t u
  have failed : step code input s = .failed f t := Outcome.eq_failed failed rfl
  obtain ⟨same, inputs, cycles, left⟩ := after_failed failed later n
  have left : u = t.resampled inputs cycles := left
  refine ⟨same, ?_⟩
  rw [left]
  exact ⟨rfl, rfl, rfl, rfl, rfl, rfl, rfl, rfl, fun other limit =>
    run_failed failed other inputs cycles limit⟩

/-- Returns with the content of a cell from no call. -/
def uncalledReturn : List Word := [⟨0x04, 7⟩, ⟨0x05, 1⟩, ⟨0x04, 9⟩, ⟨0x0B, 1⟩]

/-- The fourth cycle loads 7 into W and fails. Five cycles later W is the same, and a run has the fault
of the return, or that of its ceiling when the ceiling is at the nine cycles. -/
theorem uncalledReturn_fails_again :
    let input : Input := fun _ => ⟨0, 0⟩
    let later : Input := fun n => ⟨BitVec.ofNat 32 n, 1⟩
    let s := after uncalledReturn.toArray input State.start 3
    let t := (step uncalledReturn.toArray input s).state
    let u := after uncalledReturn.toArray later t 5
    s.w = 9 ∧ (step uncalledReturn.toArray input s).fault? = some (.callStackUnderflow 4) ∧
      results uncalledReturn.toArray later t 5 =
        List.replicate 5 (some (.callStackUnderflow 4)) ∧
      u.w = 7 ∧ u.cycles = 9 ∧
      ((⟨uncalledReturn.toArray, u, 50⟩ : Processor).run input).2 =
        some (.callStackUnderflow 4) ∧
      ((⟨uncalledReturn.toArray, u, 9⟩ : Processor).run input).2 = some (.cycleTimeout 9) := by
  intro input later s t u
  have failed : (step uncalledReturn.toArray input s).fault? = some (.callStackUnderflow 4) := by
    decide +kernel
  have w : t.w = 7 := by decide +kernel
  have cycles : u.cycles = 9 := by decide +kernel
  obtain ⟨same, _, _, _, _, _, _, kept, _, ends⟩ :=
    failure_repeats uncalledReturn.toArray input later s _ 5 failed
  have stops (limit : Nat) : ((⟨uncalledReturn.toArray, u, limit⟩ : Processor).run input).2 =
      some (if limit ≤ 9 then .cycleTimeout 9 else .callStackUnderflow 4) := by
    rw [← cycles]
    exact ends input limit
  exact ⟨by decide +kernel, failed, same, kept.trans w, cycles, stops 50, stops 9⟩

end Accumulator.Machine
