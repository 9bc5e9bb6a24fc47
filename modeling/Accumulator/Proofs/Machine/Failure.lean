import Accumulator.Proofs.Machine.CallReturn
import Accumulator.Proofs.Machine.Memory

set_option autoImplicit false

/-!
What a cycle that fails leaves behind. A cycle that finds nothing to carry out changes nothing. Any
other counts and samples the ports, and only two kinds of operation have done a part of their work
when they fail: a return may have loaded W, and a plane that is saved may have been stored in part.
-/

namespace Accumulator.Machine

/-- All that an operation can fail with, and the state that it leaves. -/
inductive Aborts (s : State) (literal : BitVec 24) : Operation → Fault → State → Prop
  | access (operation : Operation) (address : Int)
      (notSave : ∀ operand, operation ≠ .display .save operand) :
      Aborts s literal operation (.memoryOutOfBounds address s.pc) s
  | save (operand : Operand) (address : Int) :
      Aborts s literal (.display .save operand) (.memoryOutOfBounds address s.pc)
        (s.storeRows literal.toNat s.display.active.toList).state
  | ret (uncalled : s.calls = [] ∨ s.frames = []) :
      Aborts s literal .ret (.callStackUnderflow s.pc) s
  | retLW (uncalled : s.calls = [] ∨ s.frames = []) :
      Aborts s literal .retLW (.callStackUnderflow s.pc) { s with w := literal.setWidth 32 }
  | retFW (uncalled : s.calls = [] ∨ s.frames = []) (v : Value)
      (loaded : s.load literal.toNat = .ok v) :
      Aborts s literal .retFW (.callStackUnderflow s.pc) { s with w := v }

theorem load_eq_error (s : State) (address : Int) (f : Fault)
    (failed : s.load address = .error f) :
    f = .memoryOutOfBounds (address + s.frameBase) s.pc := by
  unfold State.load at failed
  cases found : s.cell address with
  | ok i =>
    rw [found] at failed
    cases failed
  | error g =>
    rw [found] at failed
    cases failed
    exact (cell_eq_error s address f found).1

theorem loadRows_eq_error (s : State) (address : Int) (n : Nat) (f : Fault)
    (failed : s.loadRows address n = .error f) :
    ∃ outside, f = .memoryOutOfBounds outside s.pc := by
  induction n with
  | zero => cases failed
  | succ n ih =>
    unfold State.loadRows at failed
    cases rows : s.loadRows address n with
    | error g =>
      rw [rows] at failed
      cases failed
      exact ih rows
    | ok before =>
      rw [rows] at failed
      cases row : s.load (address + n) with
      | error g =>
        rw [row] at failed
        cases failed
        exact ⟨_, load_eq_error s _ f row⟩
      | ok v =>
        rw [row] at failed
        cases failed

theorem storeRows_eq_failed (s t : State) (address : Int) (rows : List Value) (f : Fault)
    (failed : s.storeRows address rows = .failed f t) :
    ∃ outside, f = .memoryOutOfBounds outside s.pc := by
  induction rows generalizing s address with
  | nil => cases failed
  | cons row rows ih =>
    unfold State.storeRows at failed
    cases found : s.cell address with
    | ok i =>
      rw [found] at failed
      exact ih (s.put i row) (address + 1) failed
    | error g =>
      rw [found] at failed
      cases failed
      exact ⟨_, (cell_eq_error t address f found).1⟩

theorem leave_eq_failed (s t : State) (f : Fault) (failed : s.leave = .failed f t) :
    f = .callStackUnderflow s.pc ∧ t = s ∧ (s.calls = [] ∨ s.frames = []) := by
  unfold State.leave at failed
  split at failed
  · cases failed
  · rename_i unpaired
    cases failed
    refine ⟨rfl, rfl, ?_⟩
    cases calls : s.calls with
    | nil => exact .inl rfl
    | cons target rest =>
      cases frames : s.frames with
      | nil => exact .inr rfl
      | cons base below => exact absurd frames (unpaired target rest base below calls)

section

variable {operation : Operation} {literal : BitVec 24}

/-- If an outcome is a failure, an operation on a state may end in it. -/
abbrev Outcome.Aborts (o : Outcome) (operation : Operation) (literal : BitVec 24) (s : State) :
    Prop :=
  ∀ f t, o = .failed f t → Machine.Aborts s literal operation f t

theorem ok_aborts (s t : State) : (Outcome.ok t).Aborts operation literal s := nofun

theorem load_aborts (s : State) (address : Int)
    (notSave : ∀ operand, operation ≠ .display .save operand) (f : Fault)
    (failed : s.load address = .error f) : (Outcome.failed f s).Aborts operation literal s := by
  rintro _ _ ⟨⟩
  rw [load_eq_error s address f failed]
  exact .access operation _ notSave

theorem storing_aborts (s : State) (address : Int) (v : Value)
    (notSave : ∀ operand, operation ≠ .display .save operand) :
    (s.storing address v).Aborts operation literal s := by
  apply storing_rule (·.Aborts operation literal s)
  · exact fun i _ => ok_aborts s _
  · rintro f failed _ _ ⟨⟩
    rw [(cell_eq_error s address f failed).1]
    exact .access operation _ notSave

theorem loading_aborts (s : State) (address : Int) (k : Value → Outcome)
    (notSave : ∀ operand, operation ≠ .display .save operand)
    (aborts : ∀ v, s.load address = .ok v → (k v).Aborts operation literal s) :
    (s.loading address k).Aborts operation literal s :=
  loading_rule (·.Aborts operation literal s) s address k aborts (load_aborts s address notSave)

theorem fetching_aborts (s : State) (operand : Operand) (source : BitVec 24) (k : Value → Outcome)
    (notSave : ∀ operand, operation ≠ .display .save operand)
    (succeeds : ∀ v, ∃ t, k v = .ok t) :
    (s.fetching operand source k).Aborts operation literal s := by
  have aborts : ∀ v, (k v).Aborts operation literal s := by
    intro v
    obtain ⟨t, success⟩ := succeeds v
    rw [success]
    exact ok_aborts s t
  unfold State.fetching
  cases operand with
  | literal | w => exact aborts _
  | memory => exact loading_aborts s _ k notSave fun v _ => aborts v

theorem restoring_aborts (s : State) (loaded : Except Fault Plane)
    (notSave : ∀ operand, operation ≠ .display .save operand)
    (fault : ∀ f, loaded = .error f → ∃ outside, f = .memoryOutOfBounds outside s.pc) :
    (s.restoring loaded).Aborts operation literal s := by
  cases loaded with
  | ok plane => exact ok_aborts s _
  | error f =>
    obtain ⟨outside, rfl⟩ := fault f rfl
    rintro _ _ ⟨⟩
    exact .access operation outside notSave

theorem execute_aborts (s : State) (operation : Operation) (literal : BitVec 24) :
    (s.execute operation literal).Aborts operation literal s := by
  unfold State.execute
  cases operation with
  | halt | nop | pulse | var | movLW | call | goto => exact ok_aborts s _
  | movWF | movLF => exact storing_aborts s _ _ nofun
  | movFW => exact loading_aborts s _ _ nofun fun v _ => ok_aborts s _
  | ret =>
    intro f t failed
    obtain ⟨rfl, rfl, uncalled⟩ := leave_eq_failed s t f failed
    exact .ret uncalled
  | retLW =>
    intro f t failed
    obtain ⟨rfl, rfl, uncalled⟩ := leave_eq_failed _ t f failed
    exact .retLW uncalled
  | retFW =>
    refine loading_aborts s _ _ nofun fun v loaded => ?_
    intro f t failed
    obtain ⟨rfl, rfl, uncalled⟩ := leave_eq_failed { s with w := v } t f failed
    exact Machine.Aborts.retFW (s := s) uncalled v loaded
  | arithmetic op transfer =>
    cases transfer with
    | immediate => exact ok_aborts s _
    | toW => exact loading_aborts s _ _ nofun fun v _ => ok_aborts s _
    | toMemory => exact loading_aborts s _ _ nofun fun v _ => storing_aborts s _ _ nofun
  | compare condition operand skip =>
    exact fetching_aborts s operand literal _ nofun fun v => ⟨_, rfl⟩
  | write port operand => exact fetching_aborts s operand literal _ nofun fun v => ⟨_, rfl⟩
  | read port toMemory =>
    cases toMemory with
    | false => exact ok_aborts s _
    | true => exact storing_aborts s _ _ nofun
  | display drawing operand =>
    cases drawing with
    | save =>
      apply saving_rule (·.Aborts (.display .save operand) literal s)
      · exact fun next _ => ok_aborts s _
      · rintro f next failed _ _ ⟨⟩
        obtain ⟨outside, rfl⟩ := storeRows_eq_failed s next _ _ f failed
        have left : next = (s.storeRows literal.toNat s.display.active.toList).state := by
          rw [failed]
          rfl
        rw [left]
        exact .save operand outside
    | load =>
      exact restoring_aborts s _ nofun fun f => loadRows_eq_error s _ _ f
    | clear | render | pixel | horizontal | vertical | rectangle | setFlag =>
      exact fetching_aborts s operand literal _ nofun fun v => ⟨_, rfl⟩

end

/-- A cycle with nothing to carry out fails for want of a word or of an instruction. -/
theorem fault_of_idle (code : Code) (input : Input) (s : State) (f : Fault)
    (idle : s.pending? code = none) (failed : (step code input s).fault? = some f) :
    f = .programCounterOutOfRange s.pc ∨ ∃ word, code.fetch? s.pc = some word ∧
      Instruction.decode? word.opcode = none ∧ f = .unknownInstruction word.opcode s.pc := by
  unfold step at failed
  unfold State.pending? at idle
  split at failed
  · cases failed
  · rename_i running
    simp only [running, Bool.false_eq_true, ↓reduceIte, Option.bind_eq_none_iff,
      Option.map_eq_none_iff] at idle
    split at failed
    · cases failed
      exact .inl rfl
    · rename_i word fetched
      have unknown := idle word fetched
      simp only [unknown, Outcome.fault?, Option.some.injEq] at failed
      exact .inr ⟨word, fetched, unknown, failed.symm⟩

theorem aborts_of_pending (code : Code) (input : Input) (s : State) (f : Fault)
    (operation : Operation) (literal : BitVec 24)
    (pending : s.pending? code = some (operation, literal))
    (failed : (step code input s).fault? = some f) :
    Aborts (s.sample input) literal operation f (step code input s).state := by
  rw [step_of_pending code input s operation literal pending] at failed ⊢
  have aborts := execute_aborts (s.sample input) operation literal
  cases done : (s.sample input).execute operation literal with
  | ok t =>
    rw [done] at failed
    cases failed
  | failed g t =>
    rw [done] at failed
    cases failed
    exact aborts f t done

/-- Only a run comes to its ceiling. -/
theorem step_not_timeout (code : Code) (input : Input) (s : State) (cycles : Nat) :
    (step code input s).fault? ≠ some (.cycleTimeout cycles) := by
  intro failed
  cases pending : s.pending? code with
  | none =>
    rcases fault_of_idle code input s _ pending failed with other | ⟨_, _, _, other⟩
    · cases other
    · cases other
  | some carried =>
    obtain ⟨operation, literal⟩ := carried
    cases aborts_of_pending code input s _ operation literal pending failed

/-- What a cycle that fails while it carries out an operation leaves of the state before it. -/
structure Interrupted (input : Input) (s : State) (operation : Operation) (literal : BitVec 24)
    (f : Fault) (t : State) : Prop where
  inputs : t.inputs = input s.cycles
  cycles : t.cycles = s.cycles + 1
  pc : t.pc = s.pc
  calls : t.calls = s.calls
  frames : t.frames = s.frames
  frameSize : t.frameSize = s.frameSize
  outputs : t.outputs = s.outputs
  display : t.display = s.display
  halted : t.halted = s.halted
  /-- W is kept, but for a return without a pending call that loads W first. -/
  keeps : ¬ (f = .callStackUnderflow s.pc ∧ (operation = .retLW ∨ operation = .retFW)) →
    t.w = s.w
  loadsLiteral : f = .callStackUnderflow s.pc → operation = .retLW → t.w = literal.setWidth 32
  loadsCell : f = .callStackUnderflow s.pc → operation = .retFW →
    s.load literal.toNat = .ok t.w
  /-- Of a plane that is saved, all rows are stored whose cells are inside the memory. -/
  saved : ∀ operand, operation = .display .save operand →
    ∀ (cell : Fin memorySize) (row : Nat) (v : Value), s.display.active.toList[row]? = some v →
      (cell.val : Int) = literal.toNat + s.frameBase + row → t.memory.get cell = v
  /-- All other cells keep their values. -/
  memory : ∀ cell : Fin memorySize,
    (∀ operand, operation = .display .save operand →
      ¬ s.Covers (literal.toNat, screenSize) cell) → t.memory.get cell = s.memory.get cell

@[simp] theorem State.sample_load (s : State) (input : Input) (address : Int) :
    (s.sample input).load address = s.load address := rfl

/-- An operation that stores nothing leaves the state before it, with a value in W. -/
theorem interrupted_of_w {input : Input} {s : State} {operation : Operation}
    {literal : BitVec 24} {f : Fault} (w : Value)
    (notSave : ∀ operand, operation ≠ .display .save operand)
    (keeps : ¬ (f = .callStackUnderflow s.pc ∧ (operation = .retLW ∨ operation = .retFW)) →
      w = s.w)
    (loadsLiteral : f = .callStackUnderflow s.pc → operation = .retLW → w = literal.setWidth 32)
    (loadsCell : f = .callStackUnderflow s.pc → operation = .retFW →
      s.load literal.toNat = .ok w) :
    Interrupted input s operation literal f { s.sample input with w } := by
  refine ⟨rfl, rfl, rfl, rfl, rfl, rfl, rfl, rfl, rfl, keeps, loadsLiteral, loadsCell, ?_, ?_⟩
  · intro operand isSave
    exact absurd isSave (notSave operand)
  · intro cell _
    rfl

theorem interrupted_of_save {input : Input} {s : State} {literal : BitVec 24} (operand : Operand)
    (address : Int) :
    Interrupted input s (.display .save operand) literal (.memoryOutOfBounds address s.pc)
      ((s.sample input).storeRows literal.toNat s.display.active.toList).state := by
  have stored := storeRows_stored (s.sample input) literal.toNat s.display.active.toList
  have kept := storeRows_memory (s.sample input) literal.toNat s.display.active.toList
  obtain ⟨memory, same⟩ :=
    storeRows_eq (s.sample input) literal.toNat s.display.active.toList
  rw [same] at stored kept ⊢
  refine ⟨rfl, rfl, rfl, rfl, rfl, rfl, rfl, rfl, rfl, fun _ => rfl, nofun, nofun, ?_, ?_⟩
  · intro _ _ cell row v listed place
    have low : (0 : Int) ≤ literal.toNat + (s.sample input).frameBase := by omega
    exact stored cell row v low listed place
  · intro cell outside
    apply kept cell
    rw [Vector.length_toList]
    exact outside operand rfl

theorem Aborts.interrupted {input : Input} {s t : State} {operation : Operation}
    {literal : BitVec 24} {f : Fault} (aborts : Aborts (s.sample input) literal operation f t) :
    Interrupted input s operation literal f t := by
  cases aborts with
  | access operation address notSave =>
    exact interrupted_of_w s.w notSave (fun _ => rfl) nofun nofun
  | save operand address => exact interrupted_of_save operand address
  | ret uncalled => exact interrupted_of_w s.w nofun (fun _ => rfl) nofun nofun
  | retLW uncalled =>
    exact interrupted_of_w _ nofun (absurd ⟨rfl, .inl rfl⟩) (fun _ _ => rfl) nofun
  | retFW uncalled v loaded =>
    rw [State.sample_load] at loaded
    exact interrupted_of_w v nofun (absurd ⟨rfl, .inr rfl⟩) nofun fun _ _ => loaded

theorem Aborts.uncalled {s t : State} {operation : Operation} {literal : BitVec 24} {pc : Nat}
    (aborts : Aborts s literal operation (.callStackUnderflow pc) t) :
    s.calls = [] ∨ s.frames = [] := by
  cases aborts with
  | ret uncalled | retLW uncalled | retFW uncalled => exact uncalled

/-- A cycle that finds no word, or a word that is no instruction, changes nothing. A cycle that fails
at a memory access or at a return without a pending call has sampled the ports, has been counted, and
has changed nothing but W, by such a return that loads it, or the cells of a plane that it was
saving. Both stacks are empty where a return fails, and no cycle ends for the ceiling of a run. -/
theorem failed_cycle_changes (words : List Word) (earlier input : Input) (s : State) (f : Fault)
    (reached : Reachable words earlier s)
    (failed : (step words.toArray input s).fault? = some f) :
    match f with
    | .programCounterOutOfRange _ | .unknownInstruction _ _ =>
      (step words.toArray input s).state = s
    | .memoryOutOfBounds _ _ => ∃ operation literal,
      s.pending? words.toArray = some (operation, literal) ∧
        Interrupted input s operation literal f (step words.toArray input s).state
    | .callStackUnderflow _ => ∃ operation literal,
      s.pending? words.toArray = some (operation, literal) ∧ s.calls = [] ∧ s.frames = [] ∧
        Interrupted input s operation literal f (step words.toArray input s).state
    | .cycleTimeout _ => False := by
  cases pending : s.pending? words.toArray with
  | none =>
    have same := step_of_idle words.toArray input s pending
    rcases fault_of_idle words.toArray input s f pending failed with rfl | ⟨_, _, _, rfl⟩
    · exact same
    · exact same
  | some carried =>
    obtain ⟨operation, literal⟩ := carried
    have aborts := aborts_of_pending words.toArray input s f operation literal pending failed
    have left := aborts.interrupted
    cases f with
    | unknownInstruction | programCounterOutOfRange | cycleTimeout => cases aborts
    | memoryOutOfBounds address pc => exact ⟨operation, literal, rfl, left⟩
    | callStackUnderflow pc =>
      have paired : s.calls.length = s.frames.length := reached.paired
      have uncalled : s.calls = [] ∨ s.frames = [] := aborts.uncalled
      have calls : s.calls = [] := by
        rcases uncalled with empty | empty
        · exact empty
        · rw [empty] at paired
          exact List.eq_nil_of_length_eq_zero paired
      have frames : s.frames = [] := by
        rw [calls] at paired
        exact List.eq_nil_of_length_eq_zero paired.symm
      exact ⟨operation, literal, rfl, calls, frames, left⟩

/-- Draws the pixel in column 3 and row 4, then saves the plane to sixteen cells before the end of the
memory. -/
def saveBeyondMemory : List Word := [⟨0x52, 196⟩, ⟨0x5C, 4080⟩]

/-- The fault is that of the first row behind the memory. The column with the pixel is stored, the port
is sampled for the second cycle, and control stays. -/
theorem saveBeyondMemory_stores_columns :
    let s := after saveBeyondMemory.toArray (fun _ => ⟨0, 0⟩) State.start 1
    let input : Input := fun n => ⟨BitVec.ofNat 32 n + 7, 0⟩
    let outcome := step saveBeyondMemory.toArray input s
    Reachable saveBeyondMemory (fun _ => ⟨0, 0⟩) s ∧
      outcome.fault? = some (.memoryOutOfBounds 4096 2) ∧
      outcome.state.memory.get ⟨4083, by decide⟩ = 16 ∧
      outcome.state.inputs = ⟨8, 0⟩ ∧ outcome.state.cycles = 2 ∧ outcome.state.pc = 2 := by
  intro s input outcome
  have reached : Reachable saveBeyondMemory (fun _ => ⟨0, 0⟩) s := ⟨1, rfl⟩
  have failed : outcome.fault? = some (.memoryOutOfBounds 4096 2) := by decide +kernel
  have pending : s.pending? saveBeyondMemory.toArray = some (.display .save .memory, 4080) := by
    decide +kernel
  have column : s.display.active.toList[3]? = some 16 := by decide +kernel
  obtain ⟨operation, literal, also, left⟩ := failed_cycle_changes saveBeyondMemory _ input s _
    reached failed
  rw [pending] at also
  cases also
  exact ⟨reached, failed, left.saved .memory rfl _ 3 16 column (by decide), left.inputs, left.cycles,
    left.pc⟩

end Accumulator.Machine
