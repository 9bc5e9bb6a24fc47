import Accumulator.Proofs.Machine.CallFrame

set_option autoImplicit false

/-!
What a program has no use for. Two states that differ in the sampled ports or in the display only
are taken by every cycle to states that do so again, with the same result, unless an operation reads
a port or stores a plane. So the ports have no effect on a program that does not read them, and the
display has none on a program that does not save it.
-/

namespace Accumulator

/-- The operations that read an input port. -/
def Operation.readsPort : Operation → Bool
  | .read _ _ => true
  | _ => false

/-- The operations that bring a plane of the display into memory. -/
def Operation.savesPlane : Operation → Bool
  | .display .save _ => true
  | _ => false

theorem Instruction.mem_of_decode? {code : BitVec 8} {i : Instruction}
    (decoded : Instruction.decode? code = some i) : i ∈ Instruction.table ∧ i.code = code :=
  ⟨List.mem_of_find?_eq_some decoded,
    eq_of_beq (List.find?_some (p := fun i : Instruction => i.code == code) decoded)⟩

theorem Instruction.readsPort_code : ∀ i ∈ Instruction.table,
    i.operation.readsPort = true → 0x46#8 ≤ i.code ∧ i.code ≤ 0x49#8 := by
  decide +kernel

theorem Instruction.savesPlane_code : ∀ i ∈ Instruction.table,
    i.operation.savesPlane = true → i.code = 0x5C#8 := by
  decide +kernel

namespace Machine

/-- No word of a code has an operation of a kind. -/
def Code.Avoids (code : Code) (kind : Operation → Bool) : Prop :=
  ∀ pc w i, code.fetch? pc = some w → Instruction.decode? w.opcode = some i →
    kind i.operation = false

/-- Words avoid a kind of operation if they have none of its opcodes. -/
theorem Code.avoids_of_opcodes (words : List Word) (kind : Operation → Bool)
    (coded : BitVec 8 → Prop)
    (codes : ∀ i ∈ Instruction.table, kind i.operation = true → coded i.code)
    (absent : ∀ w ∈ words, ¬ coded w.opcode) : Code.Avoids words.toArray kind := by
  intro pc w i fetched decoded
  have member := fetch_mem words pc w fetched
  obtain ⟨listed, code⟩ := Instruction.mem_of_decode? decoded
  by_contra present
  have found := codes i listed (Bool.of_not_eq_false present)
  rw [code] at found
  exact absent w member found

/-- Two states that are equal but for the sampled ports and the display, and in the ports too if
`ports` holds, and in the display if `screen` does. -/
structure State.Agrees (ports screen : Prop) (s t : State) : Prop where
  w : t.w = s.w
  memory : t.memory = s.memory
  pc : t.pc = s.pc
  calls : t.calls = s.calls
  frames : t.frames = s.frames
  frameSize : t.frameSize = s.frameSize
  outputs : t.outputs = s.outputs
  inputs : ports → t.inputs = s.inputs
  display : screen → t.display = s.display
  cycles : t.cycles = s.cycles
  halted : t.halted = s.halted

/-- Outcomes of one kind, with the same fault, that leave states which agree. -/
inductive Outcome.Agrees (ports screen : Prop) : Outcome → Outcome → Prop
  | ok {s t : State} (agree : s.Agrees ports screen t) : Agrees ports screen (.ok s) (.ok t)
  | failed (f : Fault) {s t : State} (agree : s.Agrees ports screen t) :
      Agrees ports screen (.failed f s) (.failed f t)

section

variable {ports screen : Prop} {s t : State} {o p : Outcome}

theorem Outcome.Agrees.fault? (agree : o.Agrees ports screen p) : p.fault? = o.fault? := by
  cases agree <;> rfl

theorem Outcome.Agrees.state (agree : o.Agrees ports screen p) :
    o.state.Agrees ports screen p.state := by
  cases agree with
  | ok agree => exact agree
  | failed _ agree => exact agree

namespace State.Agrees

theorem refl (ports screen : Prop) (s : State) : s.Agrees ports screen s :=
  ⟨rfl, rfl, rfl, rfl, rfl, rfl, rfl, fun _ => rfl, fun _ => rfl, rfl, rfl⟩

/-- States that agree are equal once the ports and the display are. -/
theorem eq_of_peripherals (agree : s.Agrees ports screen t) :
    t = { s with inputs := t.inputs, display := t.display } := by
  obtain ⟨w, memory, pc, calls, frames, frameSize, outputs, _, _, cycles, halted⟩ := agree
  rw [← w, ← memory, ← pc, ← calls, ← frames, ← frameSize, ← outputs, ← cycles, ← halted]

theorem withW (agree : s.Agrees ports screen t) (v : Value) :
    ({ s with w := v } : State).Agrees ports screen { t with w := v } :=
  { agree with w := rfl }

theorem advance (agree : s.Agrees ports screen t) : s.advance.Agrees ports screen t.advance :=
  { agree with pc := congrArg (· + 1) agree.pc }

theorem put (agree : s.Agrees ports screen t) (i : Fin memorySize) (v : Value) :
    (s.put i v).Agrees ports screen (t.put i v) :=
  { agree with memory := congrArg (·.set i v) agree.memory }

theorem draw (agree : s.Agrees ports screen t) (change : Display → Display) :
    ({ s with display := change s.display } : State).Agrees ports screen
      { t with display := change t.display } :=
  { agree with display := fun shown => congrArg change (agree.display shown) }

theorem frameBase (agree : s.Agrees ports screen t) : t.frameBase = s.frameBase :=
  congrArg (·.headD 0) agree.frames

theorem cell (agree : s.Agrees ports screen t) (address : Int) :
    t.cell address = s.cell address := by
  simp only [State.cell, agree.frameBase, agree.pc]

theorem load (agree : s.Agrees ports screen t) (address : Int) :
    t.load address = s.load address := by
  unfold State.load
  rw [agree.cell, agree.memory]

theorem loadRows (agree : s.Agrees ports screen t) (address : Int) (n : Nat) :
    t.loadRows address n = s.loadRows address n := by
  induction n with
  | zero => rfl
  | succ n ih =>
    unfold State.loadRows
    rw [ih, agree.load]

theorem enter (agree : s.Agrees ports screen t) (address : Nat) :
    (s.enter address).Agrees ports screen (t.enter address) := by
  refine { agree with pc := rfl, calls := ?_, frames := ?_, frameSize := rfl }
  · change (t.pc + 1) :: t.calls = (s.pc + 1) :: s.calls
    rw [agree.pc, agree.calls]
  · change (t.frameBase + t.frameSize) :: t.frames = (s.frameBase + s.frameSize) :: s.frames
    rw [agree.frameBase, agree.frameSize, agree.frames]

end State.Agrees

/-! The ways of an operation through the memory, from states that agree. -/

theorem loading_agrees (agree : s.Agrees ports screen t) (address : Int) (k l : Value → Outcome)
    (each : ∀ v, (k v).Agrees ports screen (l v)) :
    (s.loading address k).Agrees ports screen (t.loading address l) := by
  unfold State.loading
  rw [agree.load address]
  cases s.load address with
  | ok v => exact each v
  | error f => exact .failed f agree

theorem storing_agrees (agree : s.Agrees ports screen t) {address there : Int} {v u : Value}
    (place : there = address) (value : u = v) :
    (s.storing address v).Agrees ports screen (t.storing there u) := by
  unfold State.storing
  rw [place, value, agree.cell address]
  cases s.cell address with
  | ok i => exact .ok (agree.put i v).advance
  | error f => exact .failed f agree

theorem fetching_agrees (agree : s.Agrees ports screen t) (operand : Operand) (literal : BitVec 24)
    (k l : Value → Outcome) (each : ∀ v, (k v).Agrees ports screen (l v)) :
    (s.fetching operand literal k).Agrees ports screen (t.fetching operand literal l) := by
  unfold State.fetching
  cases operand with
  | literal => exact each _
  | w =>
    rw [agree.w]
    exact each s.w
  | memory => exact loading_agrees agree literal.toNat k l each

theorem storeRows_agrees (agree : s.Agrees ports screen t) (address : Int) (rows : List Value) :
    (s.storeRows address rows).Agrees ports screen (t.storeRows address rows) := by
  induction rows generalizing s t address with
  | nil => exact .ok agree
  | cons row rows ih =>
    unfold State.storeRows
    rw [agree.cell address]
    cases s.cell address with
    | ok i => exact ih (agree.put i row) (address + 1)
    | error f => exact .failed f agree

theorem saving_agrees (agree : s.Agrees ports screen t) (address : Int) {rows others : List Value}
    (same : others = rows) :
    (s.saving address rows).Agrees ports screen (t.saving address others) := by
  have stored := storeRows_agrees agree address rows
  unfold State.saving
  rw [same]
  generalize s.storeRows address rows = o at stored
  generalize t.storeRows address rows = p at stored
  cases stored with
  | ok left => exact .ok left.advance
  | failed f left => exact .failed f left

theorem restoring_agrees (agree : s.Agrees ports screen t) {loaded other : Except Fault Plane}
    (same : other = loaded) :
    (s.restoring loaded).Agrees ports screen (t.restoring other) := by
  rw [same]
  cases loaded with
  | ok plane => exact .ok (agree.draw (·.setActive plane)).advance
  | error f => exact .failed f agree

theorem leave_agrees (agree : s.Agrees ports screen t) :
    s.leave.Agrees ports screen t.leave := by
  unfold State.leave
  rw [agree.calls, agree.frames, agree.pc]
  cases s.calls with
  | nil => exact .failed _ agree
  | cons target calls =>
    cases s.frames with
    | nil => exact .failed _ agree
    | cons base frames =>
      exact .ok { agree with pc := rfl, calls := rfl, frames := rfl, frameSize := rfl }

/-- An operation sees the ports only if it reads one, and feeds nothing of the display back unless
it saves a plane. -/
theorem execute_agrees (agree : s.Agrees ports screen t) (operation : Operation)
    (literal : BitVec 24) (reads : operation.readsPort = true → ports)
    (saves : operation.savesPlane = true → screen) :
    (s.execute operation literal).Agrees ports screen (t.execute operation literal) := by
  unfold State.execute
  cases operation with
  | halt => exact .ok { agree with halted := rfl }
  | nop | pulse => exact .ok agree.advance
  | var =>
    have sized : max t.frameSize literal.toNat = max s.frameSize literal.toNat := by
      rw [agree.frameSize]
    exact .ok { agree.advance with frameSize := sized }
  | movLW => exact .ok (agree.withW _).advance
  | movWF => exact storing_agrees agree rfl agree.w
  | movFW => exact loading_agrees agree _ _ _ fun v => .ok (agree.withW v).advance
  | movLF => exact storing_agrees agree (congrArg BitVec.toInt agree.w) rfl
  | call => exact .ok (agree.enter literal.toNat)
  | ret => exact leave_agrees agree
  | retLW => exact leave_agrees (agree.withW _)
  | retFW => exact loading_agrees agree _ _ _ fun v => leave_agrees (agree.withW v)
  | goto => exact .ok { agree with pc := rfl }
  | arithmetic op transfer =>
    have computed : ∀ v, op.apply t.w v = op.apply s.w v := fun v => by rw [agree.w]
    cases transfer with
    | immediate => exact .ok { agree.advance with w := computed _ }
    | toW =>
      exact loading_agrees agree _ _ _ fun v => .ok { agree.advance with w := computed v }
    | toMemory =>
      exact loading_agrees agree _ _ _ fun v => storing_agrees agree rfl (computed v)
  | compare condition operand skip =>
    apply fetching_agrees agree
    intro v
    have next : t.pc + (if condition.holds t.w v then 1 else skip.val + 2) =
        s.pc + if condition.holds s.w v then 1 else skip.val + 2 := by
      rw [agree.w, agree.pc]
    exact .ok { agree with pc := next }
  | write port operand =>
    apply fetching_agrees agree
    intro v
    exact .ok { agree.advance with outputs := congrArg (·.set port v) agree.outputs }
  | read port toMemory =>
    have sampled : t.inputs.get port = s.inputs.get port :=
      congrArg (·.get port) (agree.inputs (reads rfl))
    cases toMemory with
    | false => exact .ok { agree.advance with w := sampled }
    | true => exact storing_agrees agree rfl sampled
  | display drawing operand =>
    cases drawing with
    | save =>
      have shown : t.display = s.display := agree.display (saves rfl)
      exact saving_agrees agree _ (congrArg (·.active.toList) shown)
    | load => exact restoring_agrees agree (agree.loadRows _ _)
    | clear | render | pixel | horizontal | vertical | rectangle | setFlag =>
      exact fetching_agrees agree operand literal _ _ fun v =>
        .ok (agree.draw (·.execute _ v)).advance

end

section

variable {ports screen : Prop} {code : Code} {input other : Input}

/-- A cycle that fetches no operation of the kinds that could tell two states apart ends in the same
way in both of them. -/
theorem step_agrees (fed : ports → other = input) (reads : ports ∨ code.Avoids Operation.readsPort)
    (saves : screen ∨ code.Avoids Operation.savesPlane) {s t : State}
    (agree : s.Agrees ports screen t) :
    (step code input s).Agrees ports screen (step code other t) := by
  unfold step
  rw [agree.halted, agree.pc, agree.cycles]
  cases s.halted with
  | true => exact .ok agree
  | false =>
    simp only [Bool.false_eq_true, ↓reduceIte]
    cases fetched : code.fetch? s.pc with
    | none => exact .failed _ agree
    | some w =>
      cases decoded : Instruction.decode? w.opcode with
      | none => simpa only [decoded] using .failed _ agree
      | some i =>
        simp only [decoded]
        apply execute_agrees
        · have sampled : ports → other s.cycles = input s.cycles := fun same => by rw [fed same]
          exact { agree with pc := rfl, inputs := sampled, cycles := rfl, halted := rfl }
        · intro isRead
          apply reads.resolve_right
          intro avoids
          rw [avoids s.pc w i fetched decoded] at isRead
          cases isRead
        · intro isSave
          apply saves.resolve_right
          intro avoids
          rw [avoids s.pc w i fetched decoded] at isSave
          cases isSave

/-- Cycle by cycle the results are the same, and the states go on to agree. -/
theorem after_agrees (fed : ports → other = input)
    (reads : ports ∨ code.Avoids Operation.readsPort)
    (saves : screen ∨ code.Avoids Operation.savesPlane) {s t : State}
    (agree : s.Agrees ports screen t) (n : Nat) :
    results code other t n = results code input s n ∧
      (after code input s n).Agrees ports screen (after code other t n) := by
  induction n with
  | zero => exact ⟨rfl, agree⟩
  | succ n ih =>
    obtain ⟨same, here⟩ := ih
    have stepped := step_agrees fed reads saves here
    refine ⟨?_, stepped.state⟩
    unfold results
    rw [same, stepped.fault?]

theorem runObserving_agrees (fed : ports → other = input)
    (reads : ports ∨ code.Avoids Operation.readsPort)
    (saves : screen ∨ code.Avoids Operation.savesPlane) {s t : State}
    (agree : s.Agrees ports screen t) (budget : Nat) :
    (runObserving (fun _ _ => ()) code input budget () s).2.Agrees ports screen
      (runObserving (fun _ _ => ()) code other budget () t).2 := by
  induction budget generalizing s t with
  | zero =>
    unfold runObserving
    rw [agree.halted, agree.cycles]
    cases s.halted with
    | true => exact .ok agree
    | false => exact .failed _ agree
  | succ budget ih =>
    have stepped := step_agrees fed reads saves agree
    unfold runObserving
    rw [agree.halted]
    cases s.halted with
    | true => exact .ok agree
    | false =>
      simp only [Bool.false_eq_true, ↓reduceIte]
      generalize step code input s = o at stepped
      generalize step code other t = p at stepped
      cases stepped with
      | ok next => exact ih next
      | failed f left => exact .failed f left

end

/-- A program without an operation that reads a port runs in the same way on all inputs: cycle by
cycle and under every ceiling the results are the same, and so is all that the state holds but the
ports that were sampled last. -/
theorem unread_ports_have_no_effect (words : List Word) (input other : Input)
    (unread : ∀ w ∈ words, ¬ (0x46#8 ≤ w.opcode ∧ w.opcode ≤ 0x49#8)) :
    (∀ n, results words.toArray other State.start n = results words.toArray input State.start n ∧
      ∃ inputs, after words.toArray other State.start n =
        { after words.toArray input State.start n with inputs }) ∧
    ∀ limit,
      let p := ({ Processor.load words with limit } : Processor).run input
      let q := ({ Processor.load words with limit } : Processor).run other
      q.2 = p.2 ∧ ∃ inputs, q.1.state = { p.1.state with inputs } := by
  have avoids : Code.Avoids words.toArray Operation.readsPort :=
    Code.avoids_of_opcodes words Operation.readsPort (fun code => 0x46#8 ≤ code ∧ code ≤ 0x49#8)
      Instruction.readsPort_code unread
  have fed : False → other = input := nofun
  have start := State.Agrees.refl False True State.start
  have only : ∀ s t : State, s.Agrees False True t → ∃ inputs, t = { s with inputs } := by
    intro s t agree
    refine ⟨t.inputs, ?_⟩
    have same := agree.eq_of_peripherals
    rwa [agree.display trivial] at same
  constructor
  · intro n
    obtain ⟨same, agree⟩ := after_agrees fed (.inr avoids) (.inl trivial) start n
    exact ⟨same, only _ _ agree⟩
  · intro limit p q
    have agree := runObserving_agrees fed (.inr avoids) (.inl trivial) start
      (limit - State.start.cycles)
    exact ⟨agree.fault?, only _ _ agree.state⟩

/-- Writes to a port and draws, then returns without a call. -/
def beacon : List Word := [⟨0x04, 7⟩, ⟨0x41, 0⟩, ⟨0x52, 196⟩, ⟨0x51, 0⟩, ⟨0x09, 0⟩]

/-- Ports that change in every cycle leave no trace but themselves, up to the fault that ends the
run. -/
theorem beacon_ignores_ports :
    let still : Input := fun _ => ⟨0, 0⟩
    let moving : Input := fun n => ⟨BitVec.ofNat 32 n, 1⟩
    (∀ w ∈ beacon, ¬ (0x46#8 ≤ w.opcode ∧ w.opcode ≤ 0x49#8)) ∧
      results beacon.toArray moving State.start 5 =
        [none, none, none, none, some (.callStackUnderflow 5)] ∧
      (after beacon.toArray still State.start 5).inputs = ⟨0, 0⟩ ∧
      (after beacon.toArray moving State.start 5).inputs = ⟨4, 1⟩ ∧
      let q := ({ Processor.load beacon with limit := 9 } : Processor).run moving
      q.2 = some (.callStackUnderflow 5) ∧ q.1.state.outputs.one = 7 ∧ q.1.state.cycles = 5 ∧
        q.1.state.display.screen.pixel 3 4 = true := by
  intro still moving
  have unread : ∀ w ∈ beacon, ¬ (0x46#8 ≤ w.opcode ∧ w.opcode ≤ 0x49#8) := by decide
  obtain ⟨cycles, runs⟩ := unread_ports_have_no_effect beacon still moving unread
  have traced : results beacon.toArray still State.start 5 =
      [none, none, none, none, some (.callStackUnderflow 5)] := by decide +kernel
  have ends : let p := ({ Processor.load beacon with limit := 9 } : Processor).run still
      p.2 = some (.callStackUnderflow 5) ∧ p.1.state.outputs.one = 7 ∧ p.1.state.cycles = 5 ∧
        p.1.state.display.screen.pixel 3 4 = true := by decide +kernel
  obtain ⟨fault, inputs, left⟩ := runs 9
  refine ⟨unread, (cycles 5).1.trans traced, by decide +kernel, by decide +kernel, ?_⟩
  dsimp only at fault left ends ⊢
  rw [fault, left]
  dsimp only
  exact ends

/-- A program that does not save a plane computes the same whatever is on the display: from two
states that differ in the display only, the results are the same cycle by cycle, and the states go
on to differ in the display only. -/
theorem unsaved_display_feeds_nothing_back (words : List Word) (input : Input) (s : State)
    (display : Display) (unsaved : ∀ w ∈ words, w.opcode ≠ 0x5C#8) (n : Nat) :
    results words.toArray input { s with display } n = results words.toArray input s n ∧
      ∃ shown, after words.toArray input { s with display } n =
        { after words.toArray input s n with display := shown } := by
  have avoids : Code.Avoids words.toArray Operation.savesPlane :=
    Code.avoids_of_opcodes words Operation.savesPlane (· = 0x5C#8) Instruction.savesPlane_code
      unsaved
  have start : s.Agrees True False { s with display } :=
    { State.Agrees.refl True False s with display := nofun }
  obtain ⟨same, agree⟩ := after_agrees (fun _ => rfl) (.inl trivial) (.inr avoids) start n
  refine ⟨same, (after words.toArray input { s with display } n).display, ?_⟩
  have left := agree.eq_of_peripherals
  rwa [agree.inputs trivial] at left

/-- Sets the flag and draws from memory, then loads a plane that reaches beyond the memory. -/
def sketch : List Word := [⟨0x5B, 1⟩, ⟨0x55, 2⟩, ⟨0x5D, 4080⟩]

/-- A pixel that is on the display before the start is there at the end, and makes no difference to
the fault. -/
theorem sketch_fails_alike :
    let input : Input := fun _ => ⟨0, 0⟩
    let marked : Display := Display.blank.execute .pixel 196
    (∀ w ∈ sketch, w.opcode ≠ 0x5C#8) ∧
      results sketch.toArray input { State.start with display := marked } 3 =
        [none, none, some (.memoryOutOfBounds 4096 3)] ∧
      (after sketch.toArray input State.start 3).display.first.pixel 3 4 = false ∧
      (after sketch.toArray input { State.start with display := marked } 3).display.first.pixel 3 4 =
        true ∧
      (after sketch.toArray input { State.start with display := marked } 3).pc = 3 := by
  intro input marked
  have unsaved : ∀ w ∈ sketch, w.opcode ≠ 0x5C#8 := by decide
  obtain ⟨same, shown, left⟩ :=
    unsaved_display_feeds_nothing_back sketch input State.start marked unsaved 3
  have traced : results sketch.toArray input State.start 3 =
      [none, none, some (.memoryOutOfBounds 4096 3)] := by decide +kernel
  have place : (after sketch.toArray input State.start 3).pc = 3 := by decide +kernel
  have kept : (after sketch.toArray input { State.start with display := marked } 3).pc =
      (after sketch.toArray input State.start 3).pc := by rw [left]
  exact ⟨unsaved, same.trans traced, by decide +kernel, by decide +kernel, kept.trans place⟩

end Machine

end Accumulator
