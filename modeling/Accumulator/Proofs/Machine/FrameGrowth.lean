import Accumulator.Proofs.Machine.CallReturn
import Accumulator.Proofs.Machine.CycleByCycle
import Accumulator.Proofs.Program.Fetch

set_option autoImplicit false

/-!
How large the addresses of a run become. The program counter stays close to the words of the program. A
frame base is the sum of the frames below it, and each of these takes a cycle to be declared and one to
be left by a call: so it grows by at most one frame with every other cycle, and a program of two words
makes it grow as fast as that.
-/

namespace Accumulator.Machine

/-- No word of a program declares more than `largest` cells. -/
def FramesUpTo (words : List Word) (largest : Nat) : Prop :=
  ∀ w ∈ words, ∀ i ∈ Instruction.decode? w.opcode, i.operation = .var → w.literal.toNat ≤ largest

section Counter

/-- No return address is behind a bound, and the program counter is at most 16 words behind it, which is
as far as a comparison skips. -/
structure Control.Near (c : Control) (bound : Nat) : Prop where
  pc : c.pc ≤ bound + 16
  calls : ∀ target ∈ c.calls, target ≤ bound

theorem Control.Near.step {c d : Control} {bound : Nat} {operation : Operation}
    {literal : BitVec 24} {fault : Option Fault} (near : c.Near bound) (wide : literalBound ≤ bound)
    (inside : c.pc < bound) (stepped : Control.Step operation literal c fault d) :
    d.Near bound := by
  obtain ⟨pc, calls⟩ := near
  have target : literal.toNat < literalBound := literal.isLt
  cases stepped with
  | failed | halt => exact ⟨pc, calls⟩
  | plain | declare => exact ⟨by dsimp only; omega, calls⟩
  | goto => exact ⟨by dsimp only; omega, calls⟩
  | compare condition operand skip holds =>
    refine ⟨?_, calls⟩
    have skips := skip.isLt
    dsimp only
    split <;> omega
  | call =>
    refine ⟨by dsimp only; omega, fun address member => ?_⟩
    rcases List.mem_cons.mp member with rfl | below
    · exact inside
    · exact calls address below
  | leave returns address base below frames called =>
    rw [called] at calls
    refine ⟨?_, fun other member => calls other (List.mem_cons_of_mem _ member)⟩
    exact Nat.le_trans (calls address List.mem_cons_self) (Nat.le_add_right _ _)

end Counter

section Frames

/-- The frames are no larger than declarations of at most `largest` cells can make them in a number of
cycles. -/
structure Control.Grown (c : Control) (largest cycles : Nat) : Prop where
  nested : c.Nested
  base : c.frameBase ≤ largest * (cycles / 2)
  frameEnd : c.frameEnd ≤ largest * ((cycles + 1) / 2)

/-- Of two cycles one can declare a frame, and the other can leave it below. -/
theorem Control.Grown.step {c d : Control} {operation : Operation} {literal : BitVec 24}
    {fault : Option Fault} {largest cycles : Nat} (grown : c.Grown largest cycles)
    (stepped : Control.Step operation literal c fault d)
    (declared : operation = .var → literal.toNat ≤ largest) : d.Grown largest (cycles + 1) := by
  have nested := grown.nested.step stepped
  have base := grown.base
  have frameEnd := grown.frameEnd
  have half : largest * (cycles / 2) ≤ largest * ((cycles + 1) / 2) :=
    Nat.mul_le_mul_left _ (by omega)
  have whole : largest * ((cycles + 1 + 1) / 2) = largest * (cycles / 2) + largest := by
    rw [show (cycles + 1 + 1) / 2 = cycles / 2 + 1 by omega, Nat.mul_succ]
  have later : largest * ((cycles + 1) / 2) ≤ largest * ((cycles + 1 + 1) / 2) :=
    Nat.mul_le_mul_left _ (by omega)
  cases stepped with
  | failed | halt | plain | goto | compare =>
    exact ⟨nested, Nat.le_trans base half, Nat.le_trans frameEnd later⟩
  | declare isVar =>
    have small := declared isVar
    refine ⟨nested, Nat.le_trans base half, ?_⟩
    unfold Control.frameEnd Control.frameBase at *
    dsimp only
    omega
  | call =>
    exact ⟨nested, frameEnd, Nat.le_trans frameEnd later⟩
  | leave returns target top calls below called framed =>
    have uncovered := grown.nested.below_le framed
    unfold Control.frameEnd Control.frameBase at *
    rw [framed, List.headD_cons] at base
    refine ⟨nested, ?_, ?_⟩
    · unfold Control.frameBase
      dsimp only
      omega
    · unfold Control.frameEnd Control.frameBase
      dsimp only
      omega

end Frames

section Reached

variable {words : List Word} {input : Input} {s : State}

theorem pending_pc_le {operation : Operation} {literal : BitVec 24}
    (pending : s.pending? words.toArray = some (operation, literal)) : s.pc ≤ words.length := by
  obtain ⟨_, word, _, fetched, _⟩ := (pending_eq_some_iff _ s operation literal).mp pending
  obtain ⟨_, found⟩ := (fetch?_eq_some_iff words s.pc word).mp fetched
  have inside : s.pc - 1 < words.length := (List.getElem?_eq_some_iff.mp found).1
  omega

theorem FramesUpTo.of_pending {largest : Nat} (small : FramesUpTo words largest)
    {literal : BitVec 24} (pending : s.pending? words.toArray = some (.var, literal)) :
    literal.toNat ≤ largest := by
  obtain ⟨_, word, i, fetched, decoded, declares, rfl⟩ :=
    (pending_eq_some_iff _ s .var literal).mp pending
  exact small word (fetch_mem words s.pc word fetched) i decoded declares

theorem Reachable.near {bound : Nat} (reached : Reachable words input s)
    (wide : literalBound ≤ bound) (short : words.length < bound) : s.control.Near bound := by
  apply reached.invariant (fun t => t.control.Near bound)
    ⟨Nat.le_add_left 1 (bound + 15), List.forall_mem_nil _⟩
  intro t near
  rcases step_control words.toArray input t with idle | ⟨operation, literal, pending, stepped⟩
  · rw [idle]
    exact near
  · exact near.step wide (Nat.lt_of_le_of_lt (pending_pc_le pending) short) stepped

theorem Reachable.grown {largest : Nat} (reached : Reachable words input s)
    (small : FramesUpTo words largest) : s.control.Grown largest s.cycles := by
  apply reached.invariant (fun t => t.control.Grown largest t.cycles)
    ⟨List.Pairwise.nil, Nat.zero_le _, Nat.zero_le _⟩
  intro t grown
  rcases step_control words.toArray input t with idle | ⟨operation, literal, pending, stepped⟩
  · rw [idle]
    exact grown
  · rw [step_cycles_of_pending input pending]
    apply grown.step stepped
    rintro rfl
    exact small.of_pending pending

/-- A cycle of a program that is short enough breaks off through its frame base alone. -/
theorem Reachable.step?_of_frame (reached : Reachable words input s)
    (short : words.length + 17 < addressBound)
    (frame : (step words.toArray input s).state.frameBase < addressBound) :
    step? words.toArray input s = some (step words.toArray input s) := by
  have room : literalBound + 16 < addressBound := by decide
  cases pending : s.pending? words.toArray with
  | none => exact step?_of_idle (step_of_idle words.toArray input s pending)
  | some carried =>
    have here := pending_pc_le pending
    have next : (step words.toArray input s).state.pc ≤ max literalBound (words.length + 1) + 16 :=
      ((reached.after 1).near (Nat.le_max_left _ _) (by omega)).pc
    apply step?_of_bounds _ _ frame <;> omega

end Reached

section Nesting

/-- A function that declares a frame and calls itself. -/
def nesting (size : Nat) : List Word := [⟨0x03, BitVec.ofNat 24 size⟩, ⟨0x08, 1⟩]

/-- A state of this program after so many cycles: no state has larger frames. -/
structure Nests (size : Nat) (s : State) (cycles : Nat) : Prop where
  running : s.halted = false
  counted : s.cycles = cycles
  pc : s.pc = cycles % 2 + 1
  base : s.frameBase = size * (cycles / 2)
  frameEnd : s.frameBase + s.frameSize = size * ((cycles + 1) / 2)

variable {size cycles : Nat} {input : Input} {s : State}

theorem decode_var : Instruction.decode? 0x03 = some ⟨"VAR", 0x03, .var⟩ := by
  decide

theorem decode_call : Instruction.decode? 0x08 = some ⟨"CALL", 0x08, .call⟩ := by
  decide

theorem nesting_framesUpTo (field : size < literalBound) : FramesUpTo (nesting size) size := by
  intro w member i decoded isVar
  rcases List.mem_pair.mp member with rfl | rfl
  · exact Nat.le_of_eq (literal_exact field)
  · cases decode_call.symm.trans decoded
    cases isVar

theorem Nests.pending_var (nests : Nests size s cycles) (even : cycles % 2 = 0) :
    s.pending? (nesting size).toArray = some (.var, BitVec.ofNat 24 size) := by
  rw [pending_eq_some_iff, nests.pc, even]
  exact ⟨nests.running, _, _, rfl, decode_var, rfl, rfl⟩

theorem Nests.pending_call (nests : Nests size s cycles) (odd : cycles % 2 = 1) :
    s.pending? (nesting size).toArray = some (.call, 1) := by
  rw [pending_eq_some_iff, nests.pc, odd]
  exact ⟨nests.running, _, _, rfl, decode_call, rfl, rfl⟩

theorem Nests.declare (nests : Nests size s cycles) (even : cycles % 2 = 0) :
    Nests size { s.sample input with frameSize := max s.frameSize size }.advance (cycles + 1) := by
  obtain ⟨running, counted, pc, base, frameEnd⟩ := nests
  have same : (cycles + 1) / 2 = cycles / 2 := by omega
  have empty : s.frameSize = 0 := by
    rw [same, base] at frameEnd
    omega
  refine ⟨running, ?_, ?_, ?_, ?_⟩
  · exact congrArg (· + 1) counted
  · change s.pc + 1 = _
    omega
  · rw [same]
    exact base
  · change s.frameBase + max s.frameSize size = _
    rw [base, empty, Nat.zero_max, show (cycles + 1 + 1) / 2 = cycles / 2 + 1 by omega, Nat.mul_succ]

theorem Nests.enter (nests : Nests size s cycles) (odd : cycles % 2 = 1) :
    Nests size ((s.sample input).enter 1) (cycles + 1) := by
  obtain ⟨running, counted, pc, base, frameEnd⟩ := nests
  refine ⟨running, ?_, ?_, frameEnd, ?_⟩
  · exact congrArg (· + 1) counted
  · change 1 = _
    omega
  · rw [show (cycles + 1 + 1) / 2 = (cycles + 1) / 2 by omega]
    exact frameEnd

theorem Nests.step (nests : Nests size s cycles) (field : size < literalBound) :
    (step (nesting size).toArray input s).fault? = none ∧
      Nests size (step (nesting size).toArray input s).state (cycles + 1) := by
  rcases Nat.mod_two_eq_zero_or_one cycles with even | odd
  · rw [step_of_pending _ input s _ _ (nests.pending_var even)]
    refine ⟨rfl, ?_⟩
    change Nests size { s.sample input with
      frameSize := max s.frameSize (BitVec.ofNat 24 size).toNat }.advance _
    rw [literal_exact field]
    exact nests.declare even
  · rw [step_of_pending _ input s _ _ (nests.pending_call odd)]
    exact ⟨rfl, nests.enter odd⟩

theorem nests_after (field : size < literalBound) (input : Input) (n : Nat) :
    Nests size (after (nesting size).toArray input State.start n) n := by
  induction n with
  | zero => exact ⟨rfl, rfl, rfl, rfl, rfl⟩
  | succ n ih => exact (ih.step field).2

/-- A processor that runs this program and is not past a cycle. -/
structure NestsUntil (size n : Nat) (p : Processor) : Prop where
  code : p.code = (nesting size).toArray
  limit : p.limit = defaultLimit
  nests : Nests size p.state p.state.cycles
  early : p.state.cycles ≤ n

/-- A call of it whose frame would begin out of bounds is the last cycle. -/
theorem NestsUntil.step? {p q : Processor} {n : Nat} {fault : Option Fault}
    (here : NestsUntil size n p) (field : size < literalBound) (odd : n % 2 = 1)
    (beyond : addressBound ≤ size * ((n + 1) / 2)) (taken : p.step? input = some (q, fault)) :
    fault = none ∧ NestsUntil size n q := by
  obtain ⟨code, limit, nests, early⟩ := here
  have same := Processor.step_of_step? taken
  unfold Processor.step at same
  rw [code] at same
  obtain ⟨rfl, rfl⟩ := Prod.mk.inj same
  have next : (Machine.step (nesting size).toArray input p.state).fault? = none ∧
      Nests size (Machine.step (nesting size).toArray input p.state).state (p.state.cycles + 1) :=
    nests.step field
  have counted := next.2.counted
  refine ⟨next.1, rfl, limit, counted ▸ next.2, ?_⟩
  change (Machine.step (nesting size).toArray input p.state).state.cycles ≤ n
  rw [counted]
  by_contra last
  -- A cycle that leads past `n` is the call itself, and that one breaks off.
  rw [show p.state.cycles = n by omega] at nests
  have breaks : Machine.step? p.code input p.state = none :=
    code ▸ step?_of_call (nests.pending_call odd) (nests.frameEnd ▸ beyond)
  cases (Processor.step?_eq_none_iff.mpr breaks).symm.trans taken

/-- Where the next frame would begin out of bounds, the run of this program breaks off. -/
theorem nesting_breaks_off (field : size < literalBound) (input : Input) {n : Nat} (odd : n % 2 = 1)
    (less : n < defaultLimit) (beyond : addressBound ≤ size * ((n + 1) / 2)) :
    (Processor.load (nesting size)).run? input = none := by
  obtain ⟨states, q, result, traversed, ends⟩ := (Processor.load (nesting size)).exists_ends input
  have start : NestsUntil size n (Processor.load (nesting size)) :=
    ⟨rfl, rfl, nests_after field input 0, Nat.zero_le n⟩
  have last : NestsUntil size n q :=
    Processor.stepped?_invariant (NestsUntil size n)
      (fun _ _ _ now taken => (now.step? field odd beyond taken).2) _ start traversed.stepped?
  rw [traversed.run?, ends.run?]
  cases ends with
  | halted halted =>
    rw [last.nests.running] at halted
    cases halted
  | timedOut running reached =>
    rw [last.limit] at reached
    have early := last.early
    omega
  | failed f r running below failure => cases (last.step? field odd beyond failure).1
  | broken running below breaks => rfl

end Nesting

section Fitting

/-- Every call under the default ceiling has a frame in bounds, with declarations of at most `largest`
cells. -/
def CallsFit (largest : Nat) : Prop :=
  ∀ (words : List Word) (input : Input), words.length < literalBound → FramesUpTo words largest →
    ∀ (s : State) (literal : BitVec 24), Reachable words input s → s.cycles < defaultLimit →
      s.pending? words.toArray = some (.call, literal) → s.frameBase + s.frameSize < addressBound

/-- No run under the default ceiling breaks off, with declarations of at most `largest` cells. -/
def RunsThrough (largest : Nat) : Prop :=
  ∀ (words : List Word) (input : Input), words.length < literalBound → FramesUpTo words largest →
    (Processor.load words).run? input = some ((Processor.load words).run input)

variable {largest : Nat}

theorem callsFit_of_small (small : largest * (defaultLimit / 2) < addressBound) :
    CallsFit largest := by
  intro words input short frames s literal reached early calling
  have grown := (reached.grown frames).frameEnd
  have slower : largest * ((s.cycles + 1) / 2) ≤ largest * (defaultLimit / 2) :=
    Nat.mul_le_mul_left _ (by omega)
  exact Nat.lt_of_le_of_lt (Nat.le_trans grown slower) small

theorem runsThrough_of_small (small : largest * (defaultLimit / 2) < addressBound) :
    RunsThrough largest := by
  intro words input short frames
  rcases (Processor.load words).run?_cases input with ⟨⟨j, less, broken⟩, _⟩ | through
  · have reached : Reachable words input (after words.toArray input State.start j) := ⟨j, rfl⟩
    have next : Reachable words input (after words.toArray input State.start (j + 1)) := ⟨j + 1, rfl⟩
    have early : j < defaultLimit := less
    have counted : (after words.toArray input State.start (j + 1)).cycles ≤ 0 + (j + 1) :=
      after_cycles_le words.toArray input State.start (j + 1)
    have slower : largest * ((after words.toArray input State.start (j + 1)).cycles / 2) ≤
        largest * (defaultLimit / 2) :=
      Nat.mul_le_mul_left _ (by omega)
    have room : literalBound + 17 < addressBound := by decide
    have taken := reached.step?_of_frame (by omega)
      (Nat.lt_of_le_of_lt (Nat.le_trans (next.grown frames).base slower) small)
    cases broken.symm.trans taken
  · exact through

/-- The program counter stays in bounds, and the sum for a new frame base and the runs do so for
exactly the declarations that are small enough: the ceiling leaves time for half as many frames. -/
theorem addresses_fit_iff (largest : Nat) (field : largest < literalBound) :
    (∀ (words : List Word) (input : Input) (s : State) (operation : Operation) (literal : BitVec 24),
      words.length < literalBound → Reachable words input s →
      s.pending? words.toArray = some (operation, literal) →
      s.pc + 1 < addressBound ∧
        ∀ condition operand skip, operation = .compare condition operand skip →
          s.pc + skip.val + 2 < addressBound) ∧
    (CallsFit largest ↔ largest * (defaultLimit / 2) < addressBound) ∧
    (RunsThrough largest ↔ largest * (defaultLimit / 2) < addressBound) := by
  have ports : Input := fun _ => ⟨0, 0⟩
  have last := nests_after field ports (defaultLimit - 1)
  have small := nesting_framesUpTo field
  have short : (nesting largest).length < literalBound := by
    change 2 < literalBound
    decide
  refine ⟨?_, ⟨fun fit => ?_, callsFit_of_small⟩, ⟨fun through => ?_, runsThrough_of_small⟩⟩
  · intro words input s operation literal short reached pending
    have room : literalBound + 16 < addressBound := by decide
    have here := pending_pc_le pending
    refine ⟨by omega, fun condition operand skip _ => ?_⟩
    have skips := skip.isLt
    omega
  · have called := fit (nesting largest) ports short small _ 1 ⟨defaultLimit - 1, rfl⟩
      (by rw [last.counted]; decide) (last.pending_call (by decide))
    rw [last.frameEnd] at called
    exact called
  · by_contra large
    have broken := nesting_breaks_off field ports (n := defaultLimit - 1) (by decide) (by decide)
      (Nat.not_lt.mp large)
    rw [through (nesting largest) ports short small] at broken
    cases broken

/-- The bound is 171798 cells. -/
theorem callsFit_up_to :
    171798 < literalBound ∧ CallsFit 171798 ∧ RunsThrough 171798 ∧
      ¬ CallsFit 171799 ∧ ¬ RunsThrough 171799 := by
  have field : 171799 < literalBound := by decide
  have below := addresses_fit_iff 171798 (Nat.lt_of_succ_lt field)
  have above := addresses_fit_iff 171799 field
  have small : 171798 * (defaultLimit / 2) < addressBound := by decide
  have large : ¬ 171799 * (defaultLimit / 2) < addressBound := by decide
  exact ⟨Nat.lt_of_succ_lt field, below.2.1.mpr small, below.2.2.mpr small, mt above.2.1.mp large,
    mt above.2.2.mp large⟩

/-- With the largest frame that a literal can declare, the 257th call of itself has a frame out of
bounds, and the run breaks off. -/
theorem nesting_leaves_bounds :
    let words := nesting 0xFFFFFF
    let input : Input := fun _ => ⟨0, 0⟩
    words.length < literalBound ∧
      (∃ s literal, Reachable words input s ∧ s.cycles < defaultLimit ∧
        s.pending? words.toArray = some (.call, literal) ∧
        ¬ s.frameBase + s.frameSize < addressBound) ∧
      simulate? words input = none := by
  intro words input
  have field : 0xFFFFFF < literalBound := by decide
  have nests := nests_after field input 513
  refine ⟨by decide, ⟨_, 1, ⟨513, rfl⟩, ?_, nests.pending_call (by decide), ?_⟩, ?_⟩
  · rw [nests.counted]
    decide
  · rw [nests.frameEnd]
    decide
  · unfold simulate?
    rw [nesting_breaks_off field input (n := 513) (by decide) (by decide) (by decide)]
    rfl

end Fitting

end Accumulator.Machine
