import Accumulator.Proofs.Machine.Contract
import Mathlib.Data.Nat.Fib.Basic

set_option autoImplicit false

/-!
A recursive function for the Fibonacci numbers. Its words are given here with the address of each. A
call returns the number for its argument in W and leaves the cells of its callers as they are; this is
proved along the recursion of the Fibonacci numbers, with a contract for each piece of straight code.
-/

namespace Accumulator.Fibonacci

open Machine

/-- The main scope passes `n` to the function and writes what it returns to the second port. The
function begins at address nine, and its argument is its first variable. -/
def words (n : Nat) : List Word :=
  [⟨0x03, 1⟩, ⟨0x40, 0⟩, ⟨0x04, BitVec.ofNat 24 n⟩, ⟨0x05, 2⟩, ⟨0x08, 9⟩, ⟨0x05, 1⟩, ⟨0x45, 1⟩,
   Word.halt,
   ⟨0x03, 1⟩, ⟨0x03, 2⟩, ⟨0x03, 3⟩, ⟨0x06, 1⟩, ⟨0xC0, 2⟩, ⟨0x0B, 1⟩,
   ⟨0x23, 1⟩, ⟨0x05, 2⟩, ⟨0x06, 2⟩, ⟨0x05, 4⟩, ⟨0x08, 9⟩,
   ⟨0x05, 3⟩, ⟨0x06, 1⟩, ⟨0x13, 2⟩, ⟨0x05, 2⟩, ⟨0x06, 2⟩, ⟨0x05, 4⟩, ⟨0x08, 9⟩,
   ⟨0x11, 3⟩, ⟨0x09, 0⟩]

def code (n : Nat) : Code := (words n).toArray

/-- The number of cycles from the entry of the function to its return. -/
def cycles : Nat → Nat
  | 0 | 1 => 5 + 1
  | k + 2 => 5 + 5 + cycles (k + 1) + 7 + cycles k + 2

section Numbers

theorem holds_less_two (k : Nat) (fits : k < memorySize) :
    Condition.less.holds (BitVec.ofNat 32 k) ((2 : BitVec 24).setWidth 32) = decide (k < 2) := by
  have number : (BitVec.ofNat 32 k).toNat = k := by
    rw [BitVec.toNat_ofNat]
    unfold memorySize at fits
    omega
  have signed : (BitVec.ofNat 32 k).toInt = k := by
    unfold memorySize at fits
    rw [BitVec.toInt_eq_toNat_of_lt (by omega), number]
  change decide ((BitVec.ofNat 32 k).toInt < ((2 : BitVec 24).setWidth 32).toInt) = _
  rw [signed]
  exact decide_eq_decide.mpr Int.ofNat_lt

theorem apply_decr (k : Nat) (w : Value) :
    Arithmetic.decr.apply w (BitVec.ofNat 32 (k + 1)) = BitVec.ofNat 32 k := by
  change BitVec.ofNat 32 (k + 1) - 1#32 = _
  rw [BitVec.ofNat_add, BitVec.add_sub_cancel]

theorem apply_sub_two (k : Nat) :
    Arithmetic.sub.apply (BitVec.ofNat 32 (k + 2)) ((2 : BitVec 24).setWidth 32) =
      BitVec.ofNat 32 k := by
  change BitVec.ofNat 32 (k + 2) - 2#32 = _
  rw [BitVec.ofNat_add, BitVec.add_sub_cancel]

theorem apply_add_fib (k : Nat) :
    Arithmetic.add.apply (BitVec.ofNat 32 (Nat.fib k)) (BitVec.ofNat 32 (Nat.fib (k + 1))) =
      BitVec.ofNat 32 (Nat.fib (k + 2)) := by
  rw [Nat.fib_add_two, BitVec.ofNat_add]
  rfl

end Numbers

/-- The operations of the words. -/
def operations : List Operation :=
  [.var, .write .one .literal, .movLW, .movWF, .call, .movWF, .write .two .memory, .halt,
   .var, .var, .var, .movFW, .compare .less .literal 0, .retFW,
   .arithmetic .decr .toW, .movWF, .movFW, .movWF, .call,
   .movWF, .movFW, .arithmetic .sub .immediate, .movWF, .movFW, .movWF, .call,
   .arithmetic .add .toW, .ret]

theorem decode_words (n : Nat) :
    (words n).map (fun w => (Instruction.decode? w.opcode).map Instruction.operation) =
      operations.map some := by
  have opcodes : (words n).map Word.opcode = (words 0).map Word.opcode := rfl
  have decoded : ((words 0).map Word.opcode).map
      (fun opcode => (Instruction.decode? opcode).map Instruction.operation) =
        operations.map some := by
    decide +kernel
  rw [← opcodes, List.map_map] at decoded
  exact decoded

theorem carries {n i : Nat} (literal : BitVec 24) {operation : Operation}
    (placed : (words n)[i]?.map Word.literal = some literal)
    (operates : operations[i]? = some operation) :
    (code n).Carries (i + 1) operation literal := by
  obtain ⟨word, found, carried⟩ := Option.map_eq_some_iff.mp placed
  have decoded := congrArg (·[i]?) (decode_words n)
  simp only [List.getElem?_map, found, operates, Option.map_some] at decoded
  refine ⟨word, ?_, Option.some.inj decoded, carried⟩
  unfold code Code.fetch?
  rw [if_neg (Nat.succ_ne_zero i), Nat.add_sub_cancel, List.getElem?_toArray]
  exact found

section Blocks

variable {n k target : Nat} {a : Activation} {w : Value} {cells : Nat → Value}

/-- The function declares its variables and compares its argument with two. -/
theorem goes_test (room : a.base + a.frameSize + 1 < memorySize) (fits : k < memorySize)
    (argument : cells (a.base + a.frameSize + 1) = BitVec.ofNat 32 k) :
    Goes (code n) 5 ⟨a.called target, 9, w, cells⟩
      ⟨(a.called target).sized 3, if k < 2 then 14 else 15, BitVec.ofNat 32 k, cells⟩ := by
  have branch : (13 + if Condition.less.holds (BitVec.ofNat 32 k) ((2 : BitVec 24).setWidth 32) then 1
      else (0 : Fin 16).val + 2) = if k < 2 then 14 else 15 := by
    rw [holds_less_two k fits]
    by_cases small : k < 2 <;> simp [small]
  rw [← branch]
  calc Goes (code n) 1 ⟨a.called target, 9, w, cells⟩ ⟨(a.called target).sized 1, 10, w, cells⟩ :=
        goes_var (carries 1 rfl rfl)
    Goes (code n) 1 _ ⟨(a.called target).sized 2, 11, w, cells⟩ :=
        goes_var (carries 2 rfl rfl)
    Goes (code n) 1 _ ⟨(a.called target).sized 3, 12, w, cells⟩ :=
        goes_var (carries 3 rfl rfl)
    Goes (code n) 1 _ ⟨(a.called target).sized 3, 13, BitVec.ofNat 32 k, cells⟩ :=
        goes_movFW (carries 1 rfl rfl) rfl room argument
    Goes (code n) 1 _ _ := goes_compare (carries 2 rfl rfl)

/-- An argument below two is returned. -/
theorem goes_small (room : a.base + a.frameSize + 1 < memorySize) (small : k < 2)
    (argument : cells (a.base + a.frameSize + 1) = BitVec.ofNat 32 k) :
    Goes (code n) (5 + 1) ⟨a.called target, 9, w, cells⟩
      ⟨a, target, BitVec.ofNat 32 (Nat.fib k), cells⟩ := by
  have same : Nat.fib k = k := by
    obtain rfl | rfl : k = 0 ∨ k = 1 := by omega
    · rfl
    · rfl
  have test : Goes (code n) 5 ⟨a.called target, 9, w, cells⟩ _ :=
    goes_test room (by unfold memorySize; omega) argument
  rw [if_pos small] at test
  rw [same]
  calc Goes (code n) 5 ⟨a.called target, 9, w, cells⟩ _ := test
    Goes (code n) 1 _ ⟨a, target, BitVec.ofNat 32 k, cells⟩ :=
        goes_retFW (carries 1 rfl rfl) rfl room argument

/-- The cells after an argument has been passed: it is kept in the second variable of the frame, and
stored in the first of the next frame. -/
def passed (b : Activation) (x : Value) (cells : Nat → Value) : Nat → Value :=
  Function.update (Function.update cells (b.base + 2) x) (b.base + 4) x

theorem passed_argument (b : Activation) (x : Value) (cells : Nat → Value) :
    passed b x cells (b.base + 4) = x := Function.update_self ..

theorem passed_other (b : Activation) (x : Value) (cells : Nat → Value) {i : Nat}
    (apart : i ≠ b.base + 2 ∧ i ≠ b.base + 4) : passed b x cells i = cells i := by
  unfold passed
  rw [Function.update_of_ne apart.2, Function.update_of_ne apart.1]

/-- Both calls of the function pass W by the same words. -/
theorem carries_pass {pc : Nat} (call : pc = 16 ∨ pc = 23) :
    (code n).Carries pc .movWF 2 ∧ (code n).Carries (pc + 1) .movFW 2 ∧
      (code n).Carries (pc + 2) .movWF 4 ∧ (code n).Carries (pc + 3) .call 9 := by
  rcases call with rfl | rfl
  · exact ⟨carries 2 rfl rfl, carries 2 rfl rfl, carries 4 rfl rfl, carries 9 rfl rfl⟩
  · exact ⟨carries 2 rfl rfl, carries 2 rfl rfl, carries 4 rfl rfl, carries 9 rfl rfl⟩

theorem goes_pass {b : Activation} {pc : Nat} (call : pc = 16 ∨ pc = 23)
    (room : b.base + 4 < memorySize) :
    Goes (code n) 4 ⟨b, pc, w, cells⟩ ⟨b.called (pc + 4), 9, w, passed b w cells⟩ := by
  obtain ⟨keep, load, pass, enter⟩ := carries_pass (n := n) call
  have kept : Function.update cells (b.base + 2) w (b.base + 2) = w := Function.update_self ..
  calc Goes (code n) 1 ⟨b, pc, w, cells⟩
          ⟨b, pc + 1, w, Function.update cells (b.base + 2) w⟩ :=
        goes_movWF keep rfl (by omega)
    Goes (code n) 1 _ ⟨b, pc + 2, w, Function.update cells (b.base + 2) w⟩ :=
        goes_movFW load rfl (show b.base + 2 < memorySize by omega) kept
    Goes (code n) 1 _ ⟨b, pc + 3, w, passed b w cells⟩ := goes_movWF pass rfl room
    Goes (code n) 1 _ _ := goes_call enter

/-- From an argument of at least two, the function calls itself with the number before it. -/
theorem goes_first {b : Activation} (room : b.base + 4 < memorySize)
    (argument : cells (b.base + 1) = BitVec.ofNat 32 (k + 2)) :
    Goes (code n) 5 ⟨b, 15, w, cells⟩
      ⟨b.called 20, 9, BitVec.ofNat 32 (k + 1), passed b (BitVec.ofNat 32 (k + 1)) cells⟩ := by
  calc Goes (code n) 1 ⟨b, 15, w, cells⟩ ⟨b, 16, BitVec.ofNat 32 (k + 1), cells⟩ := by
        rw [← apply_decr (k + 1) w]
        exact goes_toW (carries 1 rfl rfl) rfl
          (show b.base + 1 < memorySize by omega) argument
    Goes (code n) 4 _ _ := goes_pass (.inl rfl) room

/-- What the first call returns is kept, and the second one is for the number before that. -/
theorem goes_second {b : Activation} (room : b.base + 4 < memorySize)
    (argument : cells (b.base + 1) = BitVec.ofNat 32 (k + 2)) :
    Goes (code n) 7 ⟨b, 20, w, cells⟩
      ⟨b.called 27, 9, BitVec.ofNat 32 k,
        passed b (BitVec.ofNat 32 k) (Function.update cells (b.base + 3) w)⟩ := by
  have still : Function.update cells (b.base + 3) w (b.base + 1) = BitVec.ofNat 32 (k + 2) := by
    rw [Function.update_of_ne (by omega), argument]
  calc Goes (code n) 1 ⟨b, 20, w, cells⟩ ⟨b, 21, w, Function.update cells (b.base + 3) w⟩ :=
        goes_movWF (carries 3 rfl rfl) rfl (by omega)
    Goes (code n) 1 _ ⟨b, 22, BitVec.ofNat 32 (k + 2), Function.update cells (b.base + 3) w⟩ :=
        goes_movFW (carries 1 rfl rfl) rfl
          (show b.base + 1 < memorySize by omega) still
    Goes (code n) 1 _ ⟨b, 23, BitVec.ofNat 32 k, Function.update cells (b.base + 3) w⟩ := by
        rw [← apply_sub_two k]
        exact goes_immediate (carries 2 rfl rfl)
    Goes (code n) 4 _ _ := goes_pass (.inr rfl) room

/-- The function returns the sum of what both calls return. -/
theorem goes_sum (room : a.base + a.frameSize + 3 < memorySize)
    (first : cells (a.base + a.frameSize + 3) = BitVec.ofNat 32 (Nat.fib (k + 1))) :
    Goes (code n) 2 ⟨(a.called target).sized 3, 27, BitVec.ofNat 32 (Nat.fib k), cells⟩
      ⟨a, target, BitVec.ofNat 32 (Nat.fib (k + 2)), cells⟩ := by
  calc Goes (code n) 1 ⟨(a.called target).sized 3, 27, BitVec.ofNat 32 (Nat.fib k), cells⟩
          ⟨(a.called target).sized 3, 28, BitVec.ofNat 32 (Nat.fib (k + 2)), cells⟩ := by
        rw [← apply_add_fib k]
        exact goes_toW (carries 3 rfl rfl) rfl room first
    Goes (code n) 1 _ _ := goes_ret (carries 0 rfl rfl)

end Blocks

/-- A call with an argument for which the frames fit into the memory returns its Fibonacci number, and
the cells up to the end of the caller's frame are as they were. -/
theorem goes_fib (n k : Nat) : ∀ (a : Activation) (target : Nat) (w : Value) (cells : Nat → Value),
    a.base + a.frameSize + 1 < memorySize → a.base + a.frameSize + 3 * k ≤ memorySize →
    cells (a.base + a.frameSize + 1) = BitVec.ofNat 32 k →
    ∃ cells', (∀ i ≤ a.base + a.frameSize, cells' i = cells i) ∧
      Goes (code n) (cycles k) ⟨a.called target, 9, w, cells⟩
        ⟨a, target, BitVec.ofNat 32 (Nat.fib k), cells'⟩ := by
  induction k using Nat.twoStepInduction with
  | zero =>
    intro a target w cells room _ argument
    exact ⟨cells, fun _ _ => rfl, goes_small room (by omega) argument⟩
  | one =>
    intro a target w cells room _ argument
    exact ⟨cells, fun _ _ => rfl, goes_small room (by omega) argument⟩
  | more k second first =>
    intro a target w cells room fits argument
    generalize own : (a.called target).sized 3 = b
    have base : b.base = a.base + a.frameSize := by rw [← own]; rfl
    have size : b.frameSize = 3 := by rw [← own]; rfl
    have test : Goes (code n) 5 ⟨a.called target, 9, w, cells⟩ _ :=
      goes_test room (show k + 2 < memorySize by omega) argument
    rw [if_neg (by omega), own] at test
    rw [← base] at room fits argument ⊢
    have inside : b.base + 4 < memorySize := by omega
    obtain ⟨cells₁, kept₁, call₁⟩ := first b 20 (BitVec.ofNat 32 (k + 1))
      (passed b (BitVec.ofNat 32 (k + 1)) cells) (by omega) (by omega)
      (by rw [size]; exact passed_argument ..)
    obtain ⟨cells₂, kept₂, call₂⟩ := second b 27 (BitVec.ofNat 32 k)
      (passed b (BitVec.ofNat 32 k)
        (Function.update cells₁ (b.base + 3) (BitVec.ofNat 32 (Nat.fib (k + 1)))))
      (by omega) (by omega) (by rw [size]; exact passed_argument ..)
    have below (i : Nat) (low : i ≤ b.base + 1) : cells₁ i = cells i := by
      rw [kept₁ i (by omega), passed_other b _ _ (by omega)]
    refine ⟨cells₂, ?_, ?_⟩
    · intro i low
      rw [kept₂ i (by omega), passed_other b _ _ (by omega), Function.update_of_ne (by omega),
        below i (by omega)]
    · have result : cells₂ (b.base + 3) = BitVec.ofNat 32 (Nat.fib (k + 1)) := by
        rw [kept₂ _ (by omega), passed_other b _ _ (by omega), Function.update_self]
      have sum : Goes (code n) 2 ⟨b, 27, BitVec.ofNat 32 (Nat.fib k), cells₂⟩
          ⟨a, target, BitVec.ofNat 32 (Nat.fib (k + 2)), cells₂⟩ := by
        rw [base] at result
        rw [← own]
        exact goes_sum (by omega) result
      calc Goes (code n) 5 ⟨a.called target, 9, w, cells⟩ ⟨b, 15, BitVec.ofNat 32 (k + 2), cells⟩ :=
            test
        Goes (code n) 5 _ _ := goes_first inside argument
        Goes (code n) (cycles (k + 1)) _ _ := call₁
        Goes (code n) 7 _ _ := goes_second inside ((below _ (Nat.le_refl _)).trans argument)
        Goes (code n) (cycles k) _ _ := call₂
        Goes (code n) 2 _ _ := sum

/-- The main scope calls the function with `n` and writes what it returns. -/
theorem goes_main (n : Nat) (room : n ≤ 1365) :
    ∃ cells, Goes (code n) (5 + cycles n + 2) State.start.view
      ⟨⟨[], [], 1, ⟨0, BitVec.ofNat 32 (Nat.fib n)⟩⟩, 8, BitVec.ofNat 32 (Nat.fib n), cells⟩ := by
  have literal : (BitVec.ofNat 24 n).setWidth 32 = BitVec.ofNat 32 n := by
    apply BitVec.eq_of_toNat_eq
    rw [BitVec.toNat_setWidth, BitVec.toNat_ofNat, BitVec.toNat_ofNat]
    omega
  let outer : Activation := ⟨[], [], 1, ⟨0, 0⟩⟩
  generalize start : State.start.view.cells = cells
  obtain ⟨cells', _, call⟩ := goes_fib n n outer 6 (BitVec.ofNat 32 n)
    (Function.update cells 2 (BitVec.ofNat 32 n)) (by decide) (by
      change 1 + 3 * n ≤ 4096
      omega) (Function.update_self ..)
  have opened : State.start.view = ⟨⟨[], [], 0, ⟨0, 0⟩⟩, 1, 0, cells⟩ := by
    rw [← start]
    rfl
  generalize BitVec.ofNat 32 (Nat.fib n) = x at call ⊢
  rw [opened]
  refine ⟨Function.update cells' 1 x, ?_⟩
  calc Goes (code n) 1 ⟨⟨[], [], 0, ⟨0, 0⟩⟩, 1, 0, cells⟩ ⟨outer, 2, 0, cells⟩ :=
        goes_var (carries 1 rfl rfl)
    Goes (code n) 1 _ ⟨outer, 3, 0, cells⟩ := goes_writeL .one (carries 0 rfl rfl)
    Goes (code n) 1 _ ⟨outer, 4, BitVec.ofNat 32 n, cells⟩ := by
        rw [← literal]
        exact goes_movLW (carries (BitVec.ofNat 24 n) rfl rfl)
    Goes (code n) 1 _ ⟨outer, 5, BitVec.ofNat 32 n, Function.update cells 2 (BitVec.ofNat 32 n)⟩ :=
        goes_movWF (carries 2 rfl rfl) rfl (by decide)
    Goes (code n) 1 _
          ⟨outer.called 6, 9, BitVec.ofNat 32 n, Function.update cells 2 (BitVec.ofNat 32 n)⟩ :=
        goes_call (carries 9 rfl rfl)
    Goes (code n) (cycles n) _ _ := call
    Goes (code n) 1 _ ⟨outer, 7, x, Function.update cells' 1 x⟩ :=
        goes_movWF (carries 1 rfl rfl) rfl (by decide)
    Goes (code n) 1 _ ⟨⟨[], [], 1, ⟨0, x⟩⟩, 8, x, Function.update cells' 1 x⟩ :=
        goes_writeF .two (carries 1 rfl rfl) rfl
          (show 0 + 1 < memorySize by decide) (Function.update_self ..)

/-- With room for its cycles, the program halts and has written the Fibonacci number. -/
theorem words_run (n : Nat) (room : n ≤ 1365) (input : Input) {limit : Nat}
    (enough : 5 + cycles n + 2 + 1 ≤ limit) :
    ∃ t : State, ({ Processor.load (words n) with limit } : Processor).run input =
        ({ Processor.load (words n) with limit, state := t }, none) ∧
      t.halted = true ∧ t.calls = [] ∧ t.frames = [] ∧
      t.outputs = ⟨0, BitVec.ofNat 32 (Nat.fib n)⟩ := by
  obtain ⟨cells, goes⟩ := goes_main n room
  have last : (code n).Carries 8 .halt 0 := carries 0 rfl rfl
  obtain ⟨t, leads, halted, view⟩ := goes.halts last input rfl rfl
  refine ⟨t, leads.run halted enough, halted, ?_, ?_, ?_⟩
  · exact congrArg (·.activation.calls) view
  · exact congrArg (·.activation.frames) view
  · exact congrArg (·.activation.outputs) view

end Accumulator.Fibonacci
