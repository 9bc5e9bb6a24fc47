import Accumulator.Proofs.Machine.Memory
import Accumulator.Proofs.Checked

set_option autoImplicit false

/-!
Rows in consecutive cells. Rows that are stored are all loaded again, and rows that are in their cells
are stored without a change. If some of them have no cell, the first of these is at fault.
-/

namespace Accumulator.Machine

theorem Outcome.eq_failed {o : Outcome} {f : Fault} {s : State} (fault : o.fault? = some f)
    (left : o.state = s) : o = .failed f s := by
  cases o with
  | ok t => cases fault
  | failed g t =>
    cases fault
    cases left
    rfl

theorem Outcome.eq_ok {o : Outcome} {s : State} (fault : o.fault? = none) (left : o.state = s) :
    o = .ok s := by
  cases o with
  | ok t =>
    cases left
    rfl
  | failed f t => cases fault

theorem load_of_cell {s : State} {address : Int} {cell : Fin memorySize}
    (place : (cell.val : Int) = address + s.frameBase) :
    s.load address = .ok (s.memory.get cell) := by
  unfold State.load
  rw [cell_eq_ok_iff.mpr place]
  rfl

theorem load_outside {s : State} {address : Int} (outside : memorySize ≤ address + s.frameBase) :
    s.load address = .error (.memoryOutOfBounds (address + s.frameBase) s.pc) := by
  unfold State.load
  cases found : s.cell address with
  | ok cell =>
    have inside := cell.isLt
    have place := cell_eq_ok s address cell found
    omega
  | error f => rw [(cell_eq_error s address f found).1]

/-- To store a value in a cell that holds it changes nothing. -/
theorem put_of_stored {s : State} {i : Fin memorySize} {v : Value} (stored : s.memory.get i = v) :
    s.put i v = s := by
  have same : s.memory.set i v = s.memory := by
    rw [← stored]
    exact Vector.set_getElem_self i.isLt
  unfold State.put
  rw [same]

/-- Rows that are in their cells already are stored without a change, as far as they have cells. -/
theorem storeRows_of_stored (s : State) (address : Int) (rows : List Value)
    (stored : ∀ (i : Nat) (row : Value) (cell : Fin memorySize), rows[i]? = some row →
      (cell.val : Int) = address + s.frameBase + i → s.memory.get cell = row) :
    (s.storeRows address rows).state = s := by
  induction rows generalizing address with
  | nil => rfl
  | cons row rows ih =>
    unfold State.storeRows
    cases found : s.cell address with
    | error f => rfl
    | ok cell =>
      have place := cell_eq_ok s address cell found
      have here : s.memory.get cell = row := stored 0 row cell rfl (by omega)
      simp only [put_of_stored here]
      apply ih (address + 1)
      intro i next other listed there
      apply stored (i + 1) next other listed
      omega

/-- Whether rows have cells, and which one has none, depends on the frame alone. -/
theorem storeRows_fault (s t : State) (address : Int) (rows : List Value)
    (frames : t.frames = s.frames) (pc : t.pc = s.pc) :
    (t.storeRows address rows).fault? = (s.storeRows address rows).fault? := by
  induction rows generalizing s t address with
  | nil => rfl
  | cons row rows ih =>
    have same : t.cell address = s.cell address := by
      unfold State.cell
      simp only [show t.frameBase = s.frameBase from congrArg (·.headD 0) frames, pc]
    unfold State.storeRows
    rw [same]
    cases s.cell address with
    | error f => rfl
    | ok cell => exact ih (s.put cell row) (t.put cell row) (address + 1) frames pc

/-- After rows have been stored in part, storing them fails at the same row and changes nothing. -/
theorem storeRows_again (s u : State) (address : Int) (rows : List Value) (f : Fault)
    (low : 0 ≤ address + s.frameBase) (failed : (s.storeRows address rows).fault? = some f)
    (frames : u.frames = s.frames) (pc : u.pc = s.pc)
    (memory : u.memory = (s.storeRows address rows).state.memory) :
    u.storeRows address rows = .failed f u := by
  apply Outcome.eq_failed
  · rw [storeRows_fault s u address rows frames pc, failed]
  · apply storeRows_of_stored
    intro i row cell listed place
    have base : u.frameBase = s.frameBase := congrArg (·.headD 0) frames
    rw [base] at place
    rw [memory]
    exact storeRows_stored s address rows cell i row low listed place

theorem storeRows_inside (s : State) (address : Int) (rows : List Value)
    (low : 0 ≤ address + s.frameBase) (inside : address + s.frameBase + rows.length ≤ memorySize) :
    (s.storeRows address rows).fault? = none := by
  induction rows generalizing s address with
  | nil => rfl
  | cons row rows ih =>
    rw [List.length_cons] at inside
    unfold State.storeRows
    cases found : s.cell address with
    | error f =>
      have outside := (cell_eq_error s address f found).2
      omega
    | ok cell =>
      have base : (s.put cell row).frameBase = s.frameBase := rfl
      exact ih (s.put cell row) (address + 1) (by omega) (by omega)

theorem saving_inside (s : State) (address : Int) (rows : List Value)
    (low : 0 ≤ address + s.frameBase) (inside : address + s.frameBase + rows.length ≤ memorySize) :
    s.saving address rows = .ok (s.storeRows address rows).state.advance := by
  unfold State.saving
  rw [Outcome.eq_ok (storeRows_inside s address rows low inside) rfl]
  rfl

/-- Rows are loaded if each of them is. -/
theorem loadRows_eq_ok_iff {s : State} {address : Int} {n : Nat} {rows : Vector Value n} :
    s.loadRows address n = .ok rows ↔
      ∀ (i : Nat) (inside : i < n), s.load (address + i) = .ok rows[i] := by
  induction n with
  | zero => exact ⟨fun _ _ none => absurd none (Nat.not_lt_zero _), fun _ => by simp [State.loadRows]⟩
  | succ n ih =>
    unfold State.loadRows
    simp only [bind_eq_ok, pure_eq_ok, ih]
    constructor
    · rintro ⟨before, loaded, last, here, rfl⟩ i inside
      by_cases earlier : i < n
      · rw [Vector.getElem_push_lt earlier]
        exact loaded i earlier
      · obtain rfl : i = n := by omega
        rw [Vector.getElem_push_eq]
        exact here
    · intro loaded
      refine ⟨rows.pop, fun i inside => ?_, rows.back, ?_, Vector.push_pop_back rows⟩
      · rw [Vector.getElem_pop]
        exact loaded i (by omega)
      · exact loaded n (Nat.lt_succ_self n)

/-- The first row without a cell is at fault. -/
theorem loadRows_outside {s : State} {address : Int} {n : Nat} (some : 0 < n)
    (low : 0 ≤ address + s.frameBase) (outside : memorySize < address + s.frameBase + n) :
    s.loadRows address n =
      .error (.memoryOutOfBounds (max (address + s.frameBase) memorySize) s.pc) := by
  induction n with
  | zero => cases some
  | succ n ih =>
    unfold State.loadRows
    by_cases earlier : 0 < n ∧ memorySize < address + s.frameBase + n
    · rw [ih earlier.1 earlier.2]
      rfl
    · have cell (i : Fin n) : (address + s.frameBase + i).toNat < memorySize := by
        have inside := i.isLt
        omega
      have before : s.loadRows address n =
          .ok (Vector.ofFn fun i => s.memory.get ⟨_, cell i⟩) := by
        rw [loadRows_eq_ok_iff]
        intro i inside
        rw [Vector.getElem_ofFn]
        apply load_of_cell
        simp only
        omega
      have last : address + n + s.frameBase = max (address + s.frameBase) memorySize := by omega
      rw [before, ← last]
      change (s.load (address + n) >>= _) = _
      rw [load_outside (by omega)]
      rfl

end Accumulator.Machine
