import Accumulator.Proofs.Machine.Control

set_option autoImplicit false

/-!
The memory cells that a cycle may store to. Everything outside of them is kept, also when the cycle
fails in the middle of storing rows.
-/

namespace Accumulator

/-- The operations that store at the address in their literal. -/
def Operation.storesAtLiteral : Operation → Bool
  | .movWF | .arithmetic _ .toMemory | .read _ true | .display .save _ => true
  | _ => false

/-- The cells of the frame that an operation stores to: the address of the first and the number. -/
def Operation.storeRange (operation : Operation) (literal : BitVec 24) (w : Machine.Value) :
    Int × Nat :=
  match operation with
  | .movWF | .arithmetic _ .toMemory | .read _ true => (literal.toNat, 1)
  | .movLF => (w.toInt, 1)
  | .display .save _ => (literal.toNat, screenSize)
  | _ => (0, 0)

theorem Operation.storeRange_cases (operation : Operation) (literal : BitVec 24)
    (w : Machine.Value) (direct : operation ≠ .movLF) :
    (operation.storesAtLiteral = true ∧ (operation.storeRange literal w).1 = literal.toNat) ∨
      (operation.storeRange literal w).2 = 0 := by
  cases operation with
  | movLF => exact absurd rfl direct
  | movWF => exact Or.inl ⟨rfl, rfl⟩
  | arithmetic op transfer =>
    cases transfer with
    | toMemory => exact Or.inl ⟨rfl, rfl⟩
    | immediate | toW => exact Or.inr rfl
  | read port toMemory =>
    cases toMemory with
    | true => exact Or.inl ⟨rfl, rfl⟩
    | false => exact Or.inr rfl
  | display drawing operand =>
    cases drawing with
    | save => exact Or.inl ⟨rfl, rfl⟩
    | clear | render | pixel | horizontal | vertical | rectangle | setFlag | load =>
      exact Or.inr rfl
  | halt | nop | pulse | var | movLW | movFW | call | ret | retLW | retFW | goto | compare
  | write => exact Or.inr rfl

namespace Machine

/-- A cell is one of a number of consecutive cells of the current frame. -/
def State.Covers (s : State) (range : Int × Nat) (cell : Fin memorySize) : Prop :=
  range.1 + s.frameBase ≤ cell.val ∧ (cell.val : Int) < range.1 + range.2 + s.frameBase

theorem put_memory (s : State) (i : Fin memorySize) (v : Value) (cell : Fin memorySize)
    (apart : i ≠ cell) : (s.put i v).memory.get cell = s.memory.get cell := by
  have distinct : i.val ≠ cell.val := fun same => apart (Fin.ext same)
  exact Vector.getElem_set_ne i.isLt cell.isLt distinct

theorem put_memory_self (s : State) (i : Fin memorySize) (v : Value) :
    (s.put i v).memory.get i = v :=
  Vector.getElem_set_self i.isLt

theorem cell_eq_ok (s : State) (address : Int) (i : Fin memorySize)
    (found : s.cell address = .ok i) : (i.val : Int) = address + s.frameBase := by
  unfold State.cell at found
  dsimp only at found
  split at found
  · rename_i inside
    cases found
    simp only
    omega
  · cases found

theorem cell_eq_error (s : State) (address : Int) (f : Fault)
    (failed : s.cell address = .error f) :
    f = .memoryOutOfBounds (address + s.frameBase) s.pc ∧
      ¬ (0 ≤ address + s.frameBase ∧ address + s.frameBase < memorySize) := by
  unfold State.cell at failed
  dsimp only at failed
  split at failed
  · cases failed
  · rename_i outside
    cases failed
    exact ⟨rfl, outside⟩

/-- An address of the frame has the cell that is as far behind the frame base. -/
theorem cell_eq_ok_iff {s : State} {address : Int} {cell : Fin memorySize} :
    s.cell address = .ok cell ↔ (cell.val : Int) = address + s.frameBase := by
  constructor
  · exact cell_eq_ok s address cell
  · intro place
    cases found : s.cell address with
    | ok other =>
      have also := cell_eq_ok s address other found
      rw [show other = cell from Fin.ext (by omega)]
    | error f =>
      have inside := cell.isLt
      have outside := (cell_eq_error s address f found).2
      omega

theorem storing_memory (s : State) (address : Int) (v : Value) (cell : Fin memorySize)
    (outside : ¬ s.Covers (address, 1) cell) :
    (s.storing address v).state.memory.get cell = s.memory.get cell := by
  apply storing_rule (fun o => o.state.memory.get cell = s.memory.get cell)
  · intro i found
    apply put_memory s i v cell
    rintro rfl
    have place := cell_eq_ok s address i found
    unfold State.Covers at outside
    simp only at outside
    omega
  · intro f _
    rfl

theorem storeRows_memory (s : State) (address : Int) (rows : List Value) (cell : Fin memorySize)
    (outside : ¬ s.Covers (address, rows.length) cell) :
    (s.storeRows address rows).state.memory.get cell = s.memory.get cell := by
  induction rows generalizing s address with
  | nil => rfl
  | cons row rows ih =>
    unfold State.Covers at outside
    simp only [List.length_cons] at outside
    unfold State.storeRows
    cases found : s.cell address with
    | error f => rfl
    | ok i =>
      have place := cell_eq_ok s address i found
      have base : (s.put i row).frameBase = s.frameBase := rfl
      have rest : ¬ (s.put i row).Covers (address + 1, rows.length) cell := by
        unfold State.Covers
        simp only [base]
        omega
      have apart : i ≠ cell := by
        rintro rfl
        omega
      rw [← put_memory s i row cell apart]
      exact ih (s.put i row) (address + 1) rest

/-- Every row whose cell is inside the memory is stored, also if a later one does not have a cell. -/
theorem storeRows_stored (s : State) (address : Int) (rows : List Value) (cell : Fin memorySize)
    (i : Nat) (row : Value) (low : 0 ≤ address + s.frameBase) (listed : rows[i]? = some row)
    (place : (cell.val : Int) = address + s.frameBase + i) :
    (s.storeRows address rows).state.memory.get cell = row := by
  induction rows generalizing s address i with
  | nil => cases listed
  | cons first rows ih =>
    have inside := cell.isLt
    unfold State.storeRows
    cases found : s.cell address with
    | error f =>
      have outside := (cell_eq_error s address f found).2
      omega
    | ok j =>
      have here := cell_eq_ok s address j found
      have base : (s.put j first).frameBase = s.frameBase := rfl
      cases i with
      | zero =>
        obtain rfl : j = cell := Fin.ext (by omega)
        obtain rfl : first = row := Option.some.inj listed
        have behind : ¬ (s.put j first).Covers (address + 1, rows.length) j := by
          unfold State.Covers
          simp only [base]
          omega
        have kept := storeRows_memory (s.put j first) (address + 1) rows j behind
        exact kept.trans (put_memory_self s j first)
      | succ i =>
        apply ih (s.put j first) (address + 1) i
        · rw [base]
          omega
        · exact listed
        · rw [base]
          omega

theorem storeRows_eq (s : State) (address : Int) (rows : List Value) :
    ∃ memory, (s.storeRows address rows).state = { s with memory } := by
  induction rows generalizing s address with
  | nil => exact ⟨s.memory, rfl⟩
  | cons row rows ih =>
    unfold State.storeRows
    split
    · rename_i i _
      exact ih (s.put i row) (address + 1)
    · exact ⟨s.memory, rfl⟩

section

variable {range : Int × Nat}

/-- An outcome of a state has the number of its cycles and its cells outside a range. -/
structure Outcome.Spares (o : Outcome) (s : State) (range : Int × Nat) : Prop where
  cycles : o.state.cycles = s.cycles
  memory : ∀ cell, ¬ s.Covers range cell → o.state.memory.get cell = s.memory.get cell

theorem ok_spares {s t : State} (cycles : t.cycles = s.cycles) (memory : t.memory = s.memory) :
    (Outcome.ok t).Spares s range :=
  ⟨cycles, fun cell _ => congrArg (·.get cell) memory⟩

theorem failed_spares (s : State) (f : Fault) : (Outcome.failed f s).Spares s range :=
  ⟨rfl, fun _ _ => rfl⟩

theorem storing_spares (s : State) (address : Int) (v : Value) :
    (s.storing address v).Spares s (address, 1) where
  cycles := storing_rule (·.state.cycles = s.cycles) s address v (fun _ _ => rfl) (fun _ _ => rfl)
  memory := storing_memory s address v

theorem loading_spares (s : State) (address : Int) (k : Value → Outcome)
    (spares : ∀ v, (k v).Spares s range) : (s.loading address k).Spares s range :=
  loading_rule (·.Spares s range) s address k (fun v _ => spares v) (fun f _ => failed_spares s f)

theorem fetching_spares (s : State) (operand : Operand) (source : BitVec 24) (k : Value → Outcome)
    (spares : ∀ v, (k v).Spares s range) : (s.fetching operand source k).Spares s range :=
  fetching_rule (·.Spares s range) s operand source k spares (failed_spares s)

theorem storeRows_spares (s : State) (address : Int) (rows : List Value) :
    (s.storeRows address rows).Spares s (address, rows.length) := by
  obtain ⟨memory, same⟩ := storeRows_eq s address rows
  have cycles : (s.storeRows address rows).state.cycles = s.cycles := by rw [same]
  exact ⟨cycles, storeRows_memory s address rows⟩

theorem saving_spares (s : State) (address : Int) (rows : List Value) :
    (s.saving address rows).Spares s (address, rows.length) := by
  have spares := storeRows_spares s address rows
  apply saving_rule (·.Spares s (address, rows.length))
  · intro next stored
    rw [stored] at spares
    exact ⟨spares.cycles, spares.memory⟩
  · intro f next stored
    rw [stored] at spares
    exact spares

theorem restoring_spares (s : State) (loaded : Except Fault Plane) :
    (s.restoring loaded).Spares s range := by
  cases loaded with
  | ok plane => exact ok_spares rfl rfl
  | error f => exact failed_spares s f

theorem leave_spares (s : State) (w : Value) : ({ s with w } : State).leave.Spares s range := by
  unfold State.leave
  split
  · exact ok_spares rfl rfl
  · exact ⟨rfl, fun _ _ => rfl⟩

/-- Whether it fails or not, an operation does not count cycles and keeps every cell outside its
range. -/
theorem execute_spares (s : State) (operation : Operation) (literal : BitVec 24) :
    (s.execute operation literal).Spares s (operation.storeRange literal s.w) := by
  unfold State.execute
  cases operation with
  | halt | nop | pulse | var | movLW | call | goto => exact ok_spares rfl rfl
  | movWF | movLF => exact storing_spares s _ _
  | movFW => exact loading_spares s _ _ fun v => ok_spares rfl rfl
  | ret => exact leave_spares s s.w
  | retLW => exact leave_spares s _
  | retFW => exact loading_spares s _ _ fun v => leave_spares s v
  | arithmetic op transfer =>
    cases transfer with
    | immediate => exact ok_spares rfl rfl
    | toW => exact loading_spares s _ _ fun v => ok_spares rfl rfl
    | toMemory => exact loading_spares s _ _ fun v => storing_spares s _ _
  | compare | write => exact fetching_spares s _ _ _ fun v => ok_spares rfl rfl
  | read port toMemory =>
    cases toMemory with
    | false => exact ok_spares rfl rfl
    | true => exact storing_spares s _ _
  | display drawing operand =>
    cases drawing with
    | save =>
      have spares := saving_spares s literal.toNat s.display.active.toList
      rw [Vector.length_toList] at spares
      exact spares
    | load => exact restoring_spares s _
    | clear | render | pixel | horizontal | vertical | rectangle | setFlag =>
      exact fetching_spares s _ _ _ fun v => ok_spares rfl rfl

end

/-- A cycle keeps every cell outside the range of what it carries out. -/
theorem step_memory (code : Code) (input : Input) (s : State) (cell : Fin memorySize)
    (outside : ∀ operation literal, s.pending? code = some (operation, literal) →
      ¬ s.Covers (operation.storeRange literal s.w) cell) :
    (step code input s).state.memory.get cell = s.memory.get cell := by
  cases pending : s.pending? code with
  | none => rw [step_of_idle code input s pending]
  | some carried =>
    obtain ⟨operation, literal⟩ := carried
    rw [step_of_pending code input s operation literal pending]
    exact (execute_spares (s.sample input) operation literal).memory cell
      (outside operation literal pending)

end Machine

end Accumulator
