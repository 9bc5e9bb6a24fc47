import Accumulator.Proofs.Machine.Rows

set_option autoImplicit false

/-!
Planes in memory. A plane that is saved comes back when its cells are loaded, from any frame and as
either plane, as long as nothing is stored to them in between. A plane that is loaded and saved again
leaves the memory as it is.
-/

namespace Accumulator

namespace Display

/-- The plane that is not drawn on. -/
def inactive (d : Display) : Plane := if d.secondActive then d.first else d.second

theorem active_setActive (d : Display) (p : Plane) : (d.setActive p).active = p := by
  unfold setActive active
  cases second : d.secondActive with
  | true => exact if_pos second
  | false => exact if_neg (Bool.eq_false_iff.mp second)

theorem inactive_setActive (d : Display) (p : Plane) : (d.setActive p).inactive = d.inactive := by
  unfold setActive inactive
  cases second : d.secondActive with
  | true => exact if_pos second
  | false => exact if_neg (Bool.eq_false_iff.mp second)

theorem screen_setActive (d : Display) (p : Plane) : (d.setActive p).screen = d.screen := by
  unfold setActive
  split <;> rfl

theorem flag_setActive (d : Display) (p : Plane) : (d.setActive p).flag = d.flag := by
  unfold setActive
  split <;> rfl

end Display

namespace Machine

variable {code : Code} {input : Input} {s t : State} {literal : BitVec 24} {operand : Operand}

/-- The next cycle stores to a cell. -/
def State.Stores (code : Code) (s : State) (cell : Fin memorySize) : Prop :=
  ∃ operation literal, s.pending? code = some (operation, literal) ∧
    s.Covers (operation.storeRange literal s.w) cell

theorem not_stores {operation : Operation} (pending : s.pending? code = some (operation, literal))
    (nothing : (operation.storeRange literal s.w).2 = 0) (cell : Fin memorySize) :
    ¬ s.Stores code cell := by
  rintro ⟨_, _, same, low, high⟩
  cases Option.some.inj (pending.symm.trans same)
  omega

/-- A plane lies in the cells from a place on. -/
def State.Keeps (s : State) (place : Nat) (p : Plane) : Prop :=
  ∀ (i : Nat) (inside : i < 32) (cell : Fin memorySize), cell.val = place + i →
    s.memory.get cell = p[i]

theorem step_keeps (code : Code) (input : Input) {place : Nat} {p : Plane} (keeps : s.Keeps place p)
    (apart : ∀ cell : Fin memorySize, place ≤ cell.val → cell.val < place + 32 →
      ¬ s.Stores code cell) :
    (step code input s).state.Keeps place p := by
  intro i inside cell here
  rw [← keeps i inside cell here]
  apply step_memory
  intro operation literal pending covers
  exact apart cell (by omega) (by omega) ⟨operation, literal, pending, covers⟩

theorem after_keeps (code : Code) (input : Input) {place : Nat} {p : Plane}
    (keeps : s.Keeps place p) (n : Nat)
    (apart : ∀ k < n, ∀ cell : Fin memorySize, place ≤ cell.val → cell.val < place + 32 →
      ¬ (after code input s k).Stores code cell) :
    (after code input s n).Keeps place p := by
  induction n with
  | zero => exact keeps
  | succ n ih =>
    exact step_keeps code input (ih fun k less => apart k (by omega)) (apart n (Nat.lt_succ_self n))

/-- Some plane lies in cells that are all inside the memory. -/
theorem exists_keeps (s : State) (place : Nat) (inside : place + 31 < memorySize) :
    ∃ p : Plane, s.Keeps place p := by
  refine ⟨Vector.ofFn fun i => s.memory.get ⟨place + i, by omega⟩, ?_⟩
  intro i below cell here
  rw [Vector.getElem_ofFn]
  congr 1
  exact Fin.ext here

theorem keeps_of_storeRows (s : State) (address : Nat) (p : Plane) :
    (s.storeRows address p.toList).state.Keeps (s.frameBase + address) p := by
  intro i below cell here
  have listed : p.toList[i]? = some p[i] := by
    rw [Vector.getElem?_toList]
    exact Vector.getElem?_eq_getElem below
  exact storeRows_stored s address p.toList cell i p[i] (by omega) listed (by omega)

theorem storeRows_of_keeps {address : Nat} {p : Plane} (kept : s.Keeps (s.frameBase + address) p) :
    (s.storeRows address p.toList).state = s := by
  apply storeRows_of_stored
  intro i row cell listed here
  obtain ⟨below, rfl⟩ := List.getElem?_eq_some_iff.mp listed
  rw [Vector.length_toList] at below
  rw [Vector.getElem_toList]
  exact kept i below cell (by omega)

/-- The rows in cells that a plane lies in are this plane. -/
theorem loadRows_of_keeps {address : Nat} {p : Plane} (kept : s.Keeps (s.frameBase + address) p)
    (inside : s.frameBase + address + 31 < memorySize) : s.loadRows address 32 = .ok p := by
  rw [loadRows_eq_ok_iff]
  intro i below
  have cell : s.frameBase + address + i < memorySize := by omega
  rw [← kept i below ⟨_, cell⟩ rfl]
  apply load_of_cell
  change ((s.frameBase + address + i : Nat) : Int) = _
  omega

theorem step_save (input : Input) (saves : s.pending? code = some (.display .save operand, literal))
    (inside : s.frameBase + literal.toNat + 31 < memorySize) :
    step code input s =
      .ok ((s.sample input).storeRows literal.toNat s.display.active.toList).state.advance := by
  rw [step_of_pending code input s _ literal saves]
  change (s.sample input).saving literal.toNat s.display.active.toList = _
  apply saving_inside
  · omega
  · rw [Vector.length_toList]
    change (literal.toNat : Int) + s.frameBase + 32 ≤ memorySize
    omega

/-- A plane that lies in the cells of a load becomes the active plane. -/
theorem step_load (input : Input) {p : Plane}
    (loads : s.pending? code = some (.display .load operand, literal))
    (inside : s.frameBase + literal.toNat + 31 < memorySize)
    (kept : s.Keeps (s.frameBase + literal.toNat) p) :
    step code input s =
      .ok { s.sample input with display := s.display.setActive p, pc := s.pc + 1 } := by
  have loaded : (s.sample input).loadRows literal.toNat screenSize = .ok p := by
    have same : (s.sample input).Keeps ((s.sample input).frameBase + literal.toNat) p := kept
    exact loadRows_of_keeps same inside
  rw [step_of_pending code input s _ literal loads]
  change (s.sample input).restoring ((s.sample input).loadRows literal.toNat screenSize) = _
  rw [loaded]
  rfl

/-- A load with a cell outside of the memory fails at the first of these, and changes nothing. -/
theorem step_load_outside (input : Input)
    (loads : s.pending? code = some (.display .load operand, literal))
    (outside : ¬ s.frameBase + literal.toNat + 31 < memorySize) :
    step code input s = .failed
      (.memoryOutOfBounds (max (s.frameBase + literal.toNat) memorySize) s.pc) (s.sample input) := by
  have failed : (s.sample input).loadRows literal.toNat screenSize = .error
      (.memoryOutOfBounds (max (literal.toNat + (s.sample input).frameBase) memorySize) s.pc) := by
    apply loadRows_outside (by decide)
    · omega
    · change memorySize < (literal.toNat : Int) + s.frameBase + 32
      omega
  rw [step_of_pending code input s _ literal loads]
  change (s.sample input).restoring ((s.sample input).loadRows literal.toNat screenSize) = _
  rw [failed, Int.add_comm]
  rfl

/-- A plane that is saved inside the memory is the active plane again after a later load of its cells,
from any frame and with either plane active, if no cycle in between stores to them. The other plane,
the screen and the flag are as they were before the load. A plane that is loaded and saved from where
it came leaves all of the memory as it is. If a load has cells outside of the memory, it fails at the
first of them and leaves the display as it is. -/
theorem saved_plane_comes_back (code : Code) (input : Input) (s : State) (literal : BitVec 24)
    (operand : Operand) :
    (s.pending? code = some (.display .save operand, literal) →
      s.frameBase + literal.toNat + 31 < memorySize →
      (step code input s).fault? = none ∧
      ∀ (n : Nat) (other : Operand) (target : BitVec 24),
        let t := after code input s (n + 1)
        (∀ k, 0 < k → k ≤ n → ∀ cell : Fin memorySize, s.frameBase + literal.toNat ≤ cell.val →
          cell.val < s.frameBase + literal.toNat + 32 →
          ¬ (after code input s k).Stores code cell) →
        t.pending? code = some (.display .load other, target) →
        t.frameBase + target.toNat = s.frameBase + literal.toNat →
        ∃ u, step code input t = .ok u ∧ u.display.active = s.display.active ∧
          u.display.inactive = t.display.inactive ∧ u.display.screen = t.display.screen ∧
          u.display.flag = t.display.flag) ∧
    (s.pending? code = some (.display .load operand, literal) →
      s.frameBase + literal.toNat + 31 < memorySize →
      (step code input s).fault? = none ∧
      ∀ other : Operand,
        let t := (step code input s).state
        t.pending? code = some (.display .save other, literal) →
        ∃ u, step code input t = .ok u ∧ u.memory = s.memory) ∧
    (s.pending? code = some (.display .load operand, literal) →
      ¬ s.frameBase + literal.toNat + 31 < memorySize →
      (step code input s).fault? =
          some (.memoryOutOfBounds (max (s.frameBase + literal.toNat) memorySize) s.pc) ∧
        (step code input s).state.display = s.display) := by
  refine ⟨?_, ?_, ?_⟩
  · intro saves inside
    have saved := step_save input saves inside
    refine ⟨by rw [saved]; rfl, ?_⟩
    intro n other target t apart loads place
    have first : (step code input s).state.Keeps (s.frameBase + literal.toNat) s.display.active := by
      rw [saved]
      exact keeps_of_storeRows (s.sample input) literal.toNat s.display.active
    have kept : t.Keeps (t.frameBase + target.toNat) s.display.active := by
      rw [place]
      change (after code input s (n + 1)).Keeps _ _
      rw [after_succ]
      apply after_keeps code input first
      intro k less cell low high
      rw [← after_succ]
      exact apart (k + 1) (Nat.succ_pos k) less cell low high
    rw [step_load input loads (place ▸ inside) kept]
    exact ⟨_, rfl, t.display.active_setActive _, t.display.inactive_setActive _,
      t.display.screen_setActive _, t.display.flag_setActive _⟩
  · intro loads inside
    obtain ⟨p, kept⟩ := exists_keeps s (s.frameBase + literal.toNat) inside
    have loaded := step_load input loads inside kept
    refine ⟨by rw [loaded]; rfl, ?_⟩
    intro other t saves
    have left : t = { s.sample input with display := s.display.setActive p, pc := s.pc + 1 } := by
      change (step code input s).state = _
      rw [loaded]
      rfl
    have active : t.display.active = p := by
      rw [left]
      exact s.display.active_setActive p
    have frame : t.frameBase = s.frameBase := by rw [left]; rfl
    have memory : t.memory = s.memory := by rw [left]; rfl
    have still : (t.sample input).Keeps ((t.sample input).frameBase + literal.toNat) p := by
      change ∀ i (_ : i < 32) (cell : Fin memorySize), cell.val = t.frameBase + literal.toNat + i →
        t.memory.get cell = _
      rw [frame, memory]
      exact kept
    rw [step_save input saves (frame.symm ▸ inside), active, storeRows_of_keeps still]
    exact ⟨_, rfl, memory⟩
  · intro loads outside
    rw [step_load_outside input loads outside]
    exact ⟨rfl, rfl⟩

/-- Draws a pixel, saves the plane at 40, and chooses the other plane. A call then loads that plane by
way of its own frame, which begins after 8, saves it there again and loads from the end of the memory. -/
def planeTransfer : List Word :=
  [⟨0x03, 8⟩, ⟨0x52, 66⟩, ⟨0x5C, 40⟩, ⟨0x5A, 1⟩, ⟨0x08, 6⟩, ⟨0x5D, 32⟩, ⟨0x5C, 32⟩, ⟨0x5D, 4090⟩]

/-- The sixth cycle brings the pixel from the first plane to the second, and leaves the first one as
it is. The seventh changes nothing in the memory, and the eighth fails at the first cell outside. -/
theorem planeTransfer_loads_pixel :
    let code := planeTransfer.toArray
    let input : Input := fun _ => ⟨0, 0⟩
    let s := after code input State.start 2
    let t := after code input s (2 + 1)
    let u := after code input t 2
    s.pending? code = some (.display .save .memory, 40) ∧
      t.pending? code = some (.display .load .memory, 32) ∧ t.frameBase = 8 ∧
      t.display.active = Plane.blank ∧
      (∃ next, step code input t = .ok next ∧ next.display.active.pixel 1 2 = true ∧
        next.display.inactive.pixel 1 2 = true ∧ next.display.screen = t.display.screen ∧
        next.display.flag = 1 ∧ ∃ last, step code input next = .ok last ∧ last.memory = t.memory) ∧
      (step code input u).fault? = some (.memoryOutOfBounds 4098 8) ∧
      (step code input u).state.display = u.display := by
  intro code input s t u
  have saves : s.pending? code = some (.display .save .memory, 40) := by decide +kernel
  have loads : t.pending? code = some (.display .load .memory, 32) := by decide +kernel
  have again : (step code input t).state.pending? code = some (.display .save .memory, 32) := by
    decide +kernel
  have outside : u.pending? code = some (.display .load .memory, 4090) := by decide +kernel
  have chooses : (after code input s 1).pending? code = some (.display .setFlag .literal, 1) := by
    decide +kernel
  have calls : (after code input s 2).pending? code = some (.call, 6) := by decide +kernel
  have base : s.frameBase = 0 := by decide +kernel
  have frame : t.frameBase = 8 := by decide +kernel
  have last : u.frameBase = 8 := by decide +kernel
  have drawn : s.display.active.pixel 1 2 = true := by decide +kernel
  have other : t.display.inactive.pixel 1 2 = true := by decide +kernel
  have flag : t.display.flag = 1 := by decide +kernel
  have apart (k : Nat) (positive : 0 < k) (most : k ≤ 2) (cell : Fin memorySize) :
      ¬ (after code input s k).Stores code cell := by
    obtain rfl | rfl : k = 1 ∨ k = 2 := by omega
    · exact not_stores chooses rfl cell
    · exact not_stores calls rfl cell
  obtain ⟨next, loaded, active, inactive, screen, flags⟩ :=
    ((saved_plane_comes_back code input s 40 .memory).1 saves (by rw [base]; decide)).2 2 .memory 32
      (fun k positive most cell _ _ => apart k positive most cell) loads (by
        change t.frameBase + _ = _
        rw [frame, base]
        rfl)
  obtain ⟨saved, stored, memory⟩ :=
    ((saved_plane_comes_back code input t 32 .memory).2.1 loads (by rw [frame]; decide)).2 .memory again
  obtain ⟨fault, display⟩ :=
    (saved_plane_comes_back code input u 4090 .memory).2.2 outside (by rw [last]; decide)
  have went : (step code input t).state = next := congrArg Outcome.state loaded
  have shown : next.display.screen = t.display.screen := by rw [screen]
  have chosen : next.display.flag = 1 := by rw [flags, flag]
  have lit : next.display.active.pixel 1 2 = true := by rw [active]; exact drawn
  have kept : next.display.inactive.pixel 1 2 = true := by rw [inactive]; exact other
  refine ⟨saves, loads, frame, by decide +kernel, ?_, ?_, display⟩
  · rw [went] at stored
    exact ⟨next, loaded, lit, kept, shown, chosen, saved, stored, memory⟩
  · rw [fault, last]
    decide +kernel

end Machine

end Accumulator
