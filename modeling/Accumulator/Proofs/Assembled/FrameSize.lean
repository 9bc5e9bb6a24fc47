import Accumulator.Proofs.Machine.Control
import Accumulator.Proofs.Program.Fetch
import Accumulator.Proofs.Program.Operand
import Mathlib.Algebra.GroupWithZero.Nat

set_option autoImplicit false

/-!
The frame of a running program against the declarations of its source. As long as control stays in
its scope between calls and returns, the frame size counts the declarations that were executed, and
the frame base is the number of variables of all callers.
-/

namespace Accumulator

open Source Machine

/-- The operation of the word at an address. -/
def Machine.Code.operation? (code : Code) (pc : Nat) : Option Operation :=
  (code.fetch? pc).bind fun word => (Instruction.decode? word.opcode).map (·.operation)

/-- A word of a scope, or the halt word as seen from the main scope. -/
abbrev Layout.Inside (l : Layout) (p : Placement) (address : Nat) : Prop :=
  p.owns address = true ∨ p = l.main ∧ address = l.main.size + 1

/-- The next cycle does not leave the scope that it begins in other than by a call or a return, and
if it is a call, then the word behind it is one of this scope too. -/
def Layout.ClosedAt (l : Layout) (code : Code) (input : Input) (s : State) : Prop :=
  ∀ p ∈ l.placements, p.owns s.pc = true → ∀ carried ∈ s.pending? code,
    if carried.1 = .call then l.Inside p (s.pc + 1)
    else carried.1.returns = true ∨ l.Inside p (step code input s).state.pc

instance (l : Layout) (code : Code) (input : Input) (s : State) :
    Decidable (l.ClosedAt code input s) :=
  inferInstanceAs (Decidable (∀ p ∈ l.placements, p.owns s.pc = true →
    ∀ carried ∈ s.pending? code, if carried.1 = .call then l.Inside p (s.pc + 1)
      else carried.1.returns = true ∨ l.Inside p (step code input s).state.pc))

/-- The number of variables of the scope that owns the word at an address. -/
def Layout.variablesAt (l : Layout) (address : Nat) : Nat :=
  ((l.scopeAt? address).map fun p => p.vars.length).getD 0

/-- Both stacks, as the pending calls left them: each return address is that behind a call, and each
frame begins behind the variables of the caller. -/
inductive Layout.Unwinds (l : Layout) (code : Code) : List Nat → List Nat → Prop
  | nil : Unwinds l code [] []
  | cons (q : Placement) (address : Nat) (calls frames : List Nat) (member : q ∈ l.placements)
      (owned : q.owns address = true) (behind : q.base + q.vars.length ≤ address)
      (calling : code.operation? address = some .call) (returns : l.Inside q (address + 1))
      (rest : Unwinds l code calls frames) :
      Unwinds l code ((address + 1) :: calls) ((frames.headD 0 + q.vars.length) :: frames)

/-- What is known of a state in a scope. -/
structure Layout.Sized (l : Layout) (code : Code) (p : Placement) (c : Control) : Prop where
  size : c.frameSize = min (c.pc - p.base) p.vars.length
  unwinds : l.Unwinds code c.calls c.frames

theorem Layout.Sized.move {l : Layout} {code : Code} {p : Placement} {c : Control} (pc : Nat)
    (sized : l.Sized code p c) (behind : p.base + p.vars.length ≤ c.pc)
    (target : p.base + p.vars.length ≤ pc) : l.Sized code p { c with pc } := by
  have size := sized.size
  refine ⟨?_, sized.unwinds⟩
  change c.frameSize = min (pc - p.base) p.vars.length
  omega

theorem operation_of_pending (code : Code) (s : State) (operation : Operation)
    (literal : BitVec 24) (pending : s.pending? code = some (operation, literal)) :
    code.operation? s.pc = some operation := by
  obtain ⟨_, w, i, fetched, decoded, rfl, _⟩ :=
    (pending_eq_some_iff code s operation literal).mp pending
  unfold Code.operation?
  rw [fetched, Option.bind_some, decoded]
  rfl

section

variable {l : Layout} {program : Program} {words : List Word}

theorem Layout.Places.owner_of_inside (places : l.Places program) (p q : Placement) (address : Nat)
    (member : p ∈ l.placements) (other : q ∈ l.placements) (inside : l.Inside p address)
    (claimed : q.owns address = true) : q = p := by
  rcases inside with owned | ⟨rfl, rfl⟩
  · exact places.owner_unique q p address other member claimed owned
  · rw [places.separator_free q other] at claimed
    cases claimed

/-- A frame base is the number of the callers' variables. -/
theorem Layout.Unwinds.base_eq_sum (places : l.Places program) {code : Code}
    {calls frames : List Nat} (unwinds : l.Unwinds code calls frames) :
    frames.headD 0 = (calls.map fun r => l.variablesAt (r - 1)).sum := by
  induction unwinds with
  | nil => rfl
  | cons q address calls frames member owned _ _ _ _ ih =>
    have here : l.variablesAt address = q.vars.length := by
      unfold Layout.variablesAt
      rw [places.scopeAt?_eq_some q address member owned]
      rfl
    rw [List.map_cons, List.sum_cons, Nat.add_sub_cancel, here, ← ih, Nat.add_comm]
    rfl

theorem Layout.Unwinds.calling {code : Code} {calls frames : List Nat}
    (unwinds : l.Unwinds code calls frames) (r : Nat) (pending : r ∈ calls) :
    code.operation? (r - 1) = some .call ∧ ∃ q ∈ l.placements, q.owns (r - 1) = true := by
  induction unwinds with
  | nil => cases pending
  | cons q address calls frames member owned _ calling _ _ ih =>
    rcases List.mem_cons.mp pending with rfl | below
    · exact ⟨calling, q, member, owned⟩
    · exact ih below

/-- Every word but a declaration stands behind all declarations of its scope. -/
theorem Layout.Assembles.var_or_behind (assembles : l.Assembles program words) (p : Placement)
    (member : p ∈ l.placements) (s : State) (owned : p.owns s.pc = true) (operation : Operation)
    (literal : BitVec 24) (pending : s.pending? words.toArray = some (operation, literal)) :
    operation = .var ∨ p.base + p.vars.length ≤ s.pc := by
  obtain ⟨i, t, instruction, n, found, here, named, rfl, _⟩ :=
    assembles.pending_owned p member s owned operation literal pending
  by_cases below : i < p.vars.length
  · exact Or.inl ((assembles.var_iff p member i t instruction found named).mpr below)
  · exact Or.inr (by omega)

/-- The literal of a declaration that is carried out is its rank. -/
theorem Layout.Assembles.declaring (assembles : l.Assembles program words)
    (bounded : l.size < literalBound) (p : Placement) (member : p ∈ l.placements) (s : State)
    (owned : p.owns s.pc = true) (literal : BitVec 24)
    (pending : s.pending? words.toArray = some (.var, literal)) :
    literal.toNat = s.pc - p.base + 1 ∧ s.pc - p.base < p.vars.length := by
  obtain ⟨i, t, instruction, n, found, here, named, isVar, rfl, refers⟩ :=
    assembles.pending_owned p member s owned .var literal pending
  have below := (assembles.var_iff p member i t instruction found named).mp isVar
  have rank := assembles.declared_address p member i t n found below refers
  have fits := (assembles.declares p member).fits
  change p.vars.length ≤ p.size at fits
  have bounds := assembles.places.bounds p member
  rw [literal_exact (by omega)]
  omega

/-- A call comes to the base of a function, unless its address is the one that wraps around. -/
theorem Layout.Assembles.call_base (assembles : l.Assembles program words)
    (bounded : l.size < literalBound) (s : State) (literal : BitVec 24)
    (pending : s.pending? words.toArray = some (.call, literal)) (positive : 0 < literal.toNat) :
    ∃ q ∈ l.functions, literal.toNat = q.base := by
  obtain ⟨q, function, rfl⟩ := assembles.call_target s literal pending
  have bounds := assembles.places.function_bounds q function
  exact ⟨q, function, literal_of_pos (by omega) positive⟩

/-- A jump does not come to a declaration. -/
theorem Layout.Assembles.goto_behind (assembles : l.Assembles program words)
    (bounded : l.size < literalBound) (p : Placement) (member : p ∈ l.placements) (s : State)
    (owned : p.owns s.pc = true) (literal : BitVec 24)
    (pending : s.pending? words.toArray = some (.goto, literal)) (positive : 0 < literal.toNat) :
    p.base + p.vars.length ≤ literal.toNat := by
  obtain ⟨q, other, offset, claimed, low, high, rfl⟩ := assembles.goto_target s literal pending
  have same := assembles.places.owner_unique q p s.pc other member claimed owned
  subst same
  have bounds := assembles.places.bounds q member
  rw [literal_of_pos (by omega) positive]
  omega

/-- A call that is made behind the declarations pushes a frame behind all variables. -/
theorem Layout.Sized.call {code : Code} {p : Placement} {c : Control} (sized : l.Sized code p c)
    (member : p ∈ l.placements) (owned : p.owns c.pc = true)
    (behind : p.base + p.vars.length ≤ c.pc) (calling : code.operation? c.pc = some .call)
    (returns : l.Inside p (c.pc + 1)) (q : Placement) (target : Nat) (start : target = q.base) :
    l.Sized code q
      { c with
        pc := target
        calls := (c.pc + 1) :: c.calls
        frames := (c.frames.headD 0 + c.frameSize) :: c.frames
        frameSize := 0 } := by
  have size := sized.size
  refine ⟨?_, ?_⟩
  · change 0 = min (target - q.base) q.vars.length
    omega
  · change l.Unwinds code ((c.pc + 1) :: c.calls) ((c.frames.headD 0 + c.frameSize) :: c.frames)
    rw [show c.frameSize = p.vars.length by omega]
    exact .cons p c.pc c.calls c.frames member owned behind calling returns sized.unwinds

/-- A return restores the frame of the caller, which is behind its declarations. -/
theorem Layout.Sized.leave (places : l.Places program) {code : Code} {p : Placement} {c : Control}
    (sized : l.Sized code p c) (target base : Nat) (calls frames : List Nat)
    (called : c.calls = target :: calls) (framed : c.frames = base :: frames) (q : Placement)
    (other : q ∈ l.placements) (claimed : q.owns target = true) :
    l.Sized code q { c with pc := target, calls, frames, frameSize := base - frames.headD 0 } := by
  have unwinds := sized.unwinds
  rw [called, framed] at unwinds
  cases unwinds with
  | cons r address _ _ rmember rowned full calling inside rest =>
    have same := places.owner_of_inside r q (address + 1) rmember other inside claimed
    subst same
    refine ⟨?_, rest⟩
    change frames.headD 0 + q.vars.length - frames.headD 0 =
      min (address + 1 - q.base) q.vars.length
    omega

/-- What a step from a word of a scope keeps, if control is closed there. -/
theorem Layout.Assembles.sized_step (assembles : l.Assembles program words)
    (bounded : l.size < literalBound) (p : Placement) (member : p ∈ l.placements) (s : State)
    (owned : p.owns s.pc = true) (operation : Operation) (literal : BitVec 24)
    (pending : s.pending? words.toArray = some (operation, literal))
    (fault : Option Machine.Fault) (d : Control)
    (stepped : Control.Step operation literal s.control fault d)
    (calls : operation = .call → l.Inside p (s.pc + 1))
    (others : operation ≠ .call → operation.returns = false → l.Inside p d.pc)
    (sized : l.Sized words.toArray p s.control) (q : Placement) (other : q ∈ l.placements)
    (claimed : q.owns d.pc = true) : l.Sized words.toArray q d := by
  have places := assembles.places
  have positive : 0 < d.pc :=
    Nat.lt_of_lt_of_le (places.bounds q other).1 ((owns_iff q d.pc).mp claimed).1
  have behind : operation ≠ .var → p.base + p.vars.length ≤ s.pc := fun notVar =>
    (assembles.var_or_behind p member s owned operation literal pending).resolve_left notVar
  have stays : operation ≠ .call → operation.returns = false → q = p := fun notCall remains =>
    places.owner_of_inside p q d.pc member other (others notCall remains) claimed
  cases stepped with
  | failed f =>
    rw [places.owner_unique q p s.pc other member claimed owned]
    exact sized
  | halt isHalt =>
    rw [places.owner_unique q p s.pc other member claimed owned]
    exact ⟨sized.size, sized.unwinds⟩
  | plain isPlain =>
    obtain ⟨notVar, notCall, remains⟩ := Operation.of_isPlain _ isPlain
    rw [stays notCall remains]
    exact sized.move _ (behind notVar) (Nat.le_succ_of_le (behind notVar))
  | declare isVar =>
    subst isVar
    have rank := assembles.declaring bounded p member s owned literal pending
    have within := (owns_iff p s.pc).mp owned
    rw [stays nofun rfl]
    refine ⟨?_, sized.unwinds⟩
    have size : s.frameSize = min (s.pc - p.base) p.vars.length := sized.size
    change max s.frameSize literal.toNat = min (s.pc + 1 - p.base) p.vars.length
    omega
  | call isCall =>
    subst isCall
    obtain ⟨r, function, entry⟩ := assembles.call_base bounded s literal pending positive
    change q.owns literal.toNat = true at claimed
    rw [entry] at claimed
    have start := places.base_of_owner q r other function claimed
    exact sized.call member owned (behind nofun) (operation_of_pending _ s _ _ pending) (calls rfl)
      q _ (entry.trans start.symm)
  | leave returns target base calls frames called framed =>
    exact sized.leave places target base calls frames called framed q other claimed
  | goto isGoto =>
    subst isGoto
    rw [stays nofun rfl]
    exact sized.move _ (behind nofun)
      (assembles.goto_behind bounded p member s owned literal pending positive)
  | compare condition operand skip holds isCompare =>
    subst isCompare
    rw [stays nofun rfl]
    exact sized.move _ (behind nofun) (Nat.le_add_right_of_le (behind nofun))

/-- The invariant of runs in which control stays closed. -/
theorem Layout.Assembles.sized (assembles : l.Assembles program words)
    (bounded : l.size < literalBound) (input : Input) (n : Nat)
    (closed : ∀ k < n, l.ClosedAt words.toArray input
      (after words.toArray input State.start k)) (p : Placement) (member : p ∈ l.placements)
    (owned : p.owns (after words.toArray input State.start n).pc = true) :
    l.Sized words.toArray p (after words.toArray input State.start n).control := by
  induction n generalizing p with
  | zero =>
    have first := (assembles.places.bounds p member).1
    refine ⟨?_, .nil⟩
    change 0 = min (1 - p.base) p.vars.length
    omega
  | succ n ih =>
    have before := ih fun k less => closed k (by omega)
    have here := closed n (by omega)
    change p.owns (step words.toArray input (after words.toArray input State.start n)).state.pc =
      true at owned
    change l.Sized words.toArray p
      (step words.toArray input (after words.toArray input State.start n)).state.control
    generalize after words.toArray input State.start n = s at *
    rcases step_control words.toArray input s with idle | ⟨operation, literal, pending, stepped⟩
    · rw [idle] at owned ⊢
      exact before p member owned
    · rcases assembles.pending_cases s operation literal pending with
        ⟨separator, rfl⟩ | ⟨q, other, i, t, instruction, m, found, place, _⟩
      · -- The halt word ends the run where no scope owns the address.
        have same : (step words.toArray input s).state.pc = s.pc := stepped.halted_pc
        rw [same, separator, assembles.places.separator_free p member] at owned
        cases owned
      · have claimed := place ▸ owns_token q i t found
        have control := here q other claimed (operation, literal) pending
        refine assembles.sized_step bounded q other s claimed operation literal pending _ _ stepped
          ?_ ?_ (before q other claimed) p member owned
        · intro isCall
          rwa [if_pos isCall] at control
        · intro notCall remains
          rw [if_neg notCall, remains] at control
          exact control.resolve_left nofun

end

/-- In a run in which control stays closed, the frame size in a scope is the number of its
declarations that were carried out, and the frame base is the number of variables of the scopes that
made the pending calls. In particular the frame holds all variables behind the declarations. -/
theorem frame_follows_declarations (text : List Char) (a : Assembly)
    (compiled : Assembly.ofSource text = .ok a) (bounded : a.layout.size < literalBound)
    (input : Input) (n : Nat)
    (closed : ∀ k < n, a.layout.ClosedAt a.words.toArray input
      (after a.words.toArray input State.start k))
    (p : Placement) (member : p ∈ a.layout.placements) :
    let s := after a.words.toArray input State.start n
    p.owns s.pc = true →
      s.frameSize = min (s.pc - p.base) p.vars.length ∧
      s.frameBase = (s.calls.map fun r => a.layout.variablesAt (r - 1)).sum ∧
      (∀ r ∈ s.calls, Code.operation? a.words.toArray (r - 1) = some .call ∧
        ∃ q ∈ a.layout.placements, q.owns (r - 1) = true) ∧
      (p.base + p.vars.length ≤ s.pc → s.frameSize = p.vars.length) ∧
      ∀ literal, s.pending? a.words.toArray = some (.call, literal) →
        s.frameSize = p.vars.length := by
  intro s owned
  obtain ⟨program, parsed, _⟩ := Assembly.ofSource_eq_ok.mp compiled
  have assembles := Assembly.assembles compiled parsed
  have sized := assembles.sized bounded input n closed p member owned
  have size : s.frameSize = min (s.pc - p.base) p.vars.length := sized.size
  have full : p.base + p.vars.length ≤ s.pc → s.frameSize = p.vars.length := by
    intro behind
    omega
  refine ⟨size, sized.unwinds.base_eq_sum assembles.places, sized.unwinds.calling, full, ?_⟩
  intro literal pending
  exact full ((assembles.var_or_behind p member s owned .call literal pending).resolve_left nofun)

/-- A function with a parameter and a variable, which calls another one. -/
def callWithFrame : List Char :=
  "VAR a\nCALL f 7\nFN f x\nVAR y\nMOVFW x\nCALL g\nRET\nEND\nFN g\nRET\nEND\n".toList

/-- Before the inner call the frame holds the parameter and the variable, and it begins behind the
variable of the main program. -/
theorem callWithFrame_frame :
    ∃ a, Assembly.ofSource callWithFrame = .ok a ∧ a.layout.size < literalBound ∧
      (∀ k < 7, a.layout.ClosedAt a.words.toArray (fun _ => ⟨0, 0⟩)
        (after a.words.toArray (fun _ => ⟨0, 0⟩) State.start k)) ∧
      ∃ p ∈ a.layout.placements, p.vars = ["x", "y"] ∧
        p.owns (after a.words.toArray (fun _ => ⟨0, 0⟩) State.start 7).pc = true ∧
        (after a.words.toArray (fun _ => ⟨0, 0⟩) State.start 7).pending? a.words.toArray =
          some (.call, 11) ∧
        (after a.words.toArray (fun _ => ⟨0, 0⟩) State.start 7).frameSize = 2 ∧
        (after a.words.toArray (fun _ => ⟨0, 0⟩) State.start 7).frameBase = 1 := by
  have characters : callWithFrame = _ := String.toList_ofList
  have facts : ∃ a, Assembly.ofSource callWithFrame = .ok a ∧ a.layout.size < literalBound ∧
      (∀ k < 7, a.layout.ClosedAt a.words.toArray (fun _ => ⟨0, 0⟩)
        (after a.words.toArray (fun _ => ⟨0, 0⟩) State.start k)) ∧
      (∃ p ∈ a.layout.placements, p.vars = ["x", "y"] ∧
        p.owns (after a.words.toArray (fun _ => ⟨0, 0⟩) State.start 7).pc = true) ∧
      (after a.words.toArray (fun _ => ⟨0, 0⟩) State.start 7).pending? a.words.toArray =
        some (.call, 11) ∧
      ((after a.words.toArray (fun _ => ⟨0, 0⟩) State.start 7).calls.map
        fun r => a.layout.variablesAt (r - 1)).sum = 1 := by
    rw [characters]
    decide +kernel
  obtain ⟨a, compiled, bounded, closed, ⟨p, member, vars, owned⟩, pending, sum⟩ := facts
  obtain ⟨_, base, _, _, size⟩ := frame_follows_declarations callWithFrame a compiled bounded
    (fun _ => ⟨0, 0⟩) 7 closed p member owned
  refine ⟨a, compiled, bounded, closed, p, member, vars, owned, pending, ?_, base.trans sum⟩
  rw [size 11 pending, vars]
  rfl

end Accumulator
