import Accumulator.Proofs.Machine.Run

set_option autoImplicit false

/-!
The control part of a state: the program counter, the two stacks, the frame size and whether the
machine has halted. `execute_control` says all that an operation can do to it, so what a run keeps
of this part is proved by cases over `Control.Step` and without opening the operations again.
-/

namespace Accumulator

/-- The operations that end a call. -/
def Operation.returns : Operation → Bool
  | .ret | .retLW | .retFW => true
  | _ => false

/-- The operations that go on to the next word and leave the rest of the control part alone. -/
def Operation.isPlain : Operation → Bool
  | .halt | .var | .call | .ret | .retLW | .retFW | .goto | .compare _ _ _ => false
  | _ => true

theorem Operation.of_isPlain (operation : Operation) (isPlain : operation.isPlain = true) :
    operation ≠ .var ∧ operation ≠ .call ∧ operation.returns = false := by
  cases operation with
  | halt | var | call | ret | retLW | retFW | goto | compare => cases isPlain
  | nop | pulse | movLW | movWF | movFW | movLF | arithmetic | write | read | display =>
    exact ⟨nofun, nofun, rfl⟩

namespace Machine

/-- The part of a state that decides which words are executed. -/
structure Control where
  pc : Nat
  calls : List Nat
  frames : List Nat
  frameSize : Nat
  halted : Bool
deriving DecidableEq, Repr

def State.control (s : State) : Control :=
  ⟨s.pc, s.calls, s.frames, s.frameSize, s.halted⟩

/-- All that an operation can do to the control part, with the fault that it ends in. -/
inductive Control.Step (operation : Operation) (literal : BitVec 24) (c : Control) :
    Option Fault → Control → Prop
  | failed (f : Fault) : Step operation literal c (some f) c
  | halt (isHalt : operation = .halt) : Step operation literal c none { c with halted := true }
  | plain (isPlain : operation.isPlain = true) :
      Step operation literal c none { c with pc := c.pc + 1 }
  | declare (isVar : operation = .var) :
      Step operation literal c none
        { c with pc := c.pc + 1, frameSize := max c.frameSize literal.toNat }
  | call (isCall : operation = .call) :
      Step operation literal c none
        { c with
          pc := literal.toNat
          calls := (c.pc + 1) :: c.calls
          frames := (c.frames.headD 0 + c.frameSize) :: c.frames
          frameSize := 0 }
  | leave (returns : operation.returns = true) (target base : Nat) (calls frames : List Nat)
      (called : c.calls = target :: calls) (framed : c.frames = base :: frames) :
      Step operation literal c none
        { c with pc := target, calls, frames, frameSize := base - frames.headD 0 }
  | goto (isGoto : operation = .goto) :
      Step operation literal c none { c with pc := literal.toNat }
  | compare (condition : Condition) (operand : Operand) (skip : Fin 16) (holds : Bool)
      (isCompare : operation = .compare condition operand skip) :
      Step operation literal c none { c with pc := c.pc + if holds then 1 else skip.val + 2 }

/-- A step that fails does not move control. -/
theorem Control.Step.eq_of_fault {operation : Operation} {literal : BitVec 24} {c d : Control}
    {f : Fault} (stepped : Control.Step operation literal c (some f) d) : d = c := by
  cases stepped
  rfl

theorem Control.Step.halted_pc {literal : BitVec 24} {c d : Control} {fault : Option Fault}
    (stepped : Control.Step .halt literal c fault d) : d.pc = c.pc := by
  cases stepped with
  | failed f => rfl
  | halt isHalt => rfl
  | plain isPlain => cases isPlain
  | declare isVar => cases isVar
  | call isCall => cases isCall
  | leave returns => cases returns
  | goto isGoto => cases isGoto
  | compare _ _ _ _ isCompare => cases isCompare

section

/- An outcome that comes through a memory access has a property if it has it both after the access
and after its failure. -/
variable (P : Outcome → Prop) (s : State)

theorem loading_rule (address : Int) (k : Value → Outcome)
    (loads : ∀ v, s.load address = .ok v → P (k v))
    (fails : ∀ f, s.load address = .error f → P (.failed f s)) :
    P (s.loading address k) := by
  unfold State.loading
  cases loaded : s.load address with
  | ok v => exact loads v loaded
  | error f => exact fails f loaded

theorem storing_rule (address : Int) (v : Value)
    (stores : ∀ i, s.cell address = .ok i → P (.ok (s.put i v).advance))
    (fails : ∀ f, s.cell address = .error f → P (.failed f s)) :
    P (s.storing address v) := by
  unfold State.storing
  cases found : s.cell address with
  | ok i => exact stores i found
  | error f => exact fails f found

theorem fetching_rule (operand : Operand) (literal : BitVec 24) (k : Value → Outcome)
    (fetches : ∀ v, P (k v)) (fails : ∀ f, P (.failed f s)) :
    P (s.fetching operand literal k) := by
  unfold State.fetching
  cases operand with
  | literal => exact fetches (literal.setWidth 32)
  | w => exact fetches s.w
  | memory => exact loading_rule P s _ _ (fun v _ => fetches v) (fun f _ => fails f)

theorem saving_rule (address : Int) (rows : List Value)
    (saves : ∀ next, s.storeRows address rows = .ok next → P (.ok next.advance))
    (fails : ∀ f next, s.storeRows address rows = .failed f next → P (.failed f next)) :
    P (s.saving address rows) := by
  unfold State.saving
  cases stored : s.storeRows address rows with
  | ok next => exact saves next stored
  | failed f next => exact fails f next stored

end

theorem loading_eq_ok (s m : State) (address : Int) (k : Value → Outcome)
    (done : s.loading address k = .ok m) : ∃ v, s.load address = .ok v ∧ k v = .ok m := by
  unfold State.loading at done
  cases loaded : s.load address with
  | ok v =>
    rw [loaded] at done
    exact ⟨v, rfl, done⟩
  | error f =>
    rw [loaded] at done
    cases done

theorem storeRows_control (s : State) (address : Int) (rows : List Value) :
    (s.storeRows address rows).state.control = s.control := by
  induction rows generalizing s address with
  | nil => rfl
  | cons row rows ih =>
    unfold State.storeRows
    split
    · exact ih _ _
    · rfl

section

variable {operation : Operation} {literal : BitVec 24}

/-- An outcome is one of a step of the control part. -/
abbrev Outcome.Steps (o : Outcome) (operation : Operation) (literal : BitVec 24) (s : State) :
    Prop :=
  Control.Step operation literal s.control o.fault? o.state.control

theorem storing_steps (s : State) (address : Int) (v : Value)
    (isPlain : operation.isPlain = true) :
    (s.storing address v).Steps operation literal s :=
  storing_rule (·.Steps operation literal s) s address v (fun _ _ => .plain isPlain)
    (fun f _ => .failed f)

theorem loading_steps (s : State) (address : Int) (k : Value → Outcome)
    (steps : ∀ v, (k v).Steps operation literal s) :
    (s.loading address k).Steps operation literal s :=
  loading_rule (·.Steps operation literal s) s address k (fun v _ => steps v)
    (fun f _ => .failed f)

theorem fetching_steps (s : State) (operand : Operand) (source : BitVec 24) (k : Value → Outcome)
    (steps : ∀ v, (k v).Steps operation literal s) :
    (s.fetching operand source k).Steps operation literal s :=
  fetching_rule (·.Steps operation literal s) s operand source k steps .failed

theorem saving_steps (s : State) (address : Int) (rows : List Value)
    (isPlain : operation.isPlain = true) :
    (s.saving address rows).Steps operation literal s := by
  have same := storeRows_control s address rows
  apply saving_rule (·.Steps operation literal s)
  · intro next stored
    rw [stored] at same
    change Control.Step _ _ s.control none { next.control with pc := next.control.pc + 1 }
    rw [show next.control = s.control from same]
    exact .plain isPlain
  · intro f next stored
    rw [stored] at same
    change Control.Step _ _ s.control (some f) next.control
    rw [show next.control = s.control from same]
    exact .failed f

theorem restoring_steps (s : State) (loaded : Except Fault Plane)
    (isPlain : operation.isPlain = true) :
    (s.restoring loaded).Steps operation literal s := by
  cases loaded with
  | ok plane => exact .plain isPlain
  | error f => exact .failed f

theorem leave_steps (s : State) (w : Value) (returns : operation.returns = true) :
    ({ s with w } : State).leave.Steps operation literal s := by
  unfold State.leave
  split
  · rename_i target calls base frames called framed
    exact .leave returns target base calls frames called framed
  · exact .failed _

theorem execute_control (s : State) (operation : Operation) (literal : BitVec 24) :
    (s.execute operation literal).Steps operation literal s := by
  unfold State.execute
  cases operation with
  | halt => exact .halt rfl
  | nop | pulse | movLW => exact .plain rfl
  | var => exact .declare rfl
  | movWF | movLF => exact storing_steps s _ _ rfl
  | movFW => exact loading_steps s _ _ fun v => .plain rfl
  | call => exact .call rfl
  | ret => exact leave_steps s s.w rfl
  | retLW => exact leave_steps s _ rfl
  | retFW => exact loading_steps s _ _ fun v => leave_steps s v rfl
  | goto => exact .goto rfl
  | arithmetic op transfer =>
    cases transfer with
    | immediate => exact .plain rfl
    | toW => exact loading_steps s _ _ fun v => .plain rfl
    | toMemory => exact loading_steps s _ _ fun v => storing_steps s _ _ rfl
  | compare condition operand skip =>
    exact fetching_steps s _ _ _ fun v =>
      .compare condition operand skip (condition.holds s.w v) rfl
  | write port operand => exact fetching_steps s _ _ _ fun v => .plain rfl
  | read port toMemory =>
    cases toMemory with
    | false => exact .plain rfl
    | true => exact storing_steps s _ _ rfl
  | display drawing operand =>
    cases drawing with
    | save => exact saving_steps s _ _ rfl
    | load => exact restoring_steps s _ rfl
    | clear | render | pixel | horizontal | vertical | rectangle | setFlag =>
      exact fetching_steps s _ _ _ fun v => .plain rfl

end

theorem execute_compare (s : State) (condition : Condition) (operand : Operand) (skip : Fin 16)
    (literal : BitVec 24) :
    s.execute (.compare condition operand skip) literal =
      s.fetching operand literal fun v =>
        .ok { s with pc := s.pc + if condition.holds s.w v then 1 else skip.val + 2 } := rfl

/-- A cycle with nothing to carry out keeps the state, and any other is a step of the control
part. -/
theorem step_control (code : Code) (input : Input) (s : State) :
    (step code input s).state = s ∨
      ∃ operation literal, s.pending? code = some (operation, literal) ∧
        Control.Step operation literal s.control (step code input s).fault?
          (step code input s).state.control := by
  cases pending : s.pending? code with
  | none => exact Or.inl (step_of_idle code input s pending)
  | some carried =>
    obtain ⟨operation, literal⟩ := carried
    refine Or.inr ⟨operation, literal, rfl, ?_⟩
    rw [step_of_pending code input s operation literal pending]
    exact execute_control (s.sample input) operation literal

end Machine

end Accumulator
