import Accumulator.Proofs.Machine.Ceiling
import Accumulator.Proofs.Machine.Rows

set_option autoImplicit false

/-!
Contracts of straight pieces of code. A view of a state shows what code without input and display works
on. A contract says that a number of cycles succeed and what the view is behind them; contracts of pieces
that follow one another are joined, and there is one rule for each kind of word.
-/

namespace Accumulator.Machine

/-- A number of cycles that all succeed lead from one state to another. -/
inductive Leads (code : Code) (input : Input) : Nat → State → State → Prop
  | refl (s : State) : Leads code input 0 s s
  | step {n : Nat} {s t u : State} (running : s.halted = false) (here : step code input s = .ok t)
      (behind : Leads code input n t u) : Leads code input (n + 1) s u

theorem Leads.trans {code : Code} {input : Input} {m n : Nat} {s t u : State}
    (first : Leads code input m s t) (second : Leads code input n t u) :
    Leads code input (m + n) s u := by
  induction first with
  | refl s =>
    rw [Nat.zero_add]
    exact second
  | step running here _ ih =>
    rw [Nat.succ_add]
    exact .step running here (ih second)

/-- Under a ceiling that leaves room for them, cycles that lead to a halted state are the whole run. -/
theorem Leads.runObserving {α : Type} {code : Code} {input : Input} {n : Nat} {s t : State}
    (leads : Leads code input n s t) (halted : t.halted = true) (observe : α → State → α) (seen : α)
    {budget : Nat} (enough : n ≤ budget) :
    (runObserving observe code input budget seen s).2 = .ok t := by
  induction leads generalizing budget seen with
  | refl s =>
    unfold Machine.runObserving
    cases budget <;> simp only [halted, ↓reduceIte]
  | step running here _ ih =>
    obtain ⟨budget, rfl⟩ : ∃ rest, budget = rest + 1 := ⟨budget - 1, by omega⟩
    unfold Machine.runObserving
    simp only [running, Bool.false_eq_true, ↓reduceIte, here]
    exact ih halted _ (Nat.le_of_succ_le_succ enough)

theorem Leads.run {words : List Word} {input : Input} {n : Nat} {t : State}
    (leads : Leads words.toArray input n State.start t) (halted : t.halted = true) {limit : Nat}
    (enough : n ≤ limit) :
    ({ Processor.load words with limit } : Processor).run input =
      ({ Processor.load words with limit, state := t }, none) := by
  unfold Processor.run Processor.runObserving
  have whole : (Machine.runObserving (fun _ _ => ()) words.toArray input limit () State.start).2 =
      .ok t := leads.runObserving halted _ _ enough
  exact congrArg (fun o : Outcome =>
    (({ Processor.load words with limit, state := o.state } : Processor), o.fault?)) whole

/-- What only calls, returns, declarations and writes to a port change. -/
structure Activation where
  calls : List Nat
  frames : List Nat
  frameSize : Nat
  outputs : Ports

namespace Activation

def base (a : Activation) : Nat := a.frames.headD 0

/-- The activation of a function that is called here and returns to `target`. Its frame begins behind
the frame of the caller. -/
def called (a : Activation) (target : Nat) : Activation :=
  ⟨target :: a.calls, (a.base + a.frameSize) :: a.frames, 0, a.outputs⟩

/-- The activation with a frame of at least this size. -/
def sized (a : Activation) (size : Nat) : Activation := { a with frameSize := max a.frameSize size }

end Activation

/-- What code works on that neither reads a port nor draws: cells outside of the memory are zero. -/
structure View where
  activation : Activation
  pc : Nat
  w : Value
  cells : Nat → Value

def State.view (s : State) : View where
  activation := ⟨s.calls, s.frames, s.frameSize, s.outputs⟩
  pc := s.pc
  w := s.w
  cells i := if inside : i < memorySize then s.memory.get ⟨i, inside⟩ else 0

/-- From every running state with a view, the cycles succeed and lead to a running state with another
view, whatever the ports are at. -/
def Goes (code : Code) (n : Nat) (v v' : View) : Prop :=
  ∀ (input : Input) (s : State), s.halted = false → s.view = v →
    ∃ t, Leads code input n s t ∧ t.halted = false ∧ t.view = v'

section Contracts

variable {code : Code} {m n : Nat} {u v v' : View}

theorem Goes.trans (first : Goes code m u v) (second : Goes code n v v') :
    Goes code (m + n) u v' := by
  intro input s running viewed
  obtain ⟨t, leads, going, between⟩ := first input s running viewed
  obtain ⟨r, behind, still, last⟩ := second input t going between
  exact ⟨r, leads.trans behind, still, last⟩

instance : Trans (Goes code m) (Goes code n) (Goes code (m + n)) := ⟨Goes.trans⟩

/-- The word at an address carries an operation and a literal. -/
def Code.Carries (code : Code) (pc : Nat) (operation : Operation) (literal : BitVec 24) : Prop :=
  ∃ word, code.fetch? pc = some word ∧
    (Instruction.decode? word.opcode).map Instruction.operation = some operation ∧
    word.literal = literal

theorem Code.Carries.pending {pc : Nat} {operation : Operation} {literal : BitVec 24} {s : State}
    (carries : code.Carries pc operation literal) (running : s.halted = false) (there : s.pc = pc) :
    s.pending? code = some (operation, literal) := by
  obtain ⟨word, fetched, decoded, carried⟩ := carries
  obtain ⟨i, found, same⟩ := Option.map_eq_some_iff.mp decoded
  exact (pending_eq_some_iff code s _ _).mpr ⟨running, word, i, there ▸ fetched, found, same, carried⟩

/-- A word goes from one view to another if its operation does so. -/
theorem goes_of_execute {operation : Operation} {literal : BitVec 24}
    (carries : code.Carries v.pc operation literal)
    (effect : ∀ s : State, s.halted = false → s.view = v →
      ∃ t, s.execute operation literal = .ok t ∧ t.halted = false ∧ t.view = v') :
    Goes code 1 v v' := by
  intro input s running viewed
  have there : s.pc = v.pc := congrArg View.pc viewed
  obtain ⟨t, executed, going, view⟩ := effect (s.sample input) running viewed
  rw [← step_of_pending code input s _ _ (carries.pending running there)] at executed
  exact ⟨t, .step running executed (.refl t), going, view⟩

end Contracts

section Cells

variable {s : State} {a : Activation} {pc i : Nat} {w : Value} {cells : Nat → Value}
  {literal : BitVec 24}

theorem view_cells_inside (s : State) (inside : i < memorySize) :
    s.view.cells i = s.memory.get ⟨i, inside⟩ := dif_pos inside

theorem view_cells_outside (s : State) (outside : ¬ i < memorySize) : s.view.cells i = 0 :=
  dif_neg outside

theorem view_put (s : State) (i : Fin memorySize) (x : Value) :
    (s.put i x).view = { s.view with cells := Function.update s.view.cells i.val x } := by
  have cells (j : Nat) : (s.put i x).view.cells j = Function.update s.view.cells i.val x j := by
    by_cases inside : j < memorySize
    · rw [view_cells_inside _ inside]
      by_cases same : j = i.val
      · subst same
        rw [Function.update_self]
        exact put_memory_self s i x
      · rw [Function.update_of_ne same, view_cells_inside s inside]
        exact put_memory s i x ⟨j, inside⟩ fun equal => same (congrArg Fin.val equal).symm
    · have apart : j ≠ i.val := fun same => inside (same ▸ i.isLt)
      rw [Function.update_of_ne apart, view_cells_outside _ inside, view_cells_outside _ inside]
  exact congrArg (fun c => ({ s.view with cells := c } : View)) (funext cells)

theorem view_advance (s : State) : s.advance.view = { s.view with pc := s.view.pc + 1 } := rfl

theorem loading_of_load {address : Int} {x : Value} (loaded : s.load address = .ok x)
    (k : Value → Outcome) : s.loading address k = k x := by
  unfold State.loading
  rw [loaded]

theorem storing_of_cell {address : Int} (cell : Fin memorySize)
    (place : (cell.val : Int) = address + s.frameBase) (x : Value) :
    s.storing address x = .ok (s.put cell x).advance := by
  unfold State.storing
  rw [cell_eq_ok_iff.mpr place]

theorem place_of_view (viewed : s.view = ⟨a, pc, w, cells⟩) (place : a.base + literal.toNat = i) :
    (i : Int) = literal.toNat + s.frameBase := by
  have activation : s.view.activation = a := congrArg View.activation viewed
  have base : a.base = s.frameBase := by
    rw [← activation]
    rfl
  omega

theorem load_of_view (viewed : s.view = ⟨a, pc, w, cells⟩) (place : a.base + literal.toNat = i)
    (inside : i < memorySize) {x : Value} (content : cells i = x) :
    s.load literal.toNat = .ok x := by
  have shown : s.view.cells i = cells i := congrFun (congrArg View.cells viewed) i
  rw [← content, ← shown, view_cells_inside s inside]
  exact load_of_cell (place_of_view viewed place)

theorem storing_of_view (viewed : s.view = ⟨a, pc, w, cells⟩) (place : a.base + literal.toNat = i)
    (inside : i < memorySize) (x : Value) :
    ∃ t, s.storing literal.toNat x = .ok t ∧ t.halted = s.halted ∧
      t.view = ⟨a, pc + 1, w, Function.update cells i x⟩ := by
  refine ⟨_, storing_of_cell ⟨i, inside⟩ (place_of_view viewed place) x, rfl, ?_⟩
  rw [view_advance, view_put, viewed]

end Cells

section Words

variable {code : Code} {a : Activation} {pc i : Nat} {w x : Value} {cells : Nat → Value}
  {literal : BitVec 24}

theorem goes_var (carries : code.Carries pc .var literal) :
    Goes code 1 ⟨a, pc, w, cells⟩
      ⟨a.sized literal.toNat, pc + 1, w, cells⟩ := by
  refine goes_of_execute carries fun s running viewed => ⟨_, rfl, running, ?_⟩
  exact congrArg (fun v : View =>
    ({ v with activation := v.activation.sized literal.toNat, pc := v.pc + 1 } : View)) viewed

theorem goes_movLW (carries : code.Carries pc .movLW literal) :
    Goes code 1 ⟨a, pc, w, cells⟩ ⟨a, pc + 1, literal.setWidth 32, cells⟩ := by
  refine goes_of_execute carries fun s running viewed => ⟨_, rfl, running, ?_⟩
  exact congrArg (fun v : View => ({ v with w := literal.setWidth 32, pc := v.pc + 1 } : View)) viewed

theorem goes_movWF (carries : code.Carries pc .movWF literal) (place : a.base + literal.toNat = i)
    (inside : i < memorySize) :
    Goes code 1 ⟨a, pc, w, cells⟩ ⟨a, pc + 1, w, Function.update cells i w⟩ := by
  refine goes_of_execute carries fun s running viewed => ?_
  obtain ⟨t, stored, kept, view⟩ := storing_of_view viewed place inside w
  have same : s.w = w := congrArg View.w viewed
  rw [← same] at stored
  exact ⟨t, stored, kept.trans running, view⟩

theorem goes_movFW (carries : code.Carries pc .movFW literal) (place : a.base + literal.toNat = i)
    (inside : i < memorySize) (content : cells i = x) :
    Goes code 1 ⟨a, pc, w, cells⟩ ⟨a, pc + 1, x, cells⟩ := by
  refine goes_of_execute carries fun s running viewed => ?_
  rw [State.execute, loading_of_load (load_of_view viewed place inside content)]
  refine ⟨_, rfl, running, ?_⟩
  exact congrArg (fun v : View => ({ v with w := x, pc := v.pc + 1 } : View)) viewed

theorem goes_immediate {op : Arithmetic}
    (carries : code.Carries pc (.arithmetic op .immediate) literal) :
    Goes code 1 ⟨a, pc, w, cells⟩ ⟨a, pc + 1, op.apply w (literal.setWidth 32), cells⟩ := by
  refine goes_of_execute carries fun s running viewed => ⟨_, rfl, running, ?_⟩
  exact congrArg (fun v : View =>
    ({ v with w := op.apply v.w (literal.setWidth 32), pc := v.pc + 1 } : View)) viewed

theorem goes_toW {op : Arithmetic} (carries : code.Carries pc (.arithmetic op .toW) literal)
    (place : a.base + literal.toNat = i) (inside : i < memorySize) (content : cells i = x) :
    Goes code 1 ⟨a, pc, w, cells⟩ ⟨a, pc + 1, op.apply w x, cells⟩ := by
  refine goes_of_execute carries fun s running viewed => ?_
  rw [State.execute, loading_of_load (load_of_view viewed place inside content)]
  refine ⟨_, rfl, running, ?_⟩
  exact congrArg (fun v : View =>
    ({ v with w := op.apply v.w x, pc := v.pc + 1 } : View)) viewed

/-- A comparison that holds goes on with the next word, and one that does not skips words. -/
theorem goes_compare {condition : Condition} {skip : Fin 16}
    (carries : code.Carries pc (.compare condition .literal skip) literal) :
    Goes code 1 ⟨a, pc, w, cells⟩
      ⟨a, pc + if condition.holds w (literal.setWidth 32) then 1 else skip.val + 2, w, cells⟩ := by
  refine goes_of_execute carries fun s running viewed => ⟨_, rfl, running, ?_⟩
  exact congrArg (fun v : View => ({ v with
    pc := v.pc + if condition.holds v.w (literal.setWidth 32) then 1 else skip.val + 2 } : View)) viewed

theorem goes_writeL (port : Port) (carries : code.Carries pc (.write port .literal) literal) :
    Goes code 1 ⟨a, pc, w, cells⟩
      ⟨{ a with outputs := a.outputs.set port (literal.setWidth 32) }, pc + 1, w, cells⟩ := by
  refine goes_of_execute carries fun s running viewed => ⟨_, rfl, running, ?_⟩
  exact congrArg (fun v : View => ({ v with
    activation := { v.activation with
      outputs := v.activation.outputs.set port (literal.setWidth 32) }
    pc := v.pc + 1 } : View)) viewed

theorem goes_writeF (port : Port) (carries : code.Carries pc (.write port .memory) literal)
    (place : a.base + literal.toNat = i) (inside : i < memorySize) (content : cells i = x) :
    Goes code 1 ⟨a, pc, w, cells⟩
      ⟨{ a with outputs := a.outputs.set port x }, pc + 1, w, cells⟩ := by
  refine goes_of_execute carries fun s running viewed => ?_
  rw [State.execute, State.fetching, loading_of_load (load_of_view viewed place inside content)]
  refine ⟨_, rfl, running, ?_⟩
  exact congrArg (fun v : View => ({ v with
    activation := { v.activation with outputs := v.activation.outputs.set port x }
    pc := v.pc + 1 } : View)) viewed

theorem goes_call (carries : code.Carries pc .call literal) :
    Goes code 1 ⟨a, pc, w, cells⟩ ⟨a.called (pc + 1), literal.toNat, w, cells⟩ := by
  refine goes_of_execute carries fun s running viewed => ⟨_, rfl, running, ?_⟩
  exact congrArg (fun v : View =>
    (⟨v.activation.called (v.pc + 1), literal.toNat, v.w, v.cells⟩ : View)) viewed

/-- To leave a function brings its caller's activation back. -/
theorem leave_of_view {s : State} {target size : Nat} (running : s.halted = false) (x : Value)
    (viewed : s.view = ⟨(a.called target).sized size, pc, w, cells⟩) :
    ∃ t, ({ s with w := x } : State).leave = .ok t ∧ t.halted = false ∧
      t.view = ⟨a, target, x, cells⟩ := by
  have called : s.calls = target :: a.calls := congrArg (·.activation.calls) viewed
  have framed : s.frames = (a.base + a.frameSize) :: a.frames := congrArg (·.activation.frames) viewed
  have outputs : s.outputs = a.outputs := congrArg (·.activation.outputs) viewed
  have shown : s.view.cells = cells := congrArg View.cells viewed
  have back : a.base + a.frameSize - a.frames.headD 0 = a.frameSize := Nat.add_sub_cancel_left ..
  unfold State.leave
  simp only [called, framed, back]
  refine ⟨_, rfl, running, ?_⟩
  unfold State.view at shown ⊢
  rw [← shown, outputs]

theorem goes_ret {target size : Nat} (carries : code.Carries pc .ret literal) :
    Goes code 1 ⟨(a.called target).sized size, pc, w, cells⟩ ⟨a, target, w, cells⟩ := by
  refine goes_of_execute carries fun s running viewed => ?_
  have same : s.w = w := congrArg View.w viewed
  obtain ⟨t, left, going, view⟩ := leave_of_view running s.w viewed
  exact ⟨t, left, going, same ▸ view⟩

theorem goes_retFW {target size : Nat} (carries : code.Carries pc .retFW literal)
    (place : a.base + a.frameSize + literal.toNat = i) (inside : i < memorySize)
    (content : cells i = x) :
    Goes code 1 ⟨(a.called target).sized size, pc, w, cells⟩ ⟨a, target, x, cells⟩ := by
  refine goes_of_execute carries fun s running viewed => ?_
  rw [State.execute, loading_of_load (load_of_view viewed place inside content)]
  exact leave_of_view running x viewed

/-- Cycles that lead to a halt word end with it. -/
theorem Goes.halts {n : Nat} {v : View} (goes : Goes code n v ⟨a, pc, w, cells⟩)
    (carries : code.Carries pc .halt literal) (input : Input) {s : State} (running : s.halted = false)
    (viewed : s.view = v) :
    ∃ t, Leads code input (n + 1) s t ∧ t.halted = true ∧ t.view = ⟨a, pc, w, cells⟩ := by
  obtain ⟨t, leads, going, view⟩ := goes input s running viewed
  have stops := step_of_pending code input t _ _ (carries.pending going (congrArg View.pc view))
  exact ⟨_, leads.trans (.step going stops (.refl _)), rfl, view⟩

end Words

end Accumulator.Machine
