import Accumulator.Proofs.Assembled.Blocks
import Accumulator.Proofs.Machine.Memory
import Accumulator.Proofs.Program.Fetch

set_option autoImplicit false

/-!
Calls with arguments. Each argument is stored past the frame of the caller before the next one is read,
so all of them are read in the frame as it was, and the callee finds them in its first variables.
-/

namespace Accumulator

open Source Machine

/-- The value of an argument in a scope: the number that it writes, or what its variable holds. -/
inductive Placement.Reads (p : Placement) (s : State) (text : String) : Value → Prop
  | number (n : Nat) (other : Text.isIdentifier text = false)
      (value : literalValue? text = some n) : Reads p s text (BitVec.ofNat 32 n)
  | declared (rank : Nat) (cell : Fin memorySize) (listed : p.vars[rank]? = some text)
      (place : cell.val = s.frameBase + (rank + 1)) : Reads p s text (s.memory.get cell)

/-- Arguments have been passed into the cells of the frame from `first` on. -/
structure Placement.Passed (p : Placement) (first : Nat) (arguments : List String)
    (s t : State) : Prop where
  control : t.control = { s.control with pc := s.pc + 2 * arguments.length }
  w : ∀ last, arguments.getLast? = some last → p.Reads s last t.w
  stored : ∀ i argument, arguments[i]? = some argument → ∃ cell : Fin memorySize,
    cell.val = s.frameBase + (first + i) ∧ p.Reads s argument (t.memory.get cell)
  kept : ∀ cell : Fin memorySize, (cell.val < s.frameBase + first ∨
    s.frameBase + (first + arguments.length) ≤ cell.val) → t.memory.get cell = s.memory.get cell

/-- What the arguments of a call may be in a scope: numbers, and the names of variables. -/
structure Placement.Passable (p : Placement) (arguments : List String) : Prop where
  declares : p.scope.Declares p.vars
  labels : ∀ name offset, p.scope.label? name = some offset → Text.isIdentifier name = true
  known : ∀ argument ∈ arguments, Text.isIdentifier argument = true → argument ∈ p.vars

section Machine

theorem Machine.ok_of_faultless {o : Outcome} (faultless : o.fault? = none) : o = .ok o.state := by
  cases o with
  | ok s => rfl
  | failed f s => cases faultless

theorem Machine.load_eq_ok {s : State} {address : Int} {v : Value}
    (loaded : s.load address = .ok v) :
    ∃ cell : Fin memorySize, (cell.val : Int) = address + s.frameBase ∧ v = s.memory.get cell := by
  unfold State.load at loaded
  cases found : s.cell address with
  | error f =>
    rw [found] at loaded
    cases loaded
  | ok cell =>
    rw [found] at loaded
    cases loaded
    exact ⟨cell, cell_eq_ok s address cell found, rfl⟩

theorem Machine.storing_eq_ok {s m : State} {address : Int} {v : Value}
    (stored : s.storing address v = .ok m) :
    ∃ cell : Fin memorySize, (cell.val : Int) = address + s.frameBase ∧
      m = (s.put cell v).advance := by
  unfold State.storing at stored
  cases found : s.cell address with
  | error f =>
    rw [found] at stored
    cases stored
  | ok cell =>
    rw [found] at stored
    cases stored
    exact ⟨cell, cell_eq_ok s address cell found, rfl⟩

variable {code : Code} {input : Input} {s : State}

theorem Machine.step_of_fetch {w : Word} {i : Instruction} (running : s.halted = false)
    (fetched : Code.fetch? code s.pc = some w) (decoded : Instruction.decode? w.opcode = some i)
    (faultless : (step code input s).fault? = none) :
    (s.sample input).execute i.operation w.literal = .ok (step code input s).state := by
  have pending : s.pending? code = some (i.operation, w.literal) :=
    (pending_eq_some_iff code s _ _).mpr ⟨running, w, i, fetched, decoded, rfl, rfl⟩
  rw [← step_of_pending code input s _ _ pending]
  exact ok_of_faultless faultless

end Machine

section Passing

variable {l : Layout} {p : Placement} {arguments : List String} {code : Code} {input : Input}
  {s : State}

theorem Layout.Carries.denotes {operation : Operation} {text : String} {n : Nat}
    (carries : l.Carries p [text] operation n) (taken : operation.takesOperand = true)
    (notCall : operation ≠ .call) (notGoto : operation ≠ .goto) : p.Denotes text n := by
  cases carries with
  | nothing _ free _ =>
    rw [taken] at free
    cases free
  | callee => exact absurd rfl notCall
  | target => exact absurd rfl notGoto
  | operand _ _ _ _ other _ single denotes =>
    cases single
    exact denotes

/-- A variable denotes its rank. -/
theorem Placement.Denotes.of_variable {text : String} {n rank : Nat} (denotes : p.Denotes text n)
    (declares : p.scope.Declares p.vars) (placed : p.vars[rank]? = some text)
    (identifier : Text.isIdentifier text = true) : n = rank + 1 := by
  have ranked := idxOf?_of_nodup p.vars rank text declares.nodup placed
  cases denotes with
  | number _ shaped _ _ =>
    have name := (numeral?_eq_none_iff text).mp (numeral?_of_identifier text identifier)
    rw [shaped] at name
    cases name
  | declaration other _ declared =>
    have also := (declares.idxOf?_iff text other).mpr declared
    rw [ranked] at also
    cases also
    rfl
  | label _ _ undeclared _ =>
    exact absurd ((declares.idxOf?_iff text rank).mp ranked) (undeclared rank)

/-- The word that loads an argument carries the address of its variable, or the number itself. -/
theorem Layout.Encodes.loads {argument : String} {w : Word} (passable : p.Passable arguments)
    (member : argument ∈ arguments)
    (encodes : l.Encodes p (if Text.isIdentifier argument then "MOVFW" else "MOVLW") [argument] w) :
    (∃ rank, p.vars[rank]? = some argument ∧ w = ⟨0x06, BitVec.ofNat 24 (rank + 1)⟩) ∨
      ∃ n, Text.isIdentifier argument = false ∧ literalValue? argument = some n ∧
        n < literalBound ∧ w = ⟨0x04, BitVec.ofNat 24 n⟩ := by
  obtain ⟨i, n, found, rfl, carries⟩ := encodes
  by_cases identifier : Text.isIdentifier argument = true
  · have move : Instruction.find? "MOVFW" = some ⟨"MOVFW", 0x06, .movFW⟩ := by decide +kernel
    rw [if_pos identifier, move] at found
    cases found
    obtain ⟨rank, placed⟩ := List.mem_iff_getElem?.mp (passable.known argument member identifier)
    refine .inl ⟨rank, placed, ?_⟩
    have denotes := carries.denotes rfl (by decide) (by decide)
    rw [denotes.of_variable passable.declares placed identifier]
  · have move : Instruction.find? "MOVLW" = some ⟨"MOVLW", 0x04, .movLW⟩ := by decide +kernel
    have other := Bool.eq_false_iff.mpr identifier
    rw [if_neg identifier, move] at found
    cases found
    refine .inr ⟨n, other, ?_⟩
    cases carries.denotes rfl (by decide) (by decide) with
    | number _ _ value fits => exact ⟨value, fits, rfl⟩
    | declaration rank _ declared =>
      obtain ⟨t, placed, declaration, args⟩ := declared
      have below := (passable.declares.first rank t placed).mp declaration
      obtain ⟨name, also, names, _⟩ := passable.declares.named rank t below placed
      rw [args, List.singleton_inj] at also
      rw [also] at other
      rw [other] at names
      cases names
    | label offset _ _ found =>
      rw [passable.labels _ offset found] at other
      cases other

/-- The word that loads an argument does so. -/
theorem loaded_of_encodes {argument : String} {w : Word} (passable : p.Passable arguments)
    (member : argument ∈ arguments)
    (encodes : l.Encodes p (if Text.isIdentifier argument then "MOVFW" else "MOVLW") [argument] w)
    (fits : p.vars.length < literalBound) (running : s.halted = false)
    (fetched : Code.fetch? code s.pc = some w)
    (faultless : (step code input s).fault? = none) :
    p.Reads s argument (step code input s).state.w ∧
      (step code input s).state.control = { s.control with pc := s.pc + 1 } ∧
      (step code input s).state.memory = s.memory := by
  rcases encodes.loads passable member with
    ⟨rank, declared, rfl⟩ | ⟨n, other, value, below, rfl⟩
  · have decoded : Instruction.decode? 0x06 = some ⟨"MOVFW", 0x06, .movFW⟩ := by decide +kernel
    have done := step_of_fetch running fetched decoded faultless
    simp only [State.execute] at done
    obtain ⟨v, loaded, last⟩ := loading_eq_ok _ _ _ _ done
    obtain ⟨cell, place, rfl⟩ := load_eq_ok loaded
    have short : rank < p.vars.length := (List.getElem?_eq_some_iff.mp declared).1
    rw [literal_exact (by omega)] at place
    change (cell.val : Int) = (rank + 1 : Nat) + s.frameBase at place
    rw [← Outcome.ok.inj last]
    exact ⟨.declared rank cell declared (by omega), rfl, rfl⟩
  · have decoded : Instruction.decode? 0x04 = some ⟨"MOVLW", 0x04, .movLW⟩ := by decide +kernel
    have done := step_of_fetch running fetched decoded faultless
    have literal : (BitVec.ofNat 24 n).setWidth 32 = BitVec.ofNat 32 n := by
      apply BitVec.eq_of_toNat_eq
      rw [BitVec.toNat_setWidth, literal_exact below, BitVec.toNat_ofNat]
    simp only [State.execute, literal] at done
    rw [← Outcome.ok.inj done]
    exact ⟨.number n other value, rfl, rfl⟩

/-- The two words of an argument read it and store it in its cell. -/
theorem passed_of_passes {argument : String} {first : Nat} {pair : List Word}
    (passable : p.Passable arguments) (member : argument ∈ arguments)
    (passes : l.Passes p argument first pair) (fits : first < literalBound)
    (frame : p.vars.length < first) (running : s.halted = false)
    (stored : Code.Contains code s.pc pair)
    (faultless : ∀ n < 2, (step code input (after code input s n)).fault? = none) :
    p.Passed first [argument] s (after code input s 2) := by
  obtain ⟨load, store, i, rfl, loads, move, rfl⟩ := passes
  have known : Instruction.find? "MOVWF" = some ⟨"MOVWF", 0x05, .movWF⟩ := by decide +kernel
  have decoded : Instruction.decode? 0x05 = some ⟨"MOVWF", 0x05, .movWF⟩ := by decide +kernel
  rw [known] at move
  cases move
  obtain ⟨reads, control, memory⟩ := loaded_of_encodes passable member loads (by omega) running
    stored.head (faultless 0 (by omega))
  have second := faultless 1 (by omega)
  change (step code input (step code input s).state).fault? = none at second
  change p.Passed first [argument] s (step code input (step code input s).state).state
  generalize (step code input s).state = u at reads control memory second
  have pc : u.pc = s.pc + 1 := congrArg Control.pc control
  have frames : u.frameBase = s.frameBase := congrArg (fun c => c.frames.headD 0) control
  have still : u.halted = false := (congrArg Control.halted control).trans running
  have done := step_of_fetch still (pc ▸ stored 1 _ rfl) decoded second
  simp only [State.execute] at done
  obtain ⟨cell, place, last⟩ := storing_eq_ok done
  rw [literal_exact fits] at place
  change (cell.val : Int) = first + u.frameBase at place
  rw [last]
  refine ⟨?_, ?_, ?_, ?_⟩
  · change { u.control with pc := u.pc + 1 } = _
    rw [control, pc]
    rfl
  · intro last listed
    cases listed
    exact reads
  · intro i name listed
    cases i with
    | succ i => cases listed
    | zero =>
      cases listed
      have stores := put_memory_self (u.sample input) cell u.w
      refine ⟨cell, by omega, ?_⟩
      rw [← stores] at reads
      exact reads
  · intro other outside
    have apart : cell ≠ other := by
      rintro rfl
      simp only [List.length_singleton] at outside
      omega
    rw [← memory]
    exact put_memory (u.sample input) cell u.w other apart

theorem Placement.Reads.mono {t : State} {text : String} {v : Value}
    (reads : p.Reads t text v) (frame : t.frameBase = s.frameBase)
    (same : ∀ cell : Fin memorySize, cell.val ≤ s.frameBase + p.vars.length →
      t.memory.get cell = s.memory.get cell) : p.Reads s text v := by
  cases reads with
  | number n other value => exact .number n other value
  | declared rank cell declared place =>
    have short : rank < p.vars.length := (List.getElem?_eq_some_iff.mp declared).1
    rw [frame] at place
    rw [same cell (by omega)]
    exact .declared rank cell declared place

theorem Placement.Passed.frameBase {first : Nat} {t : State}
    (passed : p.Passed first arguments s t) : t.frameBase = s.frameBase :=
  congrArg (fun c => c.frames.headD 0) passed.control

/-- One more argument is passed behind others. The variables are as they were. -/
theorem Placement.Passed.snoc {first : Nat} {argument : String} {u t : State}
    (front : p.Passed first arguments s u)
    (last : p.Passed (first + arguments.length) [argument] u t) (frame : p.vars.length < first) :
    p.Passed first (arguments ++ [argument]) s t := by
  have base := front.frameBase
  have unread : ∀ v, p.Reads u argument v → p.Reads s argument v := by
    intro v reads
    apply reads.mono base
    intro cell below
    exact front.kept cell (by omega)
  refine ⟨?_, ?_, ?_, ?_⟩
  · have pc : u.pc = s.pc + 2 * arguments.length := congrArg Control.pc front.control
    rw [last.control, front.control, pc, List.length_append, Nat.mul_add, ← Nat.add_assoc]
  · intro name listed
    rw [List.getLast?_concat, Option.some.injEq] at listed
    rw [← listed]
    exact unread _ (last.w argument rfl)
  · intro i name listed
    by_cases inside : i < arguments.length
    · rw [List.getElem?_append_left inside] at listed
      obtain ⟨cell, place, reads⟩ := front.stored i name listed
      refine ⟨cell, place, ?_⟩
      rw [last.kept cell (by omega)]
      exact reads
    · rw [List.getElem?_append_right (by omega)] at listed
      obtain ⟨cell, place, reads⟩ := last.stored _ name listed
      have only : i - arguments.length < 1 := (List.getElem?_eq_some_iff.mp listed).1
      have here : name = argument := by
        rw [show i - arguments.length = 0 by omega] at listed
        exact (Option.some.inj listed).symm
      rw [here] at reads ⊢
      exact ⟨cell, by omega, unread _ reads⟩
  · intro cell outside
    rw [List.length_append, List.length_singleton] at outside
    rw [last.kept cell (by rw [List.length_singleton]; omega), front.kept cell (by omega)]

theorem getElem?_flatten_of_pairs {α : Type} {pairs : List (List α)}
    (two : ∀ pair ∈ pairs, pair.length = 2) {m : Nat} {pair : List α}
    (found : pairs[m]? = some pair) {i : Nat} (inside : i < 2) :
    pairs.flatten[2 * m + i]? = pair[i]? := by
  induction pairs generalizing m with
  | nil => cases found
  | cons first rest ih =>
    have length := two first List.mem_cons_self
    rw [List.flatten_cons]
    cases m with
    | zero =>
      cases found
      rw [Nat.mul_zero, Nat.zero_add, List.getElem?_append_left (by omega)]
    | succ m =>
      have later := ih (fun other member => two other (List.mem_cons_of_mem _ member)) found
      rw [List.getElem?_append_right (by omega), ← later]
      congr 1
      omega

theorem contains_pair {pairs : List (List Word)} {address m : Nat} {pair : List Word}
    (stored : Code.Contains code address pairs.flatten) (two : ∀ pair ∈ pairs, pair.length = 2)
    (found : pairs[m]? = some pair) : Code.Contains code (address + 2 * m) pair := by
  intro i w word
  have inside := (List.getElem?_eq_some_iff.mp word).1
  rw [two pair (List.mem_of_getElem? found)] at inside
  rw [Nat.add_assoc]
  exact stored _ w ((getElem?_flatten_of_pairs two found inside).trans word)

/-- After two cycles for each, the first of the arguments are passed. -/
theorem passed_arguments {pairs : List (List Word)} (passable : p.Passable arguments)
    (passes : List.Forall₂ (fun argument pair =>
      l.Passes p argument.1 (p.vars.length + argument.2) pair) (arguments.zipIdx 1) pairs)
    (fits : p.vars.length + arguments.length < literalBound) (running : s.halted = false)
    (stored : Code.Contains code s.pc pairs.flatten)
    (faultless : ∀ n < 2 * arguments.length, (step code input (after code input s n)).fault? = none)
    (m : Nat) (within : m ≤ arguments.length) :
    p.Passed (p.vars.length + 1) (arguments.take m) s (after code input s (2 * m)) := by
  induction m with
  | zero =>
    refine ⟨rfl, nofun, ?_, fun _ _ => rfl⟩
    intro i argument listed
    rw [List.take_zero] at listed
    cases listed
  | succ m ih =>
    have front := ih (by omega)
    have here : arguments[m]? = some arguments[m] := List.getElem?_eq_getElem (by omega)
    have numbered : (arguments.zipIdx 1)[m]? = some (arguments[m], 1 + m) := by
      rw [List.getElem?_zipIdx, here, Option.map_some]
    obtain ⟨pair, placed, pass⟩ := forall₂_getElem? passes m _ numbered
    have length : (arguments.take m).length = m := by
      rw [List.length_take]
      omega
    have two : ∀ pair ∈ pairs, pair.length = 2 := by
      intro other member
      obtain ⟨_, _, passed⟩ := forall₂_exists_of_mem passes.flip other member
      exact Layout.Passes.length passed
    have pc : (after code input s (2 * m)).pc = s.pc + 2 * m := by
      have same : _ = s.pc + 2 * (arguments.take m).length := congrArg Control.pc front.control
      rw [length] at same
      exact same
    have last : p.Passed (p.vars.length + 1 + (arguments.take m).length) [arguments[m]]
        (after code input s (2 * m)) (after code input (after code input s (2 * m)) 2) := by
      rw [length, Nat.add_assoc]
      apply passed_of_passes passable (List.getElem_mem _) pass (by omega) (by omega)
      · exact (congrArg Control.halted front.control).trans running
      · rw [pc]
        exact contains_pair stored two placed
      · intro n before
        rw [← after_add]
        exact faultless _ (by omega)
    rw [← after_add] at last
    have both := front.snoc last (by omega)
    rw [List.take_add_one, here]
    exact both

theorem Machine.cell_of_place {cell : Fin memorySize} {address : Nat}
    (place : cell.val = s.frameBase + address) : s.cell address = .ok cell :=
  cell_eq_ok_iff.mpr (by omega)

/-- The word of a call carries the base of the function that the call names. -/
theorem Layout.Encodes.calls {function : String} {w : Word}
    (encodes : l.Encodes p "CALL" (function :: arguments) w) :
    ∃ q ∈ l.functions, q.scope.name = function ∧ q.scope.params.length = arguments.length ∧
      w = ⟨0x08, BitVec.ofNat 24 q.base⟩ := by
  obtain ⟨i, n, found, rfl, carries⟩ := encodes
  have call : Instruction.find? "CALL" = some ⟨"CALL", 0x08, .call⟩ := by decide +kernel
  rw [call] at found
  cases found
  cases carries with
  | nothing _ free _ => cases free
  | callee name given q same member named arity =>
    cases same
    exact ⟨q, member, named, arity, rfl⟩
  | operand _ _ notCall _ _ _ _ _ => exact absurd rfl notCall

end Passing

/-- A function has been entered with arguments from a scope. Its frame begins behind that of the
caller, its first variables are its parameters, and they hold the values that the arguments had. -/
structure Placement.Enters (p q : Placement) (arguments : List String) (s t : State) : Prop where
  pc : t.pc = q.base
  calls : t.calls = (s.pc + 2 * arguments.length + 1) :: s.calls
  frames : t.frames = (s.frameBase + p.vars.length) :: s.frames
  frameSize : t.frameSize = 0
  w : ∀ last, arguments.getLast? = some last → p.Reads s last t.w
  parameters : ∀ i argument, arguments[i]? = some argument → ∃ param cell,
    q.scope.params[i]? = some param ∧ q.frameAddress? param = some (i + 1) ∧
    t.cell (i + 1 : Nat) = .ok cell ∧ p.Reads s argument (t.memory.get cell)
  kept : ∀ cell : Fin memorySize,
    (∀ i < arguments.length, cell.val ≠ s.frameBase + p.vars.length + (i + 1)) →
    t.memory.get cell = s.memory.get cell

theorem Placement.Passed.enters {p q : Placement} {arguments : List String} {code : Code}
    {input : Input} {s t : State} (passed : p.Passed (p.vars.length + 1) arguments s t)
    (frame : s.frameSize = p.vars.length) (running : s.halted = false)
    (fetched : Code.fetch? code t.pc = some ⟨0x08, BitVec.ofNat 24 q.base⟩)
    (fits : q.base < literalBound) (faultless : (step code input t).fault? = none)
    (parameters : ∀ i < arguments.length, ∃ param, q.scope.params[i]? = some param ∧
      q.frameAddress? param = some (i + 1)) :
    p.Enters q arguments s (step code input t).state := by
  have decoded : Instruction.decode? 0x08 = some ⟨"CALL", 0x08, .call⟩ := by decide +kernel
  have still : t.halted = false := (congrArg Control.halted passed.control).trans running
  have done := step_of_fetch still fetched decoded faultless
  simp only [State.execute] at done
  rw [← Outcome.ok.inj done]
  have pc : t.pc = s.pc + 2 * arguments.length := congrArg Control.pc passed.control
  have calls : t.calls = s.calls := congrArg Control.calls passed.control
  have frames : t.frames = s.frames := congrArg Control.frames passed.control
  have size : t.frameSize = s.frameSize := congrArg Control.frameSize passed.control
  have base : t.frameBase + t.frameSize = s.frameBase + p.vars.length := by
    rw [passed.frameBase, size, frame]
  refine ⟨literal_exact fits, ?_, ?_, rfl, passed.w, ?_, ?_⟩
  · change (t.pc + 1) :: t.calls = _
    rw [pc, calls]
  · change (t.frameBase + t.frameSize) :: t.frames = _
    rw [base, frames]
  · intro i argument listed
    obtain ⟨param, named, address⟩ := parameters i (List.getElem?_eq_some_iff.mp listed).1
    obtain ⟨cell, place, reads⟩ := passed.stored i argument listed
    refine ⟨param, cell, named, address, cell_of_place ?_, reads⟩
    change cell.val = t.frameBase + t.frameSize + (i + 1)
    omega
  · intro cell outside
    apply passed.kept cell
    by_contra inside
    exact outside (cell.val - (s.frameBase + p.vars.length + 1)) (by omega) (by omega)

/-- The words of a call with arguments, executed without a fault, enter the function. -/
theorem enters_of_words {l : Layout} {p q : Placement} {arguments : List String} {code : Code}
    {input : Input} {s : State} {pairs : List (List Word)} (passable : p.Passable arguments)
    (passes : List.Forall₂ (fun argument pair =>
      l.Passes p argument.1 (p.vars.length + argument.2) pair) (arguments.zipIdx 1) pairs)
    (fits : p.vars.length + arguments.length < literalBound) (base : q.base < literalBound)
    (parameters : ∀ i < arguments.length, ∃ param, q.scope.params[i]? = some param ∧
      q.frameAddress? param = some (i + 1))
    (stored : Code.Contains code s.pc (pairs.flatten ++ [⟨0x08, BitVec.ofNat 24 q.base⟩]))
    (running : s.halted = false) (frame : s.frameSize = p.vars.length)
    (faultless : ∀ n < 2 * arguments.length + 1,
      (step code input (after code input s n)).fault? = none) :
    p.Enters q arguments s (after code input s (2 * arguments.length + 1)) := by
  obtain ⟨preamble, call⟩ := stored.append
  have counted : pairs.flatten.length = 2 * arguments.length := by
    rw [length_flatten_of_pairs (fun _ _ => Layout.Passes.length) passes, List.length_zipIdx]
  have passed := passed_arguments passable passes fits running preamble
    (fun n before => faultless n (by omega)) arguments.length (Nat.le_refl _)
  rw [List.take_length] at passed
  have pc : (after code input s (2 * arguments.length)).pc = s.pc + 2 * arguments.length :=
    congrArg Control.pc passed.control
  rw [counted, ← pc] at call
  exact passed.enters frame running call.head base (faultless _ (by omega)) parameters

/-- A line that calls a function with arguments, each of them a number or a variable of the scope. If
its words are executed without a fault, from the first one on and in a frame that has the variables of
the scope, then the function is entered with the arguments. -/
theorem call_passes_arguments (text : List Char) (a : Assembly)
    (compiled : Assembly.ofSource text = .ok a) (bounded : a.words.length < literalBound)
    (tokens main : List Token) (functions : List FunctionText)
    (expanded : (Token.scan text >>= Source.expand) = .ok tokens)
    (divides : Divides tokens main functions) (p : Placement) (lines before after : List Token)
    (t : Token) (scope : a.Scopes main functions p lines) (here : lines = before ++ t :: after)
    (instruction : t.kind = .instruction) (isCall : t.mnemonic = "CALL") (function : String)
    (arguments : List String) (args : t.args = function :: arguments) (passing : arguments ≠ [])
    (known : ∀ argument ∈ arguments, Text.isIdentifier argument = true → argument ∈ p.vars) :
    t.width = 2 * arguments.length + 1 ∧
    a.layout.Emits p p.vars.length t (wordsAt a.words (p.addressAfter before) t.width) ∧
    ∃ q ∈ a.layout.functions, q.scope.name = function ∧
      ∀ (input : Input) (s : State), s.halted = false → s.pc = p.addressAfter before →
        s.frameSize = p.vars.length →
        (∀ n < t.width, (step a.words.toArray input
          (Machine.after a.words.toArray input s n)).fault? = none) →
        p.Enters q arguments s (Machine.after a.words.toArray input s t.width) := by
  have comprises := Assembly.comprises compiled expanded divides
  have assembles := comprises.assembles
  have executes : t.executes = true := by
    unfold Token.executes Token.isDeclaration
    rw [instruction, isCall]
    decide
  obtain ⟨emits, within⟩ := comprises.block scope here executes
  have width : t.width = 2 * arguments.length + 1 := by
    unfold Token.width
    rw [if_pos isCall, args]
    rfl
  refine ⟨width, emits, ?_⟩
  have positive : 0 < arguments.length := List.length_pos_iff.mpr passing
  have stored := comprises.contains_block scope before t.width
  generalize wordsAt a.words (p.addressAfter before) t.width = words at emits stored
  cases emits with
  | single w plain _ =>
    rcases plain with other | short
    · exact absurd isCall other
    · rw [args, List.length_cons] at short
      omega
  | call name given pairs w _ same _ passed encodes =>
    rw [args] at same
    cases same
    rw [isCall, args] at encodes
    obtain ⟨q, member, named, arity, rfl⟩ := encodes.calls
    refine ⟨q, member, named, ?_⟩
    intro input s running start frame faultless
    have passable : p.Passable arguments :=
      ⟨comprises.named.declares p scope.placement,
        fun _ _ found => comprises.label_identifier scope found, known⟩
    have size := assembles.length
    have bounds := assembles.places.bounds p scope.placement
    have begins := comprises.base_le_size member (by omega)
    unfold Placement.addressAfter at within
    rw [width] at faultless within ⊢
    rw [← start] at stored
    exact enters_of_words passable passed (by omega) (by omega)
      (fun i below => comprises.parameter_address member (by omega)) stored running frame faultless

/-- The lines of the main scope of `splitMain`. -/
def splitMainLines : List Token :=
  [⟨.instruction, "VAR", ["x"], ⟨1, "VAR x"⟩⟩, ⟨.label, "start", [], ⟨2, "start"⟩⟩,
   ⟨.instruction, "CALL", ["add", "x", "7"], ⟨3, "CALL add x 7"⟩⟩,
   ⟨.instruction, "GOTO", ["start"], ⟨11, "GOTO start"⟩⟩,
   ⟨.instruction, "VAR", ["y"], ⟨12, "VAR y"⟩⟩]

/-- A state of `splitMain` before its call, where the first variable holds five. -/
def splitMainEntry : State :=
  { State.start with pc := 3, frameSize := 2, memory := State.start.memory.set 1 5 }

/-- The values of the variable and of the number arrive behind the two variables of the caller. -/
theorem splitMain_arguments :
    ∃ a, Assembly.ofSource splitMain = .ok a ∧ a.words.length < literalBound ∧
      (∀ n < 5, (step a.words.toArray (fun _ => ⟨0, 0⟩)
        (after a.words.toArray (fun _ => ⟨0, 0⟩) splitMainEntry n)).fault? = none) ∧
      (∃ tokens functions, (Token.scan splitMain >>= Source.expand) = .ok tokens ∧
        Divides tokens splitMainLines functions) ∧
      ∃ q ∈ a.layout.functions, q.scope.name = "add" ∧
        a.layout.main.Enters q ["x", "7"] splitMainEntry
          (after a.words.toArray (fun _ => ⟨0, 0⟩) splitMainEntry 5) ∧
        (after a.words.toArray (fun _ => ⟨0, 0⟩) splitMainEntry 5).memory.get ⟨3, by decide⟩ = 5 ∧
        (after a.words.toArray (fun _ => ⟨0, 0⟩) splitMainEntry 5).memory.get ⟨4, by decide⟩ = 7 := by
  have characters : splitMain = _ := Text.toList_append_of String.toList_ofList String.toList_ofList
  have facts : ∃ a, Assembly.ofSource splitMain = .ok a ∧ a.words.length < literalBound ∧
      a.layout.main.base = 1 ∧ a.layout.main.vars = ["x", "y"] ∧
      (∀ n < 5, (step a.words.toArray (fun _ => ⟨0, 0⟩)
        (after a.words.toArray (fun _ => ⟨0, 0⟩) splitMainEntry n)).fault? = none) ∧
      (after a.words.toArray (fun _ => ⟨0, 0⟩) splitMainEntry 5).memory.get ⟨3, by decide⟩ = 5 ∧
      (after a.words.toArray (fun _ => ⟨0, 0⟩) splitMainEntry 5).memory.get ⟨4, by decide⟩ = 7 := by
    rw [characters]
    decide +kernel
  have lines : ∃ tokens, (Token.scan splitMain >>= Source.expand) = .ok tokens ∧
      (divideLines tokens).map Prod.fst = some splitMainLines := by
    rw [characters]
    decide +kernel
  obtain ⟨a, compiled, bounded, base, vars, faultless, five, seven⟩ := facts
  obtain ⟨tokens, expanded, parts⟩ := lines
  obtain ⟨⟨_, functions⟩, divided, rfl⟩ := Option.map_eq_some_iff.mp parts
  have divides := (divides_iff _ _ _).mpr divided
  have known : ∀ argument ∈ ["x", "7"], Text.isIdentifier argument = true →
      argument ∈ a.layout.main.vars := by
    rw [vars]
    decide +kernel
  have start : splitMainEntry.pc = a.layout.main.addressAfter (splitMainLines.take 2) := by
    unfold Placement.addressAfter
    rw [base, vars]
    decide +kernel
  obtain ⟨_, _, q, member, named, enters⟩ := call_passes_arguments splitMain a compiled bounded tokens
    splitMainLines functions expanded divides a.layout.main splitMainLines (splitMainLines.take 2)
    (splitMainLines.drop 3) ⟨.instruction, "CALL", ["add", "x", "7"], ⟨3, "CALL add x 7"⟩⟩ .main rfl
    rfl rfl "add" ["x", "7"] rfl (List.cons_ne_nil _ _) known
  refine ⟨a, compiled, bounded, faultless, ⟨tokens, functions, expanded, divides⟩, q, member, named,
    ?_, five, seven⟩
  apply enters _ splitMainEntry rfl start _ faultless
  rw [vars]
  rfl

end Accumulator
