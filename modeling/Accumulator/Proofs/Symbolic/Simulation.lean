import Accumulator.Proofs.Machine.Control
import Accumulator.Proofs.Symbolic.Position
import Accumulator.Proofs.Text.Line

set_option autoImplicit false

/-!
The processor on the words of a program simulates the symbolic machine on its scopes: cycle by
cycle the two are in the same state, up to addresses in the place of positions.
-/

namespace Accumulator

open Source

namespace Symbolic

variable {program : Program}

theorem address_forward (p : Position) (n : Nat) :
    program.address (p.forward n) = program.address p + n :=
  (Nat.add_assoc _ p.index n).symm

theorem State.next_of_plain (s : State) (line : Line) (isPlain : line.operation.isPlain = true) :
    s.next? program line = some (s.position.forward 1, s.calls) := by
  obtain ⟨operation, literal, target⟩ := line
  cases operation with
  | halt | var | call | ret | retLW | retFW | goto | compare => cases isPlain
  | nop | pulse | movLW | movWF | movFW | movLF | arithmetic | write | read | display => rfl

/-- A comparison that ends without a fault has compared W with the value of its operand. -/
theorem State.compare_control (s : State) (condition : Condition) (operand : Operand)
    (skip : Fin 16) (literal : BitVec 24) (m : Machine.State)
    (done : (s.machine program).execute (.compare condition operand skip) literal = .ok m) :
    ∃ v, s.operand? program operand literal = some v ∧
      m.control = { (s.machine program).control with
        pc := program.address s.position + if condition.holds s.w v then 1 else skip.val + 2 } := by
  rw [Machine.execute_compare] at done
  unfold Machine.State.fetching at done
  unfold State.operand?
  cases operand with
  | literal =>
    cases done
    exact ⟨_, rfl, rfl⟩
  | w =>
    cases done
    exact ⟨_, rfl, rfl⟩
  | memory =>
    obtain ⟨v, loaded, done⟩ := Machine.loading_eq_ok _ _ _ _ done
    cases done
    refine ⟨v, ?_, rfl⟩
    dsimp only
    rw [loaded]
    rfl

/-- Where no target is involved, control goes on at the position of the processor's address. -/
theorem State.next_simulates (s : State) (line : Line) (m : Machine.State)
    (notCall : line.operation ≠ .call) (notGoto : line.operation ≠ .goto)
    (done : (s.machine program).execute line.operation line.literal = .ok m) :
    ∃ position calls, s.next? program line = some (position, calls) ∧
      program.address position = m.pc ∧ calls.map program.address = m.calls := by
  have stepped := Machine.execute_control (s.machine program) line.operation line.literal
  rw [done] at stepped
  change Machine.Control.Step _ _ (s.machine program).control none m.control at stepped
  obtain ⟨operation, literal, target⟩ := line
  dsimp only at *
  generalize control : m.control = d at stepped
  have pc : m.pc = d.pc := congrArg Machine.Control.pc control
  have calls : m.calls = d.calls := congrArg Machine.Control.calls control
  rw [pc, calls]
  cases stepped with
  | halt isHalt =>
    subst isHalt
    exact ⟨s.position, s.calls, rfl, rfl, rfl⟩
  | plain isPlain => exact ⟨_, _, s.next_of_plain _ isPlain, rfl, rfl⟩
  | declare isVar =>
    subst isVar
    exact ⟨s.position.forward 1, s.calls, rfl, rfl, rfl⟩
  | call isCall => exact absurd isCall notCall
  | goto isGoto => exact absurd isGoto notGoto
  | leave returns address base rest frames called framed =>
    change s.calls.map program.address = address :: rest at called
    obtain ⟨position, below, pending, rfl, rfl⟩ := List.map_eq_cons_iff.mp called
    refine ⟨position, below, ?_, rfl, rfl⟩
    unfold State.next?
    rw [pending]
    cases operation with
    | ret | retLW | retFW => rfl
    | _ => cases returns
  | compare condition operand skip holds isCompare =>
    subst isCompare
    obtain ⟨v, value, compared⟩ := s.compare_control condition operand skip literal m done
    refine ⟨s.position.forward (if condition.holds s.w v then 1 else skip.val + 2), s.calls, ?_,
      ?_, rfl⟩
    · unfold State.next?
      dsimp only
      rw [value]
      rfl
    · rw [address_forward]
      exact (congrArg Machine.Control.pc compared).symm.trans pc

theorem State.next_of_call (s : State) (line : Line) (target : Position)
    (isCall : line.operation = .call) (known : line.target = some target) :
    s.next? program line = some (target, s.position.forward 1 :: s.calls) := by
  unfold State.next?
  rw [isCall]
  dsimp only
  rw [known]
  rfl

theorem State.next_of_goto (s : State) (line : Line) (target : Position)
    (isGoto : line.operation = .goto) (known : line.target = some target) :
    s.next? program line = some (target, s.calls) := by
  unfold State.next?
  rw [isGoto]
  dsimp only
  rw [known]
  rfl

theorem State.machine_absorb (s : State) (m : Machine.State) (position : Position)
    (calls : List Position) (pc : program.address position = m.pc)
    (returns : calls.map program.address = m.calls) :
    ({ s.absorb m with position, calls } : State).machine program = m := by
  unfold State.machine State.absorb
  dsimp only
  rw [pc, returns]

/-- A line is carried out as the word that it encodes to, as long as control comes to an address
that a literal can hold. -/
theorem State.execute_simulates (s : State) (line : Line) (n : Nat)
    (encodes : line.Encodes program n) :
    ∃ next fault, s.execute? program line = some (next, fault) ∧
      (program.address next.position < literalBound →
        ((s.machine program).execute line.operation (BitVec.ofNat 24 n)).state =
          next.machine program ∧
        ((s.machine program).execute line.operation (BitVec.ofNat 24 n)).fault? = fault) := by
  unfold State.execute?
  by_cases isCall : line.operation = .call
  · obtain ⟨target, known, rfl⟩ := encodes.target (Or.inl isCall)
    rw [s.next_of_call line target isCall known, isCall]
    refine ⟨_, _, rfl, fun fits => ⟨?_, rfl⟩⟩
    change program.address target < literalBound at fits
    exact (s.machine_absorb _ _ _ (literal_exact fits).symm rfl).symm
  · by_cases isGoto : line.operation = .goto
    · obtain ⟨target, known, rfl⟩ := encodes.target (Or.inr isGoto)
      rw [s.next_of_goto line target isGoto known, isGoto]
      refine ⟨_, _, rfl, fun fits => ⟨?_, rfl⟩⟩
      change program.address target < literalBound at fits
      exact (s.machine_absorb _ _ _ (literal_exact fits).symm rfl).symm
    · rw [← encodes.literal isCall isGoto]
      cases done : (s.machine program).execute line.operation line.literal with
      | ok m =>
        obtain ⟨position, calls, next, pc, returns⟩ :=
          s.next_simulates line m isCall isGoto done
        refine ⟨{ s.absorb m with position, calls }, none, ?_, fun _ => ⟨?_, rfl⟩⟩
        · dsimp only
          rw [next]
          rfl
        · exact (s.machine_absorb m position calls pc returns).symm
      | failed f m =>
        have stepped := Machine.execute_control (s.machine program) line.operation line.literal
        rw [done] at stepped
        have kept : m.control = (s.machine program).control := stepped.eq_of_fault
        refine ⟨s.absorb m, some f, rfl, fun _ => ⟨?_, rfl⟩⟩
        exact (s.machine_absorb m s.position s.calls (congrArg Machine.Control.pc kept).symm
          (congrArg Machine.Control.calls kept).symm).symm

end Symbolic

section

variable {l : Layout} {program : Program} {words : List Word}

open Symbolic

theorem Program.line_at_end (program : Program) :
    program.line? ⟨0, program.main.size⟩ = some ⟨.halt, 0, none⟩ := by
  have behind : program.main.tokens[program.main.size]? = none :=
    List.getElem?_eq_none (Nat.le_refl _)
  unfold Program.line? Program.scopes
  rw [List.getElem?_cons_zero, Option.bind_some, behind]
  exact if_pos rfl

/-- What stands at a position is what the processor carries out at its address. -/
theorem Layout.Assembles.line_at (assembles : l.Assembles program words) (s : Symbolic.State)
    (running : s.halted = false) (inside : program.Inside s.position) :
    ∃ line n, program.line? s.position = some line ∧ line.Encodes program n ∧
      (s.machine program).pending? words.toArray =
        some (line.operation, BitVec.ofNat 24 n) := by
  rcases inside with ⟨scope, found, before⟩ | last
  · obtain ⟨p, placed, rfl, base⟩ := assembles.places.placement s.position.scope scope found
    have token : p.scope.tokens[s.position.index]? = some p.scope.tokens[s.position.index] :=
      List.getElem?_eq_getElem before
    have address : (s.machine program).pc = p.base + s.position.index :=
      congrArg (· + s.position.index) base
    obtain ⟨instruction, n, named, pending, refers⟩ := assembles.pending_token p
      (List.mem_of_getElem? placed) s.position.index _ token (s.machine program) running address
    obtain ⟨line, read, same, encodes⟩ := assembles.lineOf s.position.scope p placed base _
      instruction n named refers
    refine ⟨line, n, ?_, encodes, same ▸ pending⟩
    unfold Program.line?
    rw [found, Option.bind_some, token]
    exact read
  · have address : (s.machine program).pc = l.main.size + 1 := by
      change program.address s.position = l.main.size + 1
      rw [last]
      change 1 + program.main.size = l.main.size + 1
      rw [← assembles.places.main, Nat.add_comm]
      rfl
    refine ⟨⟨.halt, 0, none⟩, 0, ?_, ⟨fun _ _ => rfl, ?_⟩, ?_⟩
    · rw [last]
      exact program.line_at_end
    · rintro (isCall | isGoto)
      · cases isCall
      · cases isGoto
    · exact assembles.pending_separator (s.machine program) running address

/-- A cycle of the symbolic machine has a result, and the processor has the same one. -/
theorem Layout.Assembles.step_simulates (assembles : l.Assembles program words)
    (bounded : l.size < literalBound) (input : Machine.Input) (s : Symbolic.State)
    (inside : program.Inside s.position) :
    ∃ next fault, Symbolic.step? program input s = some (next, fault) ∧
      (program.Inside next.position →
        (Machine.step words.toArray input (s.machine program)).state = next.machine program ∧
        (Machine.step words.toArray input (s.machine program)).fault? = fault) := by
  unfold Symbolic.step?
  by_cases halted : s.halted = true
  · have stays : Machine.step words.toArray input (s.machine program) =
        .ok (s.machine program) := if_pos halted
    rw [stays, if_pos halted]
    exact ⟨s, none, rfl, fun _ => ⟨rfl, rfl⟩⟩
  · obtain ⟨line, n, read, encodes, pending⟩ :=
      assembles.line_at s (Bool.eq_false_iff.mpr halted) inside
    obtain ⟨next, fault, executed, agrees⟩ :=
      ({ s with inputs := input s.cycles, cycles := s.cycles + 1 } : Symbolic.State)
        |>.execute_simulates line n encodes
    rw [if_neg halted, read, Machine.step_of_pending words.toArray input _ _ _ pending]
    refine ⟨next, fault, executed, fun arrives => ?_⟩
    have near := assembles.places.address_le next.position arrives
    exact agrees (Nat.lt_of_le_of_lt near bounded)

/-- The same over a number of cycles. -/
theorem Layout.Assembles.run_simulates (assembles : l.Assembles program words)
    (bounded : l.size < literalBound) (input : Machine.Input) (n : Nat)
    (inside : ∀ k ≤ n, ∀ r ∈ Symbolic.run? program input k, program.Inside r.1.position) :
    ∃ s, Symbolic.run? program input n =
        some (s, Machine.results words.toArray input Machine.State.start n) ∧
      Machine.after words.toArray input Machine.State.start n = s.machine program := by
  induction n with
  | zero => exact ⟨Symbolic.State.start, rfl, rfl⟩
  | succ n ih =>
    obtain ⟨s, ran, reached⟩ := ih fun k less => inside k (Nat.le_succ_of_le less)
    have here := inside n (Nat.le_succ n) _ ran
    obtain ⟨next, fault, stepped, agrees⟩ := assembles.step_simulates bounded input s here
    have runs : Symbolic.run? program input (n + 1) =
        some (next, Machine.results words.toArray input Machine.State.start n ++ [fault]) := by
      change (Symbolic.run? program input n).bind _ = _
      rw [ran, Option.bind_some]
      dsimp only
      rw [stepped]
      rfl
    obtain ⟨state, same⟩ := agrees (inside (n + 1) (Nat.le_refl _) _ runs)
    refine ⟨next, ?_, ?_⟩
    · rw [runs, ← same, ← reached]
      rfl
    · rw [← state, ← reached]
      rfl

end

/-- The processor on the words of a source simulates the symbolic machine on its scopes. The literals of
its lines are all that their operands mean, but for a label behind the last word if no literal can hold
its address. As long as the positions of the symbolic run are those of tokens or the end of the main
scope, the run has a result for every cycle; the processor's cycles end the same way, in the same state,
with the address of the position for a program counter and those of the positions to return to on the
call stack. -/
theorem processor_simulates_scopes (text : List Char) (a : Assembly)
    (compiled : Assembly.ofSource text = .ok a) (bounded : a.layout.size < literalBound) :
    ∃ program, Program.ofSource text = .ok program ∧ program.OperandsFit a.layout.size ∧
      ∀ (input : Machine.Input) (n : Nat),
        (∀ k ≤ n, ∀ r ∈ Symbolic.run? program input k, program.Inside r.1.position) →
        ∃ s, Symbolic.run? program input n =
            some (s, Machine.results a.words.toArray input Machine.State.start n) ∧
          Machine.after a.words.toArray input Machine.State.start n = s.machine program := by
  obtain ⟨program, parsed, _⟩ := Assembly.ofSource_eq_ok.mp compiled
  have assembles := Assembly.assembles compiled parsed
  exact ⟨program, parsed, assembles.operands_fit bounded, assembles.run_simulates bounded⟩

/-- A main program that counts down in a loop and passes each number to a function. -/
def countdown : List Char :=
  ("VAR i\nMOVLW 2\nloop\nMOVWF i\nCALL double i\nDECR,W i\nEQ,0 0\nGOTO done\nGOTO loop\ndone\n" ++
    "FN double x\nMOVFW x\nADD,W x\nRET\nEND\n").toList

/-- The counter is the first variable, and the processor halts behind the main scope, where the symbolic
machine has come to its end. -/
theorem countdown_simulated :
    ∃ a program, Assembly.ofSource countdown = .ok a ∧ a.layout.size < literalBound ∧
      Program.ofSource countdown = .ok program ∧
      (∃ t ∈ program.main.tokens, t.mnemonic = "MOVWF" ∧ ∃ line,
        program.lineOf? 0 program.main t = some line ∧ line.literal = 1) ∧
      (∀ k ≤ 25, ∀ r ∈ Symbolic.run? program (fun _ => ⟨0, 0⟩) k, program.Inside r.1.position) ∧
      (Machine.after a.words.toArray (fun _ => ⟨0, 0⟩) Machine.State.start 25).halted = true ∧
      (Machine.after a.words.toArray (fun _ => ⟨0, 0⟩) Machine.State.start 25).pc =
        program.address ⟨0, program.main.size⟩ := by
  have characters : countdown = _ := Text.toList_append_of String.toList_ofList String.toList_ofList
  have accepted : ∃ a, Assembly.ofSource countdown = .ok a ∧ a.layout.size < literalBound := by
    rw [characters]
    decide +kernel
  have run : ∃ program, Program.ofSource countdown = .ok program ∧
      (∃ t ∈ program.main.tokens, t.mnemonic = "MOVWF" ∧ t.args = ["i"]) ∧
      program.meaning? 0 program.main "i" = some 1 ∧
      (∀ k ≤ 25, ∀ r ∈ Symbolic.run? program (fun _ => ⟨0, 0⟩) k,
        program.Inside r.1.position) ∧
      ∀ r ∈ Symbolic.run? program (fun _ => ⟨0, 0⟩) 25,
        r.1.halted = true ∧ r.1.position = ⟨0, program.main.size⟩ := by
    rw [characters]
    decide +kernel
  obtain ⟨a, compiled, bounded⟩ := accepted
  have named : Instruction.find? "MOVWF" = some ⟨"MOVWF", 0x05, .movWF⟩ := by decide
  obtain ⟨program, parsed, ⟨t, member, moves, args⟩, counter, inside, final⟩ := run
  obtain ⟨other, also, operands, simulates⟩ := processor_simulates_scopes countdown a compiled bounded
  obtain rfl : program = other := Except.ok.inj (parsed.symm.trans also)
  obtain ⟨s, ran, reached⟩ := simulates (fun _ => ⟨0, 0⟩) 25 inside
  obtain ⟨halted, ends⟩ := final _ ran
  obtain ⟨value, line, meaning, read, _, literal, _⟩ :=
    operands 0 program.main rfl t member ⟨"MOVWF", 0x05, .movWF⟩ "i" (moves ▸ named) (by decide)
      (by decide) args
  cases counter.symm.trans meaning
  refine ⟨a, program, compiled, bounded, parsed, ⟨t, member, moves, line, read, literal⟩, inside, ?_,
    ?_⟩
  · rw [reached]
    exact halted
  · rw [reached]
    exact congrArg program.address ends

end Accumulator
