import Accumulator.Proofs.Machine.Ceiling
import Accumulator.Proofs.Program.Fetch

set_option autoImplicit false

/-!
A program that is assembled holds the instructions of its tokens and the halt word, and nothing else.
So the machine never finds a word without an instruction in it, whatever is asked of the processor.
-/

namespace Accumulator

open Source Machine

namespace Machine

/-- A call of the processor: for one cycle, or for a run under a ceiling. -/
inductive Call
  | step (input : Input)
  | run (limit : Nat) (input : Input)

namespace Processor

/-- The processor after a call, and what the call returns. -/
def answer (p : Processor) : Call → Processor × Option Fault
  | .step input => p.step input
  | .run limit input => ({ p with limit } : Processor).run input

/-- What calls return that follow one another. -/
def answers (p : Processor) : List Call → List (Option Fault)
  | [] => []
  | call :: rest => (p.answer call).2 :: (p.answer call).1.answers rest

theorem answer_code (p : Processor) (call : Call) : (p.answer call).1.code = p.code := by
  cases call <;> rfl

/-- A run that fails has come to its ceiling, or a cycle has failed. -/
theorem run_fault (p : Processor) (input : Input) (f : Fault)
    (failed : (p.run input).2 = some f) :
    (∃ cycles, f = .cycleTimeout cycles) ∨
      ∃ s, (Machine.step p.code input s).fault? = some f := by
  obtain ⟨n, q, fault, proceeds, stops⟩ := p.exists_stops input
  rw [stops.run proceeds] at failed
  cases stops with
  | halted => cases failed
  | timedOut =>
    cases failed
    exact .inl ⟨_, rfl⟩
  | failed g _ _ failure =>
    cases failed
    rw [← p.stepped_code input n]
    exact .inr ⟨_, failure⟩

/-- What no cycle of a program returns, and is no ceiling of a run, no call returns. -/
theorem answers_fault (p : Processor) (calls : List Call) (f : Fault)
    (notTimeout : ∀ cycles, f ≠ .cycleTimeout cycles)
    (never : ∀ input s, (Machine.step p.code input s).fault? ≠ some f) :
    some f ∉ p.answers calls := by
  induction calls generalizing p with
  | nil => exact List.not_mem_nil
  | cons call rest ih =>
    intro returned
    rcases List.mem_cons.mp returned with first | later
    · cases call with
      | step input => exact never input p.state first.symm
      | run limit input =>
        rcases run_fault _ input f first.symm with ⟨cycles, timedOut⟩ | ⟨s, failed⟩
        · exact notTimeout cycles timedOut
        · exact never input s failed
    · apply ih (p.answer call).1 _ later
      rw [p.answer_code call]
      exact never

end Processor

/-- A cycle that finds no instruction has fetched a word that is none. -/
theorem unknown_of_step (code : Code) (input : Input) (s : State) (opcode : BitVec 8)
    (address : Nat)
    (failed : (step code input s).fault? = some (.unknownInstruction opcode address)) :
    ∃ w, code.fetch? s.pc = some w ∧ Instruction.decode? w.opcode = none := by
  cases pending : s.pending? code with
  | some carried =>
    obtain ⟨operation, literal⟩ := carried
    cases aborts_of_pending code input s _ operation literal pending failed
  | none =>
    rcases fault_of_idle code input s _ pending failed with other | ⟨w, fetched, unknown, _⟩
    · cases other
    · exact ⟨w, fetched, unknown⟩

end Machine

/-- The name of a comparison without its skip count. -/
def Condition.stem : Condition → Operand → String
  | .greater, .memory => "GRTF"
  | .greater, _ => "GRT"
  | .less, .memory => "LESSF"
  | .less, _ => "LESS"
  | .equal, .memory => "EQF"
  | .equal, _ => "EQ"

/-- The mnemonic of a comparison ends in its skip count. -/
theorem Instruction.comparison_mnemonic (i : Instruction) (member : i ∈ Instruction.table)
    (condition : Condition) (operand : Operand) (skip : Fin 16)
    (isCompare : i.operation = .compare condition operand skip) :
    i.mnemonic = condition.stem operand ++ "," ++ toString skip.val := by
  have spelled : ∀ i ∈ Instruction.table, (match i.operation with
      | .compare condition operand skip =>
        i.mnemonic == condition.stem operand ++ "," ++ toString skip.val
      | _ => true) = true := by
    decide +kernel
  have here := spelled i member
  rw [isCompare] at here
  exact eq_of_beq here

section

variable {l : Layout} {program : Program} {words : List Word}

/-- The word of a token is decoded to the instruction with its mnemonic. -/
theorem Layout.Assembles.decoded_token (assembles : l.Assembles program words) (p : Placement)
    (member : p ∈ l.placements) (i : Nat) (t : Token) (found : p.scope.tokens[i]? = some t) :
    ∃ w instruction, words[p.base + i - 1]? = some w ∧
      Instruction.find? t.mnemonic = some instruction ∧
      Instruction.decode? w.opcode = some instruction := by
  obtain ⟨e, w, encoded, linked, placed⟩ := assembles.word_at p member i t found
  obtain ⟨instruction, n, named, rfl, _⟩ := l.refers_of_encode p t e w encoded linked
  exact ⟨_, instruction, placed, named,
    instruction.decode?_code (Instruction.mem_of_find? named).1⟩

/-- Every word of an assembled program has an instruction in it. -/
theorem Layout.Assembles.decoded (assembles : l.Assembles program words) (pc : Nat) (w : Word)
    (fetched : Code.fetch? words.toArray pc = some w) : Instruction.decode? w.opcode ≠ none := by
  rcases assembles.fetch_cases pc w fetched with ⟨_, rfl⟩ | ⟨p, member, i, t, found, rfl⟩
  · decide +kernel
  · obtain ⟨v, instruction, placed, _, decoded⟩ := assembles.decoded_token p member i t found
    have also := ((fetch?_eq_some_iff words _ w).mp fetched).2
    rw [placed] at also
    cases also
    rw [decoded]
    exact Option.some_ne_none instruction

end

/-- Every word of a program that is assembled is the halt word behind the main scope or that of a token,
and the word of a token is decoded to the instruction that its mnemonic names, comparisons with the
number of words that they skip. So no call of a processor with these words returns that an instruction
is unknown, whatever has been called before. -/
theorem words_decode_to_tokens (text : List Char) (a : Assembly)
    (compiled : Assembly.ofSource text = .ok a) :
    (∀ p ∈ a.layout.placements, ∀ i t, p.scope.tokens[i]? = some t →
      ∃ w instruction, a.words[p.base + i - 1]? = some w ∧
        Instruction.decode? w.opcode = some instruction ∧ instruction.mnemonic = t.mnemonic ∧
        Instruction.find? t.mnemonic = some instruction ∧
        ∀ condition operand skip, instruction.operation = .compare condition operand skip →
          t.mnemonic = condition.stem operand ++ "," ++ toString skip.val) ∧
    (∀ k w, a.words[k]? = some w → (k = a.layout.main.size ∧ w = Word.halt) ∨
      ∃ p ∈ a.layout.placements, ∃ i t, p.scope.tokens[i]? = some t ∧ k + 1 = p.base + i) ∧
    ∀ calls opcode address,
      some (.unknownInstruction opcode address) ∉ (Processor.load a.words).answers calls := by
  obtain ⟨program, parsed, _, _⟩ := Assembly.ofSource_eq_ok.mp compiled
  have assembles := Assembly.assembles compiled parsed
  refine ⟨?_, ?_, ?_⟩
  · intro p member i t found
    obtain ⟨w, instruction, placed, named, decoded⟩ := assembles.decoded_token p member i t found
    obtain ⟨listed, mnemonic⟩ := Instruction.mem_of_find? named
    refine ⟨w, instruction, placed, decoded, mnemonic, named, ?_⟩
    intro condition operand skip isCompare
    rw [← mnemonic]
    exact instruction.comparison_mnemonic listed condition operand skip isCompare
  · intro k w placed
    have fetched : Code.fetch? a.words.toArray (k + 1) = some w :=
      (fetch?_eq_some_iff a.words (k + 1) w).mpr ⟨Nat.succ_ne_zero k, placed⟩
    rcases assembles.fetch_cases (k + 1) w fetched with ⟨here, isHalt⟩ | token
    · exact .inl ⟨Nat.succ.inj here, isHalt⟩
    · exact .inr token
  · intro calls opcode address
    apply Processor.answers_fault _ calls (.unknownInstruction opcode address) nofun
    intro input s failed
    obtain ⟨w, fetched, unknown⟩ := unknown_of_step _ input s opcode address failed
    exact assembles.decoded s.pc w fetched unknown

/-- A comparison that skips three words, and a call. -/
def guardedCall : List Char :=
  "LESS,3 5\nCALL twice 4\nFN twice n\nADD,W n\nRET\nEND\n".toList

/-- The first word is decoded with its skip count, and a session on the program, which ends with a run
from the state that a lower ceiling has left, knows all instructions. -/
theorem guardedCall_decoded :
    ∃ a, Assembly.ofSource guardedCall = .ok a ∧
      (∃ w i, a.words[0]? = some w ∧ Instruction.decode? w.opcode = some i ∧
        i.operation = .compare .less .literal 3) ∧
      ∀ opcode address, some (.unknownInstruction opcode address) ∉
        (Processor.load a.words).answers
          [.step fun _ => ⟨0, 0⟩, .run 4 fun _ => ⟨0, 0⟩, .run 50 fun _ => ⟨1, 2⟩] := by
  have characters : guardedCall = _ := String.toList_ofList
  have facts : ∃ a, Assembly.ofSource guardedCall = .ok a ∧ a.layout.main.base = 1 ∧
      (a.layout.main.scope.tokens[0]?.map Token.mnemonic) = some "LESS,3" := by
    rw [characters]
    decide +kernel
  obtain ⟨a, compiled, first, spelled⟩ := facts
  obtain ⟨t, found, mnemonic⟩ := Option.map_eq_some_iff.mp spelled
  obtain ⟨decoded, _, known⟩ := words_decode_to_tokens guardedCall a compiled
  obtain ⟨w, i, placed, decodes, _, named, _⟩ :=
    decoded a.layout.main List.mem_cons_self 0 t found
  rw [first] at placed
  have less : Instruction.find? "LESS,3" = some ⟨"LESS,3", 0xC3, .compare .less .literal 3⟩ := by
    decide +kernel
  rw [mnemonic, less] at named
  cases named
  exact ⟨a, compiled, ⟨w, _, placed, decodes, rfl⟩, known _⟩

end Accumulator
