import Accumulator.Proofs.Assembled.Blocks
import Accumulator.Proofs.Machine.Control

set_option autoImplicit false

/-!
What a comparison skips. A false comparison goes on a fixed number of words further, while a call with
arguments has more words than one. So the skip ends at the line that the skip count tells if none of the
lines before it is such a call, and inside of the skipped lines otherwise.
-/

namespace Accumulator

open Source Machine

/-- A comparison among the lines of a scope, with as many instructions behind it that are no
declarations as it is to skip, and the next one of them. -/
structure Source.Skips (lines before : List Token) (c : Token) (skipped : List Token) (target : Token)
    (condition : Condition) (operand : Operand) (skip : Fin 16) : Prop where
  split : ∃ after, lines = before ++ c :: (skipped ++ target :: after)
  instruction : c.kind = .instruction
  comparison : ∃ i, Instruction.find? c.mnemonic = some i ∧
    i.operation = .compare condition operand skip
  count : (skipped.filter Token.executes).length = skip.val + 1
  executes : target.executes = true

theorem Source.Token.width_pos (t : Token) : 1 ≤ t.width := by
  unfold Token.width
  split <;> omega

theorem Source.Token.width_eq_one_iff (t : Token) :
    t.width = 1 ↔ (t.mnemonic = "CALL" → t.args.length ≤ 1) := by
  unfold Token.width
  split
  · rename_i isCall
    constructor
    · intro single _
      omega
    · intro short
      have := short isCall
      omega
  · rename_i other
    exact ⟨fun _ isCall => absurd isCall other, fun _ => rfl⟩

/-- Instructions have as many words as there are of them, or more if one is a call with arguments. -/
theorem sum_widths (ts : List Token) :
    ts.length ≤ (ts.map Token.width).sum ∧
      ((ts.map Token.width).sum = ts.length ↔
        ∀ t ∈ ts, t.mnemonic = "CALL" → t.args.length ≤ 1) := by
  induction ts with
  | nil => exact ⟨Nat.le_refl 0, fun _ _ => nofun, fun _ => rfl⟩
  | cons t ts ih =>
    obtain ⟨least, exact_iff⟩ := ih
    have first := t.width_pos
    rw [List.map_cons, List.sum_cons, List.length_cons, List.forall_mem_cons, ← exact_iff,
      ← t.width_eq_one_iff]
    omega

theorem Placement.addressAfter_append (p : Placement) (before skipped : List Token) (c : Token)
    (executes : c.executes = true) :
    p.addressAfter (before ++ c :: skipped) =
      p.addressAfter before + c.width + ((skipped.filter Token.executes).map Token.width).sum := by
  unfold Placement.addressAfter
  rw [List.filter_append, List.filter_cons, if_pos executes, List.map_append, List.map_cons,
    List.sum_append, List.sum_cons]
  omega

section

variable {lines before skipped : List Token} {c target : Token} {condition : Condition}
  {operand : Operand} {skip : Fin 16}

theorem Source.Skips.mnemonic (skips : Skips lines before c skipped target condition operand skip) :
    c.mnemonic ≠ "VAR" ∧ c.mnemonic ≠ "CALL" := by
  obtain ⟨i, found, isCompare⟩ := skips.comparison
  have declaration : Instruction.find? "VAR" = some ⟨"VAR", 0x03, .var⟩ := by decide +kernel
  have call : Instruction.find? "CALL" = some ⟨"CALL", 0x08, .call⟩ := by decide +kernel
  constructor
  · intro same
    rw [same, declaration] at found
    cases found
    cases isCompare
  · intro same
    rw [same, call] at found
    cases found
    cases isCompare

theorem Source.Skips.comparison_executes
    (skips : Skips lines before c skipped target condition operand skip) : c.executes = true := by
  unfold Token.executes Token.isDeclaration
  rw [skips.instruction, beq_eq_false_iff_ne.mpr skips.mnemonic.1]
  rfl

theorem Source.Skips.address (skips : Skips lines before c skipped target condition operand skip)
    (p : Placement) : p.addressAfter (before ++ c :: skipped) =
      p.addressAfter before + 1 + ((skipped.filter Token.executes).map Token.width).sum := by
  have width : c.width = 1 := if_neg skips.mnemonic.2
  rw [p.addressAfter_append before skipped c skips.comparison_executes, width]

/-- A comparison goes on with the next word if it holds, else as many words further as its skip count
tells. -/
theorem Assembly.Comprises.comparison_step {a : Assembly} {text : List Char}
    {tokens main : List Token} {functions : List FunctionText} {p : Placement}
    (comprises : a.Comprises text tokens main functions) (scope : a.Scopes main functions p lines)
    (skips : Skips lines before c skipped target condition operand skip) :
    ∃ literal, ∀ (input : Input) (s : State), s.halted = false →
      s.pc = p.addressAfter before →
      step a.words.toArray input s = (s.sample input).fetching operand literal fun v =>
        .ok { s.sample input with
          pc := p.addressAfter before + if condition.holds s.w v then 1 else skip.val + 2 } := by
  obtain ⟨after, split⟩ := skips.split
  have emits := (comprises.block scope split skips.comparison_executes).1
  have stored := comprises.contains_block scope before c.width
  generalize wordsAt a.words (p.addressAfter before) c.width = words at emits stored
  cases emits with
  | call _ _ _ _ isCall _ _ _ _ => exact absurd isCall skips.mnemonic.2
  | single w _ encodes =>
    obtain ⟨i, n, known, rfl, _⟩ := encodes
    obtain ⟨j, found, isCompare⟩ := skips.comparison
    rw [known] at found
    cases found
    refine ⟨BitVec.ofNat 24 n, ?_⟩
    intro input s running start
    have fetched := stored.head
    rw [← start] at fetched
    have decoded := i.decode?_code (Instruction.mem_of_find? known).1
    have pending : s.pending? a.words.toArray = some (i.operation, BitVec.ofNat 24 n) :=
      (pending_eq_some_iff _ s _ _).mpr ⟨running, _, i, fetched, decoded, rfl, rfl⟩
    rw [step_of_pending _ input s _ _ pending, isCompare, execute_compare, ← start]
    rfl

end

/-- A comparison compares W with its operand, and goes on with the next word if it holds, else as many
words further as its skip count tells. That is where the words of the line begin to which it is to skip
if no line in between is a call with arguments; otherwise it is a word before that line. -/
theorem comparison_skips_words (text : List Char) (a : Assembly)
    (compiled : Assembly.ofSource text = .ok a) (tokens main : List Token)
    (functions : List FunctionText) (expanded : (Token.scan text >>= Source.expand) = .ok tokens)
    (divides : Divides tokens main functions) (p : Placement)
    (lines before skipped : List Token) (c target : Token) (condition : Condition)
    (operand : Operand) (skip : Fin 16) (scope : a.Scopes main functions p lines)
    (skips : Skips lines before c skipped target condition operand skip) :
    (∃ literal, ∀ (input : Input) (s : State), s.halted = false →
      s.pc = p.addressAfter before →
      step a.words.toArray input s = (s.sample input).fetching operand literal fun v =>
        .ok { s.sample input with
          pc := p.addressAfter before + if condition.holds s.w v then 1 else skip.val + 2 }) ∧
    a.layout.Emits p p.vars.length target
      (wordsAt a.words (p.addressAfter (before ++ c :: skipped)) target.width) ∧
    (p.addressAfter before + (skip.val + 2) = p.addressAfter (before ++ c :: skipped) ↔
      ∀ t ∈ skipped, t.executes = true → t.mnemonic = "CALL" → t.args.length ≤ 1) ∧
    p.addressAfter before + (skip.val + 2) ≤ p.addressAfter (before ++ c :: skipped) := by
  have comprises := Assembly.comprises compiled expanded divides
  obtain ⟨after, split⟩ := skips.split
  have again : lines = (before ++ c :: skipped) ++ target :: after := by
    rw [split, List.append_assoc, List.cons_append]
  have address := skips.address p
  obtain ⟨least, exact_iff⟩ := sum_widths (skipped.filter Token.executes)
  have count := skips.count
  refine ⟨comprises.comparison_step scope skips, (comprises.block scope again skips.executes).1, ?_,
    by omega⟩
  · rw [address]
    have same : p.addressAfter before + (skip.val + 2) = p.addressAfter before + 1 +
        ((skipped.filter Token.executes).map Token.width).sum ↔
        ((skipped.filter Token.executes).map Token.width).sum =
          (skipped.filter Token.executes).length := by
      omega
    rw [same, exact_iff]
    constructor
    · intro each t member executes
      exact each t (List.mem_filter.mpr ⟨member, executes⟩)
    · intro each t member
      exact each t (List.mem_filter.mp member).1 (List.mem_filter.mp member).2

/-- A comparison that is to skip a call without arguments and one more line, with a declaration and a
label among them. -/
def skipOverCall : List Char :=
  "EQ,1 1\nVAR x\nCALL g\nhere\nNOP\nWOUTL,1 5\nFN g\nRET\nEND\n".toList

/-- The lines of the main scope of `skipOverCall`. -/
def skipOverCallLines : List Token :=
  [⟨.instruction, "EQ,1", ["1"], ⟨1, "EQ,1 1"⟩⟩, ⟨.instruction, "VAR", ["x"], ⟨2, "VAR x"⟩⟩,
   ⟨.instruction, "CALL", ["g"], ⟨3, "CALL g"⟩⟩, ⟨.label, "here", [], ⟨4, "here"⟩⟩,
   ⟨.instruction, "NOP", [], ⟨5, "NOP"⟩⟩, ⟨.instruction, "WOUTL,1", ["5"], ⟨6, "WOUTL,1 5"⟩⟩]

/-- The skip ends at the last line, whose word is the fifth of the program. -/
theorem skipOverCall_ends_at_line :
    ∃ a, Assembly.ofSource skipOverCall = .ok a ∧
      (∃ tokens functions, (Token.scan skipOverCall >>= Source.expand) = .ok tokens ∧
        Divides tokens skipOverCallLines functions) ∧
      Skips skipOverCallLines [] ⟨.instruction, "EQ,1", ["1"], ⟨1, "EQ,1 1"⟩⟩
        (skipOverCallLines.tail.take 4) ⟨.instruction, "WOUTL,1", ["5"], ⟨6, "WOUTL,1 5"⟩⟩ .equal
        .literal 1 ∧
      a.layout.main.addressAfter [] = 2 ∧ a.layout.main.addressAfter (skipOverCallLines.take 5) = 5 := by
  have characters : skipOverCall = _ := String.toList_ofList
  have facts : ∃ a, Assembly.ofSource skipOverCall = .ok a ∧ a.layout.main.addressAfter [] = 2 := by
    rw [characters]
    decide +kernel
  have lines : ∃ tokens, (Token.scan skipOverCall >>= Source.expand) = .ok tokens ∧
      (divideLines tokens).map Prod.fst = some skipOverCallLines := by
    rw [characters]
    decide +kernel
  have skips : Skips skipOverCallLines [] ⟨.instruction, "EQ,1", ["1"], ⟨1, "EQ,1 1"⟩⟩
      (skipOverCallLines.tail.take 4) ⟨.instruction, "WOUTL,1", ["5"], ⟨6, "WOUTL,1 5"⟩⟩ .equal
      .literal 1 :=
    ⟨⟨[], rfl⟩, rfl, ⟨⟨"EQ,1", 0xE1, .compare .equal .literal 1⟩, by decide +kernel, rfl⟩,
      by decide, by decide⟩
  obtain ⟨a, compiled, own⟩ := facts
  obtain ⟨tokens, expanded, parts⟩ := lines
  obtain ⟨⟨_, functions⟩, divided, rfl⟩ := Option.map_eq_some_iff.mp parts
  have divides := (divides_iff _ _ _).mpr divided
  obtain ⟨_, _, whole, _⟩ := comparison_skips_words skipOverCall a compiled tokens skipOverCallLines
    functions expanded divides a.layout.main skipOverCallLines [] _ _ _ _ _ _ .main skips
  have ends := whole.mpr (by decide)
  rw [own] at ends
  exact ⟨a, compiled, ⟨tokens, functions, expanded, divides⟩, skips, own, ends.symm⟩

/-- A comparison that is to skip a call with an argument. -/
def skipIntoCall : List Char :=
  "EQ,0 1\nCALL f 7\nWOUTL,1 5\nFN f a\nRET\nEND".toList

/-- The lines of the main scope of `skipIntoCall`. -/
def skipIntoCallLines : List Token :=
  [⟨.instruction, "EQ,0", ["1"], ⟨1, "EQ,0 1"⟩⟩, ⟨.instruction, "CALL", ["f", "7"], ⟨2, "CALL f 7"⟩⟩,
   ⟨.instruction, "WOUTL,1", ["5"], ⟨3, "WOUTL,1 5"⟩⟩]

/-- Not every skip ends at the line that its count tells: here it ends at address three, among the words
of the call, while the next line has its word at address five. -/
theorem comparison_may_skip_into_call :
    ¬ ∀ (text : List Char) (a : Assembly) (tokens main : List Token) (functions : List FunctionText)
        (p : Placement) (lines before skipped : List Token) (c target : Token)
        (condition : Condition) (operand : Operand) (skip : Fin 16),
      Assembly.ofSource text = .ok a → (Token.scan text >>= Source.expand) = .ok tokens →
      Divides tokens main functions → a.Scopes main functions p lines →
      Skips lines before c skipped target condition operand skip →
      p.addressAfter before + (skip.val + 2) = p.addressAfter (before ++ c :: skipped) := by
  intro whole
  have characters : skipIntoCall = _ := String.toList_ofList
  have facts : ∃ a, Assembly.ofSource skipIntoCall = .ok a ∧ a.layout.main.addressAfter [] = 1 ∧
      a.layout.main.addressAfter (skipIntoCallLines.take 2) = 5 := by
    rw [characters]
    decide +kernel
  have lines : ∃ tokens, (Token.scan skipIntoCall >>= Source.expand) = .ok tokens ∧
      (divideLines tokens).map Prod.fst = some skipIntoCallLines := by
    rw [characters]
    decide +kernel
  have skips : Skips skipIntoCallLines [] ⟨.instruction, "EQ,0", ["1"], ⟨1, "EQ,0 1"⟩⟩
      [⟨.instruction, "CALL", ["f", "7"], ⟨2, "CALL f 7"⟩⟩]
      ⟨.instruction, "WOUTL,1", ["5"], ⟨3, "WOUTL,1 5"⟩⟩ .equal .literal 0 :=
    ⟨⟨[], rfl⟩, rfl, ⟨⟨"EQ,0", 0xE0, .compare .equal .literal 0⟩, by decide +kernel, rfl⟩,
      by decide, by decide⟩
  obtain ⟨a, compiled, own, next⟩ := facts
  obtain ⟨tokens, expanded, parts⟩ := lines
  obtain ⟨⟨_, functions⟩, divided, rfl⟩ := Option.map_eq_some_iff.mp parts
  have divides := (divides_iff _ _ _).mpr divided
  have ends := whole skipIntoCall a tokens skipIntoCallLines functions a.layout.main
    skipIntoCallLines [] _ _ _ _ _ _ compiled expanded divides .main skips
  change _ = a.layout.main.addressAfter (skipIntoCallLines.take 2) at ends
  rw [own, next] at ends
  exact absurd ends (by decide)

end Accumulator
