import Accumulator.Proofs.Fibonacci.Calls
import Accumulator.Proofs.Program.Moved
import Accumulator.Proofs.Program.WellNested
import Accumulator.Proofs.Source.Joined
import Accumulator.Proofs.Source.Written

set_option autoImplicit false

/-!
The text of the Fibonacci program. Its number is a constant, which stands for the argument of one call.
So whatever the number is, the tokens are those of one text apart from this argument, and the words are
those of the function and of the main scope that calls it with the number.
-/

namespace Accumulator.Fibonacci

open Source Machine

section Text

/-- The line above the definition of the number. -/
def heading : String := "; Recursive fibonacci. Port 1 is cleared, port 2 receives fib(N)."

/-- The lines below it. -/
def body : String :=
  "\nVAR result\nWOUTL,1 0\nCALL fib N\nMOVWF result\nWOUTF,2 result\n\nFN fib n\n" ++
  "    VAR a\n    VAR b\n    MOVFW n\n    LESS,0 2            ; n < 2: return n\n" ++
  "    RETFW n\n    DECR,W n\n    MOVWF a\n    CALL fib a\n    MOVWF b\n    MOVFW n\n" ++
  "    SUB 2\n    MOVWF a\n    CALL fib a\n    ADD,W b\n    RET\nEND\n"

/-- The text of the program for the Fibonacci number with this index. -/
def source (n : Nat) : String := heading ++ "\n#define N " ++ toString n ++ "\n" ++ body

theorem toList_source (n : Nat) : (source n).toList =
    heading.toList ++ '\n' :: (defineLine "N" (toString n) ++ '\n' :: body.toList) := by
  have define : "\n#define N ".toList =
      '\n' :: ("#define".toList ++ ' ' :: ("N".toList ++ [' '])) := rfl
  have feed : "\n".toList = ['\n'] := rfl
  unfold source defineLine
  simp only [String.toList_append, define, feed, List.append_assoc, List.cons_append,
    List.nil_append]

end Text

section Tokens

/-- An instruction of the body, with the number of its line there. -/
def line (number : Nat) (mnemonic : String) (args : List String) : Token :=
  ⟨.instruction, mnemonic, args, ⟨number, " ".intercalate (mnemonic :: args)⟩⟩

/-- The line of the call in the main scope. -/
def callLine : Origin := ⟨4, "CALL fib N"⟩

def call (argument : String) : Token := ⟨.instruction, "CALL", ["fib", argument], callLine⟩

def mainLines (argument : String) : List Token :=
  [line 2 "VAR" ["result"], line 3 "WOUTL,1" ["0"], call argument, line 5 "MOVWF" ["result"],
   line 6 "WOUTF,2" ["result"]]

def function : FunctionText where
  header := ⟨.keyword .function, "FN", ["fib", "n"], ⟨8, "FN fib n"⟩⟩
  lines :=
    [line 9 "VAR" ["a"], line 10 "VAR" ["b"], line 11 "MOVFW" ["n"], line 12 "LESS,0" ["2"],
     line 13 "RETFW" ["n"], line 14 "DECR,W" ["n"], line 15 "MOVWF" ["a"], line 16 "CALL" ["fib", "a"],
     line 17 "MOVWF" ["b"], line 18 "MOVFW" ["n"], line 19 "SUB" ["2"], line 20 "MOVWF" ["a"],
     line 21 "CALL" ["fib", "a"], line 22 "ADD,W" ["b"], line 23 "RET" []]
  terminator := ⟨.keyword .finish, "END", [], ⟨24, "END"⟩⟩

/-- The tokens of the body with an argument for the call in the main scope. -/
def tokens (argument : String) : List Token :=
  mainLines argument ++ (function.header :: function.lines ++ [function.terminator])

theorem scan_body : Token.scan body.toList = .ok (tokens "N") := by
  -- Scanning is quick for the characters of the literals.
  have characters : body.toList = _ :=
    Text.toList_append_of (Text.toList_append_of (Text.toList_append_of
      String.toList_ofList String.toList_ofList) String.toList_ofList) String.toList_ofList
  rw [characters]
  decide

theorem put_tokens (value : String) : (tokens "N").map (Token.put "N" value) = tokens value := rfl

theorem toString_isWord (n : Nat) : Text.IsWord (toString n).toList := by
  rw [Nat.toString_eq_repr, Nat.toList_repr]
  refine ⟨Nat.toDigits_ne_nil, fun c member => ?_⟩
  exact Text.isWordChar_of_isDigit (Nat.isDigit_of_mem_toDigits (by decide) (by decide) member)

/-- Whatever the number is, only the argument of the call shows it. -/
theorem expand_source (n : Nat) : ∃ scanned move, Token.scan (source n).toList = .ok scanned ∧
    Source.expand scanned = .ok ((tokens (toString n)).map (Token.moved move)) := by
  have unmarked : afterMarker? (toString n).toList = none :=
    afterMarker?_eq_none_iff.mpr (unmarked_toString n)
  have expanded : (⟨[("N", toString n)]⟩ : Constants).expand (tokens "N") =
      .ok (tokens (toString n)) := by
    rw [← put_tokens]
    exact expand_defined unmarked (by decide) (by decide)
  have named : Text.isIdentifier "N" = true := by decide
  have first : Token.scan heading.toList = .ok [] := by decide
  have define := scan_defineLine (Text.word_of_identifier named) (toString_isWord n)
  obtain ⟨below, lower⟩ := Token.scan_joined (defineLine "N" (toString n)) body.toList
  rw [define, scan_body] at lower
  obtain ⟨above, whole⟩ :=
    Token.scan_joined heading.toList (defineLine "N" (toString n) ++ '\n' :: body.toList)
  rw [← toList_source, first, lower] at whole
  refine ⟨_, Origin.lowered above ∘ Origin.lowered below, whole, ?_⟩
  unfold Source.expand
  change Constants.empty.expand ((defineToken "N" (toString n) ::
    (tokens "N").map (Token.moved (Origin.lowered below))).map (Token.moved (Origin.lowered above))) = _
  rw [Constants.expand_moved, Constants.expand_directive rfl (definition_defineToken named unmarked)]
  change movedResult _ _ ((⟨[("N", toString n)]⟩ : Constants).expand _) = _
  rw [Constants.expand_moved, expanded]
  exact congrArg Except.ok (List.map_map ..)

end Tokens

section Scopes

variable {argument : String}

theorem mainLines_instructions : ∀ t ∈ mainLines argument, t.kind = .instruction := by
  unfold mainLines
  simp [line, call]

theorem wellNested : WellNested (tokens argument) (mainLines argument) [function] := by
  refine ⟨?_, .of_instructions mainLines_instructions, ?_, by decide⟩
  · have behind : Divides (function.header :: function.lines ++ [function.terminator]) []
        [function] := by
      decide
    have inside : ∀ t ∈ mainLines argument, t.InBody := fun t member =>
      .inl (mainLines_instructions t member)
    have whole := behind.behind inside
    rwa [List.append_nil] at whole
  · rw [List.forall_mem_singleton]
    exact ⟨⟨"fib", ["n"], rfl, by decide⟩, .of_instructions (by decide), rfl⟩

/-- The tokens of the main scope: a number is passed into the cell behind its variable. -/
def mainTokens (argument : String) : List Token :=
  [line 2 "VAR" ["result"], line 3 "WOUTL,1" ["0"], ⟨.instruction, "MOVLW", [argument], callLine⟩,
   ⟨.instruction, "MOVWF", ["2"], callLine⟩, call argument, line 5 "MOVWF" ["result"],
   line 6 "WOUTF,2" ["result"]]

def mainScope (argument : String) : Scope := ⟨mainName, none, [], mainTokens argument, [], none⟩

theorem ofBody_mainLines (number : Text.isIdentifier argument = false) :
    Scope.ofBody mainName none [] ((mainLines argument).map Token.kept) none = mainScope argument := by
  have kept : (mainLines argument).map Token.kept = mainLines argument := rfl
  have declarations : (mainLines argument).filter Token.isDeclaration = [line 2 "VAR" ["result"]] :=
    rfl
  have others : (mainLines argument).filter (fun t => !t.isDeclaration) =
      [line 3 "WOUTL,1" ["0"], call argument, line 5 "MOVWF" ["result"],
        line 6 "WOUTF,2" ["result"]] := rfl
  have passing : expandBody 1 (call argument) = [⟨.instruction, "MOVLW", [argument], callLine⟩,
      ⟨.instruction, "MOVWF", ["2"], callLine⟩, call argument] := by
    change [(call argument).derive (if Text.isIdentifier argument then "MOVFW" else "MOVLW") argument,
      _, _] = _
    rw [number]
    rfl
  unfold Scope.ofBody
  dsimp only
  rw [kept, declarations, others, List.length_singleton, List.flatMap_cons, List.flatMap_cons, passing]
  rfl

end Scopes

section Words

def functionAt : Placement := ⟨function.scope, 9, ["n", "a", "b"]⟩

def layout (argument : String) : Layout := ⟨⟨mainScope argument, 1, ["result"]⟩, [functionAt]⟩

theorem ofProgram_eq {argument : String} (number : Text.isIdentifier argument = false) :
    Layout.ofProgram (Program.ofParts (mainLines argument) [function]) = .ok (layout argument) := by
  have placed : placeFrom 9 [function.scope] = .ok [functionAt] := by decide
  have vars : (mainScope argument).vars = .ok ["result"] := by
    have declarations : (mainTokens argument).filter Token.isDeclaration =
        [line 2 "VAR" ["result"]] := rfl
    change ((mainTokens argument).filter Token.isDeclaration).foldlM declareVariable [] = _
    rw [declarations]
    decide
  unfold Layout.ofProgram Program.ofParts
  dsimp only
  rw [ofBody_mainLines number]
  simp only [bind_eq_ok, pure_eq_ok]
  exact ⟨_, vars, _, placed, rfl⟩

/-- The main scope with its names only, which are all that its operands need. -/
def names : Placement := ⟨⟨mainName, none, [], [], [], none⟩, 1, ["result"]⟩

theorem encode_mainTokens {n : Nat} (fits : n < literalBound) :
    (mainTokens (toString n)).mapM names.encode = .ok
      [(0x03, .value 1), (0x40, .value 0), (0x04, .value n), (0x05, .value 2),
        (0x08, .callee (call (toString n)) "fib" 1), (0x05, .value 1), (0x45, .value 1)] := by
  have known : Instruction.find? "MOVLW" = some ⟨"MOVLW", 0x04, .movLW⟩ := by decide
  have load : names.encode ⟨.instruction, "MOVLW", [toString n], callLine⟩ = .ok (0x04, .value n) :=
    names.encode_operand (i := ⟨"MOVLW", 0x04, .movLW⟩) known rfl nofun nofun rfl
      (names.resolve_toString fits)
  have enter := names.encode_callee (t := call (toString n)) rfl rfl
  rw [mapM_eq_ok]
  exact .cons (by decide) (.cons (by decide) (.cons load (.cons (by decide)
    (.cons enter (.cons (by decide) (.cons (by decide) .nil))))))

theorem encode_function : ∃ references,
    [functionAt].mapM (fun p => p.scope.tokens.mapM p.encode) = .ok references ∧
      references.flatten.mapM (Layout.mk names [functionAt]).link = .ok ((words 0).drop 8) := by
  decide

theorem code_eq {n : Nat} (fits : n < literalBound) :
    (layout (toString n)).code = .ok (words n) := by
  obtain ⟨references, encoded, linked⟩ := encode_function
  -- A call is tied to its function by the functions alone.
  have main : [((0x03 : BitVec 8), Reference.value 1), (0x40, .value 0), (0x04, .value n),
        (0x05, .value 2), (0x08, .callee (call (toString n)) "fib" 1), (0x05, .value 1),
        (0x45, .value 1)].mapM (Layout.mk names [functionAt]).link = .ok ((words n).take 7) := rfl
  have halt : [((0 : BitVec 8), Reference.value 0)].mapM (Layout.mk names [functionAt]).link =
      .ok [Word.halt] := rfl
  unfold Layout.code
  simp only [bind_eq_ok]
  refine ⟨_, encode_mainTokens fits, references, encoded, ?_⟩
  exact mapM_append_ok main (mapM_append_ok halt linked)

/-- The text for a number that fits into a literal is assembled to the words for it. -/
theorem ofSource_words {n : Nat} (fits : n < literalBound) :
    ∃ a, Assembly.ofSource (source n).toList = .ok a ∧ a.words = words n := by
  obtain ⟨scanned, move, scans, expands⟩ := expand_source n
  have number : Text.isIdentifier (toString n) = false :=
    not_isIdentifier_of_numberShaped (numberShaped_toString n)
  exact Assembly.words_of_moved scans expands wellNested.program (ofProgram_eq number) (code_eq fits)

end Words

/-- Up to the index for which the frames fill the memory, the program is assembled, and with room for
its cycles it halts with both stacks empty: the first port is clear, and the second one has the Fibonacci
number, reduced to a word. -/
theorem program_computes_fib (n : Nat) (room : n ≤ 1365) :
    ∃ a, Assembly.ofSource (source n).toList = .ok a ∧
      ∃ least, ∀ limit ≥ least, ∀ input : Input, ∃ t : State,
        ({ Processor.load a.words with limit } : Processor).run input =
            ({ Processor.load a.words with limit, state := t }, none) ∧
          t.halted = true ∧ t.calls = [] ∧ t.frames = [] ∧ t.outputs.one = 0 ∧
          t.outputs.two.toInt = (Nat.fib n : Int).bmod (2 ^ 32) := by
  have fits : n < literalBound := Nat.lt_of_le_of_lt room (by decide)
  obtain ⟨a, assembled, same⟩ := ofSource_words fits
  refine ⟨a, assembled, 5 + cycles n + 2 + 1, fun limit enough input => ?_⟩
  rw [same]
  obtain ⟨t, run, halted, calls, frames, outputs⟩ := words_run n room input enough
  refine ⟨t, run, halted, calls, frames, ?_, ?_⟩
  · rw [outputs]
  · rw [outputs]
    exact BitVec.toInt_ofNat' _

/-- For the largest of these indices. -/
theorem deepest_call_computes_fib :
    ∃ a, Assembly.ofSource (source 1365).toList = .ok a ∧
      ∃ least, ∀ limit ≥ least, ∀ input : Input, ∃ t : State,
        ({ Processor.load a.words with limit } : Processor).run input =
            ({ Processor.load a.words with limit, state := t }, none) ∧
          t.halted = true ∧ t.calls = [] ∧ t.frames = [] ∧ t.outputs.one = 0 ∧
          t.outputs.two.toInt = 132996290 := by
  have number : (Nat.fib 1365 : Int).bmod (2 ^ 32) = 132996290 := by decide +kernel
  rw [← number]
  exact program_computes_fib 1365 (Nat.le_refl _)

end Accumulator.Fibonacci
