import Accumulator.Proofs.Program.Acceptance
import Accumulator.Proofs.Program.Fetch
import Accumulator.Proofs.Program.WellNested
import Accumulator.Proofs.Source.Expansion

set_option autoImplicit false

/-!
How much of an address a word holds. Addresses are numbers of any size, and a literal is the low 24 bits
of one. That is the whole number if it is written in the text, or if the program leaves an address free.
A larger program is assembled all the same, and its jumps to the far end lead elsewhere.
-/

namespace Accumulator

open Source

section Width

variable {l : Layout} {program : Program}

theorem literal_eq_iff (n : Nat) : (BitVec.ofNat 24 n).toNat = n ↔ n < literalBound := by
  constructor
  · intro whole
    rw [← whole]
    exact (BitVec.ofNat 24 n).isLt
  · exact literal_exact

/-- What a word stands for is a number that is written and fits, or an address of the program. -/
theorem Layout.Carries.lt_or_le {p : Placement} {args : List String} {operation : Operation}
    {n : Nat} (carries : l.Carries p args operation n) (places : l.Places program)
    (member : p ∈ l.placements) (declares : p.scope.Declares p.vars) :
    n < literalBound ∨ n ≤ l.size + 1 := by
  have bounds := places.bounds p member
  cases carries with
  | nothing => exact .inl (by decide)
  | callee function given q call callee =>
    have callable := places.function_bounds q callee
    exact .inr (by omega)
  | target name offset jump placed =>
    have inside : offset ≤ p.size := (declares.labels name offset placed).2
    exact .inr (by omega)
  | operand _ taken notCall notGoto text _ single denotes =>
    have range := denotes.lt_or_le declares bounds.1
    omega

/-- A program has code exactly if each of its tokens stands for a number, which may have any size. The
word of the token holds the low 24 bits of it: exactly if it fits into them it is held as a whole, which
all numbers do if the program leaves an address free. -/
theorem literals_hold_low_bits (tokens : List Token) (program : Program) (l : Layout)
    (parsed : Program.ofTokens tokens = .ok program) (placed : Layout.ofProgram program = .ok l) :
    ((∃ words, l.code = .ok words) ↔ ∀ p ∈ l.placements, ∀ t ∈ p.scope.tokens, ∃ i n,
      Instruction.find? t.mnemonic = some i ∧ l.Carries p t.args i.operation n) ∧
    ∀ words, l.code = .ok words →
      ∀ p ∈ l.placements, ∀ index t, p.scope.tokens[index]? = some t → ∃ w i n,
        words[p.base + index - 1]? = some w ∧ Instruction.find? t.mnemonic = some i ∧
        w.opcode = i.code ∧ l.Carries p t.args i.operation n ∧
        w.literal.toNat = n % literalBound ∧
        (w.literal.toNat = n ↔ n < literalBound) ∧
        (l.size + 1 < literalBound → w.literal.toNat = n) := by
  have named := Layout.named_of_ofProgram parsed placed
  have places := Layout.places_of_ofProgram placed
  refine ⟨⟨?_, ?_⟩, ?_⟩
  · rintro ⟨words, coded⟩ p member t token
    obtain ⟨w, i, n, known, _, carries⟩ := named.encodes_of_code coded p member t token
    exact ⟨i, n, known, carries⟩
  · intro each
    apply named.code_of_encodes
    intro p member t token
    obtain ⟨i, n, known, carries⟩ := each p member t token
    exact ⟨_, i, n, known, rfl, carries⟩
  · intro words coded p member index t found
    have assembles : l.Assembles program words :=
      ⟨places, Program.formed_of_tokens tokens program parsed, coded⟩
    obtain ⟨_, here, i, n, known, rfl, carries⟩ := named.token_word assembles p member index t found
    refine ⟨_, i, n, here, known, rfl, carries, BitVec.toNat_ofNat n 24, literal_eq_iff n, ?_⟩
    intro free
    have range := carries.lt_or_le places member (named.declares p member)
    exact literal_exact (by omega)

/-- A program with an address in each kind of operand: a variable, a label, a function. -/
def pointers : List Char :=
  "VAR cell\nMOVLW done\nCALL leaf\nMOVWF cell\ndone\nFN leaf\nRET\nEND\n".toList

/-- It is so small that its words hold the whole addresses. -/
theorem pointers_whole :
    ∃ tokens, (Token.scan pointers >>= Source.expand) = .ok tokens ∧
      ∃ program, Program.ofTokens tokens = .ok program ∧
        ∃ l, Layout.ofProgram program = .ok l ∧ l.size = 6 ∧
          ∃ words, l.code = .ok words ∧
            words.map (fun w => w.literal.toNat) = [1, 5, 6, 1, 0, 0] ∧
            ∀ p ∈ l.placements, ∀ index t, p.scope.tokens[index]? = some t → ∃ w i n,
              words[p.base + index - 1]? = some w ∧ Instruction.find? t.mnemonic = some i ∧
              l.Carries p t.args i.operation n ∧ w.literal.toNat = n := by
  have characters : pointers = _ := String.toList_ofList
  have facts : ∃ tokens, (Token.scan pointers >>= Source.expand) = .ok tokens ∧
      ∃ program, Program.ofTokens tokens = .ok program ∧
        ∃ l, Layout.ofProgram program = .ok l ∧ l.size = 6 ∧
          ∃ words, l.code = .ok words ∧
            words.map (fun w => w.literal.toNat) = [1, 5, 6, 1, 0, 0] := by
    rw [characters]
    decide
  obtain ⟨tokens, read, program, parsed, l, placed, size, words, coded, literals⟩ := facts
  refine ⟨tokens, read, program, parsed, l, placed, size, words, coded, literals, ?_⟩
  intro p member index t found
  have free : l.size + 1 < literalBound := by
    rw [size]
    decide
  obtain ⟨w, i, n, here, known, _, carries, _, _, whole⟩ :=
    (literals_hold_low_bits tokens program l parsed placed).2 words coded p member index t found
  exact ⟨w, i, n, here, known, carries, whole free⟩

end Width

section Single

variable {frame offset : Nat} {lines : List Token}

/-- An instruction that emits its own word and no other. -/
structure Source.Token.Single (t : Token) : Prop where
  instruction : t.kind = .instruction
  notVar : t.isDeclaration = false
  notCall : t.mnemonic ≠ "CALL"

theorem Source.Token.Single.expandBody {t : Token} (single : t.Single) :
    expandBody frame t = [t] := by
  have unlabelled : t.isLabel = false := by
    unfold Token.isLabel
    rw [single.instruction]
    rfl
  unfold Accumulator.expandBody
  rw [unlabelled, if_neg Bool.false_ne_true, if_neg single.notCall]

theorem flatMap_single (singles : ∀ t ∈ lines, t.Single) : lines.flatMap (expandBody frame) = lines := by
  induction lines with
  | nil => rfl
  | cons t lines ih =>
    rw [List.forall_mem_cons] at singles
    rw [List.flatMap_cons, singles.1.expandBody, ih singles.2]
    rfl

/-- The line that places a label by its name. -/
def placing (name : String) (origin : Origin) : Token := ⟨.label, name, [], origin⟩

/-- The main scope of such instructions, with a label behind them. -/
theorem ofBody_single (singles : ∀ t ∈ lines, t.Single) {name : String} (notVar : name ≠ "VAR")
    (origin : Origin) :
    let scope := Scope.ofBody mainName none [] ((lines ++ [placing name origin]).map Token.kept) none
    scope.tokens = lines ∧ (name, lines.length) ∈ scope.labels := by
  have kept : (lines ++ [placing name origin]).map Token.kept = lines ++ [placing name origin] := by
    rw [List.map_append, List.map_congr_left fun t member =>
      Token.kept_of_instruction (singles t member).instruction, List.map_id']
    rfl
  have executes : ∀ t ∈ lines ++ [placing name origin], t.isDeclaration = false := by
    rw [List.forall_mem_append, List.forall_mem_singleton]
    exact ⟨fun t member => (singles t member).notVar, beq_false_of_ne notVar⟩
  have declarations : (lines ++ [placing name origin]).filter Token.isDeclaration = [] := by
    rw [List.filter_eq_nil_iff]
    intro t member
    rw [executes t member]
    exact Bool.false_ne_true
  have code : (lines ++ [placing name origin]).filter (fun t => !t.isDeclaration) =
      lines ++ [placing name origin] := by
    rw [List.filter_eq_self]
    intro t member
    rw [executes t member]
    rfl
  have offset := labelOffsets_mem 0 0 lines (placing name origin) [] rfl
  rw [flatMap_single singles, Nat.zero_add] at offset
  unfold Scope.ofBody
  dsimp only
  rw [kept, declarations, code, List.flatMap_append, flatMap_single singles]
  exact ⟨List.append_nil lines, offset⟩

end Single

section Jump

/-- The jump to the label. -/
def jump : Token := ⟨.instruction, "GOTO", ["done"], ⟨1, "GOTO done"⟩⟩

def idle (number : Nat) : Token := ⟨.instruction, "NOP", [], ⟨number, "NOP"⟩⟩

/-- A jump over instructions that do nothing, with the label behind the last of them. -/
def jumpOver (n : Nat) : List Char :=
  ['\n'].intercalate
    ("GOTO done".toList :: (List.replicate n "NOP".toList ++ ["done".toList]))

/-- The instructions on the lines of this text. -/
def jumpLines (n : Nat) : List Token := jump :: (List.range' 2 n).map idle

theorem jumpLines_single (n : Nat) : ∀ t ∈ jumpLines n, t.Single := by
  unfold jumpLines
  rw [List.forall_mem_cons, List.forall_mem_map]
  have idles : "NOP" ≠ "CALL" := by decide
  exact ⟨⟨rfl, rfl, by decide⟩, fun number _ => ⟨rfl, rfl, idles⟩⟩

theorem length_jumpLines (n : Nat) : (jumpLines n).length = n + 1 := by
  unfold jumpLines
  rw [List.length_cons, List.length_map, List.length_range']

/-- A line without a comment or blanks around it. -/
theorem ofLine?_content {line mnemonic : String} {args : List String} {kind : Kind}
    (content : Text.trim (stripComment line.toList) = line.toList)
    (fields : (Text.fields line.toList).map String.ofList = mnemonic :: args)
    (known : Kind.ofFields? mnemonic args = some kind) (number : Nat) :
    Token.ofLine? number line.toList = .ok (some ⟨kind, mnemonic, args, ⟨number, line⟩⟩) := by
  unfold Token.ofLine?
  rw [content]
  dsimp only
  rw [fields]
  dsimp only
  rw [known, String.ofList_toList]

theorem ofLines_idle (first n : Nat) :
    Token.ofLines first (List.replicate n "NOP".toList ++ ["done".toList]) =
      .ok ((List.range' first n).map idle ++ [placing "done" ⟨first + n, "done"⟩]) := by
  induction n generalizing first with
  | zero =>
    have label : Token.ofLine? first "done".toList = .ok (some (placing "done" ⟨first, "done"⟩)) :=
      ofLine?_content (by decide) (by decide) (by decide) first
    rw [List.replicate_zero, List.nil_append, Token.ofLines, label]
    rfl
  | succ n ih =>
    have here : Token.ofLine? first "NOP".toList = .ok (some (idle first)) :=
      ofLine?_content (by decide) (by decide) (by decide) first
    rw [List.replicate_succ, List.cons_append, Token.ofLines, here, ih (first + 1), List.range'_succ,
      Nat.add_right_comm]
    rfl

/-- The tokens of the text. -/
def jumpTokens (n : Nat) : List Token := jumpLines n ++ [placing "done" ⟨n + 2, "done"⟩]

/-- What can be a line of a text. -/
def isLine (row : List Char) : Bool := !row.isEmpty && row.all fun c => c != '\n' && c != '\r'

theorem isLine_iff {row : List Char} :
    isLine row = true ↔ row ≠ [] ∧ ∀ c ∈ row, c ≠ '\n' ∧ c ≠ '\r' := by
  simp [isLine]

theorem scan_jumpOver (n : Nat) : Token.scan (jumpOver n) = .ok (jumpTokens n) := by
  have plain : ∀ row ∈ "GOTO done".toList :: (List.replicate n "NOP".toList ++ ["done".toList]),
      row ≠ [] ∧ ∀ c ∈ row, c ≠ '\n' ∧ c ≠ '\r' := by
    have jumps : isLine "GOTO done".toList = true := by decide
    have idles : isLine "NOP".toList = true := by decide
    have places : isLine "done".toList = true := by decide
    rw [List.forall_mem_cons, List.forall_mem_append, List.forall_mem_singleton]
    refine ⟨isLine_iff.mp jumps, fun row member => ?_, isLine_iff.mp places⟩
    rw [List.eq_of_mem_replicate member]
    exact isLine_iff.mp idles
  have lines := (Text.lines_intercalate _ (fun row member => (plain row member).1)
    fun row member => (plain row member).2).1
  have first : Token.ofLine? 1 "GOTO done".toList = .ok (some jump) :=
    ofLine?_content (by decide) (by decide) (by decide) 1
  unfold Token.scan jumpOver
  rw [lines, Token.ofLines, first, ofLines_idle, Nat.add_comm 2]
  rfl

theorem expand_jumpTokens (n : Nat) : Source.expand (jumpTokens n) = .ok (jumpTokens n) := by
  apply Constants.expand_of_settled
  unfold jumpTokens jumpLines
  rw [List.forall_mem_append, List.forall_mem_cons, List.forall_mem_map, List.forall_mem_singleton]
  exact ⟨⟨by decide, fun number _ => ⟨nofun, nofun⟩⟩, nofun, nofun⟩

theorem wellNested_jumpTokens (n : Nat) : WellNested (jumpTokens n) (jumpTokens n) [] := by
  have instructions : ∀ t ∈ jumpLines n, t.kind = .instruction :=
    fun t member => (jumpLines_single n t member).instruction
  have inside : ∀ t ∈ jumpTokens n, t.InBody := by
    unfold jumpTokens
    rw [List.forall_mem_append, List.forall_mem_singleton]
    exact ⟨fun t member => .inl (instructions t member), .inr rfl⟩
  have divides := Divides.nil.behind inside
  rw [List.append_nil] at divides
  refine ⟨divides, ⟨?_, ?_⟩, nofun, by decide⟩
  · unfold jumpTokens
    rw [List.forall_mem_append, List.forall_mem_singleton]
    refine ⟨fun t member keyword => ?_, nofun⟩
    rw [instructions t member] at keyword
    cases keyword
  · have unlabelled : (jumpLines n).filterMap Token.placedLabel? = [] := by
      rw [List.filterMap_eq_nil_iff]
      exact fun t member => Token.placedLabel?_of_instruction (instructions t member)
    unfold jumpTokens
    rw [List.filterMap_append, unlabelled, List.nil_append]
    exact List.nodup_singleton "done"

section

variable {n : Nat} {l : Layout}

/-- The main scope of the program, at its place. -/
def jumpPlacement (n : Nat) : Placement := ⟨(Program.ofParts (jumpTokens n) []).main, 1, []⟩

theorem tokens_jumpPlacement (n : Nat) : (jumpPlacement n).scope.tokens = jumpLines n :=
  (ofBody_single (jumpLines_single n) (by decide) ⟨n + 2, "done"⟩).1

theorem label?_jumpPlacement (n : Nat) : (jumpPlacement n).scope.label? "done" = some (n + 1) := by
  have notVar : "done" ≠ "VAR" := by decide
  have listed := (ofBody_single (jumpLines_single n) notVar ⟨n + 2, "done"⟩).2
  have distinct := (Program.distinct (wellNested_jumpTokens n).program).2 _ List.mem_cons_self
  rw [length_jumpLines] at listed
  exact Scope.label?_of_mem distinct "done" (n + 1) listed

theorem ofProgram_jumpTokens (n : Nat) :
    Layout.ofProgram (Program.ofParts (jumpTokens n) []) = .ok ⟨jumpPlacement n, []⟩ := by
  have vars : (jumpPlacement n).scope.vars = .ok [] := by
    have declarations : (jumpLines n).filter Token.isDeclaration = [] := by
      rw [List.filter_eq_nil_iff]
      intro t member
      rw [(jumpLines_single n t member).notVar]
      exact Bool.false_ne_true
    unfold Scope.vars
    rw [tokens_jumpPlacement, declarations]
    rfl
  unfold Layout.ofProgram
  simp only [bind_eq_ok, pure_eq_ok]
  exact ⟨_, vars, [], rfl, rfl⟩

theorem find?_goto : Instruction.find? "GOTO" = some ⟨"GOTO", 0x0C, .goto⟩ := by
  decide

theorem find?_nop : Instruction.find? "NOP" = some ⟨"NOP", 0x01, .nop⟩ := by
  decide

theorem encodes_jumpLines (n : Nat) : ∀ t ∈ (jumpPlacement n).scope.tokens,
    ∃ w, (Layout.mk (jumpPlacement n) []).Encodes (jumpPlacement n) t.mnemonic t.args w := by
  rw [tokens_jumpPlacement]
  unfold jumpLines
  rw [List.forall_mem_cons, List.forall_mem_map]
  refine ⟨⟨_, _, _, find?_goto, rfl, .target "done" (n + 1) rfl (label?_jumpPlacement n)⟩, ?_⟩
  exact fun number _ => ⟨_, _, _, find?_nop, rfl, .nothing _ rfl rfl⟩

/-- The word of the jump has the low bits of the label's address. -/
theorem word_of_encodes_jump {w : Word}
    (encodes : (Layout.mk (jumpPlacement n) []).Encodes (jumpPlacement n) "GOTO" ["done"] w) :
    w = ⟨0x0C, BitVec.ofNat 24 (n + 2)⟩ := by
  obtain ⟨i, address, known, rfl, carries⟩ := encodes
  cases find?_goto.symm.trans known
  cases carries with
  | nothing _ free => cases free
  | operand _ _ _ notGoto => exact absurd rfl notGoto
  | target name offset names placed =>
    cases names
    cases (label?_jumpPlacement n).symm.trans placed
    rw [show (jumpPlacement n).base + (n + 1) = n + 2 from Nat.add_comm 1 (n + 1)]

end

/-- Whatever the number of these instructions is, the text is assembled. -/
theorem jumpOver_assembled (n : Nat) : ∃ a, Assembly.ofSource (jumpOver n) = .ok a ∧
    a.layout.main.scope.tokens[0]? = some jump ∧
    a.layout.main.labelAddress? "done" = some (n + 2) ∧
    a.words[0]? = some ⟨0x0C, BitVec.ofNat 24 (n + 2)⟩ := by
  have parsed := (wellNested_jumpTokens n).program
  have placed := ofProgram_jumpTokens n
  have named := Layout.named_of_ofProgram parsed placed
  have places := Layout.places_of_ofProgram placed
  obtain ⟨words, coded⟩ := named.code_of_encodes fun p member => by
    rw [List.mem_singleton.mp member]
    exact encodes_jumpLines n
  have read : (Token.scan (jumpOver n) >>= Source.expand) = .ok (jumpTokens n) := by
    rw [scan_jumpOver]
    exact expand_jumpTokens n
  have first : (jumpPlacement n).scope.tokens[0]? = some jump := by
    rw [tokens_jumpPlacement]
    rfl
  have assembles : (Layout.mk (jumpPlacement n) []).Assembles (Program.ofParts (jumpTokens n) [])
      words :=
    ⟨places, Program.formed_of_tokens _ _ parsed, coded⟩
  obtain ⟨w, here, encodes⟩ := named.token_word assembles _ List.mem_cons_self 0 jump first
  have label : (jumpPlacement n).labelAddress? "done" = some (n + 2) := by
    unfold Placement.labelAddress?
    rw [label?_jumpPlacement]
    exact congrArg some (Nat.add_comm 1 (n + 1))
  refine ⟨⟨⟨jumpPlacement n, []⟩, words⟩, ?_, first, label, ?_⟩
  · exact Assembly.ofSource_eq_ok.mpr
      ⟨_, Program.ofSource_eq_ok.mpr ⟨_, read, parsed⟩, placed, coded⟩
  · rw [← word_of_encodes_jump encodes]
    exact here

/-- With so many of them that the label has the first address that does not fit, the jump leads to the
address zero, where no word is. -/
theorem longest_jumpOver_wraps : ∃ a, Assembly.ofSource (jumpOver 0xFFFFFE) = .ok a ∧
    a.layout.main.scope.tokens[0]? = some jump ∧ jump.mnemonic = "GOTO" ∧ jump.args = ["done"] ∧
    a.layout.main.labelAddress? "done" = some literalBound ∧
    ∃ w, a.words[0]? = some w ∧ w.literal.toNat = 0 ∧ w.literal.toNat ≠ literalBound := by
  obtain ⟨a, assembled, first, label, word⟩ := jumpOver_assembled 0xFFFFFE
  exact ⟨a, assembled, first, rfl, rfl, label, _, word, by decide, by decide⟩

end Jump

end Accumulator
