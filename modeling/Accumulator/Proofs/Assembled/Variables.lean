import Accumulator.Proofs.Assembled.LineTable
import Accumulator.Proofs.Program.Fetch

set_option autoImplicit false

/-!
The variables of a scope and its frame. The parameters of a function come first, then the names that
its lines declare, wherever they stand; the addresses count them from one on without a gap, and so do
the literals of the words that the scope begins with.
-/

namespace Accumulator

open Source

/-- The names that lines declare, in the order of the lines. -/
def declaredNames (lines : List Token) : List String :=
  (lines.filter Token.declares).flatMap Token.args

theorem FunctionText.declaredNames_allLines (f : FunctionText) :
    declaredNames f.allLines = f.params ++ declaredNames f.lines := by
  have parameters : (f.params.map (f.header.derive "VAR")).filter Token.declares =
      f.params.map (f.header.derive "VAR") := by
    rw [List.filter_eq_self]
    intro t member
    obtain ⟨name, _, rfl⟩ := List.mem_map.mp member
    rfl
  have names : (f.params.map (f.header.derive "VAR")).flatMap Token.args = f.params := by
    rw [List.flatMap_map]
    exact List.flatMap_singleton' f.params
  unfold declaredNames FunctionText.allLines
  rw [List.filter_append, List.flatMap_append, parameters, names]

/-- The declarations among the tokens of a scope are the lines that declare a variable. -/
theorem Placement.Holds.declarations {p : Placement} {lines : List Token} (holds : p.Holds lines)
    (declares : p.scope.Declares p.vars) :
    p.scope.tokens.filter Token.isDeclaration = lines.filter Token.declares := by
  obtain ⟨inside, name, header, params, terminator, shape⟩ := holds
  have body := declares.bodyLines inside shape
  have declared : ∀ t ∈ lines.filter Token.declares, t.isDeclaration = true := by
    intro t member
    exact (Bool.and_eq_true_iff.mp (List.mem_filter.mp member).2).2
  have others : ∀ t ∈ (lines.filter Token.executes).flatMap
      (expandBody (lines.filter Token.declares).length), ¬ t.isDeclaration = true := by
    intro t member
    obtain ⟨line, executes, emitted⟩ := List.mem_flatMap.mp member
    have other := (Bool.and_eq_true_iff.mp (List.mem_filter.mp executes).2).2
    rw [expandBody_not_declaration _ line t (by simpa using other) emitted]
    exact Bool.false_ne_true
  rw [shape, body.tokens, List.filter_append, List.filter_eq_self.mpr declared,
    List.filter_eq_nil_iff.mpr others, List.append_nil]

namespace Placement

/-- A scope at its place whose own lines are known: its variables, their addresses, and the words that
declare them. -/
structure Allocates (p : Placement) (own : List Token) (words : List Word) : Prop where
  count : (p.scope.tokens.filter Token.isDeclaration).length = p.vars.length
  distinct : p.vars.Nodup
  identifiers : ∀ name ∈ p.vars, Text.isIdentifier name = true
  addresses : p.vars.map p.frameAddress? = (List.range' 1 p.vars.length).map some
  order : p.vars = p.scope.params ++ declaredNames own
  parameters : ∀ i param, p.scope.params[i]? = some param → p.frameAddress? param = some (i + 1)
  resolved : ∀ i name, p.vars[i]? = some name → p.resolve name = .ok (i + 1)
  first : ((p.wordsIn words).take p.vars.length).map (fun w => (w.opcode, w.literal.toNat)) =
    (List.range' 1 p.vars.length).map fun i => (0x03, i)
  others : ∀ w ∈ (p.wordsIn words).drop p.vars.length, w.opcode ≠ 0x03

/-- A name that is no variable of a scope is a label of it, or nothing. -/
structure Hides (p : Placement) (name : String) : Prop where
  unaddressed : p.frameAddress? name = none
  label : ∀ address, p.labelAddress? name = some address → p.resolve name = .ok address
  undeclared : p.labelAddress? name = none → p.resolve name = .error (.undeclaredVariable name)

theorem map_frameAddress? {p : Placement} (distinct : p.vars.Nodup) :
    p.vars.map p.frameAddress? = (List.range' 1 p.vars.length).map some := by
  apply List.ext_getElem (by simp)
  intro i inside within
  rw [List.length_map] at inside
  rw [List.getElem_map, List.getElem_map, List.getElem_range',
    frameAddress?_of_nodup distinct (List.getElem?_eq_getElem inside), Nat.one_mul, Nat.add_comm]

theorem exists_token (p : Placement) {i : Nat} (inside : i < p.size) :
    ∃ t, p.scope.tokens[i]? = some t :=
  ⟨_, List.getElem?_eq_getElem inside⟩

theorem hides_of_not_mem {p : Placement} {name : String}
    (identifier : Text.isIdentifier name = true) (absent : name ∉ p.vars) : p.Hides name := by
  have unaddressed : p.frameAddress? name = none := by
    unfold Placement.frameAddress?
    rw [Option.map_eq_none_iff, List.idxOf?_eq_none_iff]
    exact absent
  refine ⟨unaddressed, ?_, ?_⟩
  · intro address label
    unfold Placement.resolve
    rw [numeral?_of_identifier name identifier, unaddressed, label]
  · intro label
    unfold Placement.resolve
    rw [numeral?_of_identifier name identifier, unaddressed, label, if_pos identifier]

end Placement

/-- The codes of the table tell the declarations from the other instructions. -/
theorem Instruction.var_code : ∀ i ∈ Instruction.table,
    i.operation = .var ↔ i.code = 0x03 := by
  decide +kernel

namespace Layout.Assembles

variable {l : Layout} {program : Program} {words : List Word} {p : Placement}

/-- Each word of a scope is that of its token. -/
theorem word_in (assembles : l.Assembles program words) (member : p ∈ l.placements) {i : Nat}
    {t : Token} (found : p.scope.tokens[i]? = some t) :
    ∃ instruction n, Instruction.find? t.mnemonic = some instruction ∧
      (p.wordsIn words)[i]? = some ⟨instruction.code, BitVec.ofNat 24 n⟩ ∧
      l.Refers p t instruction.operation n := by
  obtain ⟨instruction, n, named, fetched, refers⟩ := assembles.fetch_token p member i t found
  have inside : i < p.size := (List.getElem?_eq_some_iff.mp found).1
  have first := (assembles.places.bounds p member).1
  have place : p.base - 1 + i = p.base + i - 1 := by omega
  refine ⟨instruction, n, named, ?_, refers⟩
  rw [p.wordsIn_getElem? words i inside, place]
  exact ((fetch?_eq_some_iff _ _ _).mp fetched).2

theorem wordsIn_length (assembles : l.Assembles program words) (member : p ∈ l.placements) :
    (p.wordsIn words).length = p.size := by
  have bounds := assembles.places.bounds p member
  have length := assembles.length
  exact p.wordsIn_length words (by omega)

/-- The words with the first indices of a scope declare its variables, with their addresses. -/
theorem declaring_word (assembles : l.Assembles program words) (member : p ∈ l.placements)
    {i : Nat} (below : i < p.vars.length) :
    (p.wordsIn words)[i]? = some ⟨0x03, BitVec.ofNat 24 (i + 1)⟩ := by
  have fits := (assembles.declares p member).fits
  obtain ⟨t, found⟩ := p.exists_token (Nat.lt_of_lt_of_le below fits)
  obtain ⟨instruction, n, named, placed, refers⟩ := assembles.word_in member found
  have var := (assembles.var_iff p member i t instruction found named).mpr below
  rw [var] at refers
  rw [placed, assembles.declared_address p member i t n found below refers,
    (Instruction.var_code instruction (Instruction.mem_of_find? named).1).mp var]

theorem other_word (assembles : l.Assembles program words) (member : p ∈ l.placements) {i : Nat}
    {w : Word} (behind : p.vars.length ≤ i) (placed : (p.wordsIn words)[i]? = some w) :
    w.opcode ≠ 0x03 := by
  have inside : i < p.size := by
    rw [← assembles.wordsIn_length member]
    exact (List.getElem?_eq_some_iff.mp placed).1
  obtain ⟨t, found⟩ := p.exists_token inside
  obtain ⟨instruction, n, named, word, _⟩ := assembles.word_in member found
  rw [word] at placed
  cases placed
  intro declares
  have var := (Instruction.var_code instruction (Instruction.mem_of_find? named).1).mpr declares
  have below := (assembles.var_iff p member i t instruction found named).mp var
  omega

/-- The literals of the declarations count up from one, so long as the program is small enough for
the literals to hold its addresses. -/
theorem first_words (assembles : l.Assembles program words) (member : p ∈ l.placements)
    (small : l.size < literalBound) :
    ((p.wordsIn words).take p.vars.length).map (fun w => (w.opcode, w.literal.toNat)) =
      (List.range' 1 p.vars.length).map fun i => (0x03, i) := by
  have fits : p.vars.length ≤ p.size := (assembles.declares p member).fits
  have size := assembles.wordsIn_length member
  have bounds := assembles.places.bounds p member
  apply List.ext_getElem
  · rw [List.length_map, List.length_take, List.length_map, List.length_range']
    omega
  · intro i inside within
    rw [List.length_map, List.length_range'] at within
    have word := assembles.declaring_word member within
    rw [List.getElem?_eq_getElem (by omega)] at word
    rw [List.getElem_map, List.getElem_take, Option.some.inj word, List.getElem_map,
      List.getElem_range']
    dsimp only
    rw [literal_exact (by omega), Nat.one_mul, Nat.add_comm]

theorem allocates (assembles : l.Assembles program words) (member : p ∈ l.placements)
    (small : l.size < literalBound) {lines own : List Token} (holds : p.Holds lines)
    (names : declaredNames lines = p.scope.params ++ declaredNames own) :
    p.Allocates own words := by
  have declares := assembles.declares p member
  have order : p.vars = p.scope.params ++ declaredNames own := by
    rw [declares.vars_eq, holds.declarations declares, ← names]
    rfl
  refine ⟨declares.names.length_eq, declares.nodup, declares.identifier,
    Placement.map_frameAddress? declares.nodup, order, ?_, ?_,
    assembles.first_words member small, ?_⟩
  · intro i param found
    apply Placement.frameAddress?_of_nodup declares.nodup
    rw [order, List.getElem?_append_left (List.getElem?_eq_some_iff.mp found).1]
    exact found
  · intro i name found
    exact assembles.resolve_variable p member i name found
      (declares.identifier name (List.mem_of_getElem? found))
  · intro w behind
    obtain ⟨i, placed⟩ := List.mem_iff_getElem?.mp behind
    rw [List.getElem?_drop] at placed
    exact assembles.other_word member (Nat.le_add_right _ i) placed

end Layout.Assembles

theorem Assembly.main_params {text : List Char} {a : Assembly}
    (compiled : Assembly.ofSource text = .ok a) : a.layout.main.scope.params = [] := by
  obtain ⟨program, source, placed, _⟩ := Assembly.ofSource_eq_ok.mp compiled
  obtain ⟨_, _, parsed⟩ := Program.ofSource_eq_ok.mp source
  obtain ⟨_, _, _, mainScope, _⟩ := Program.divides parsed
  rw [(Layout.places_of_ofProgram placed).main, mainScope]
  rfl

/-- In a program small enough for its addresses, each scope has one variable for each of its
declarations, with the addresses from one on in their order: first the parameters, then the names that
its lines declare. Its first words declare them with these addresses, and no other word declares
anything. A variable of one scope is none of another scope that does not declare its name too. -/
theorem variables_fill_frames (text : List Char) (a : Assembly)
    (compiled : Assembly.ofSource text = .ok a) (small : a.layout.size < literalBound) :
    ∃ tokens main functions, (Token.scan text >>= Source.expand) = .ok tokens ∧
      Divides tokens main functions ∧ a.layout.main.scope.params = [] ∧
      a.layout.main.Allocates main a.words ∧
      List.Forall₂ (fun f p => p.scope.name = f.name ∧ p.scope.params = f.params ∧
        p.Allocates f.lines a.words) functions a.layout.functions ∧
      ∀ p ∈ a.layout.placements, ∀ q ∈ a.layout.placements, ∀ name ∈ q.vars,
        name ∉ p.vars → p.Hides name := by
  obtain ⟨program, tokens, main, functions, describes⟩ := Assembly.describes compiled
  have assembles := describes.assembles
  have bare := Assembly.main_params compiled
  refine ⟨tokens, main, functions, describes.expanded, describes.divides, bare, ?_, ?_, ?_⟩
  · apply assembles.allocates List.mem_cons_self small describes.main
    rw [bare, List.nil_append]
  · apply describes.functions.imp
    rintro f p ⟨function, shape, holds⟩
    refine ⟨congrArg Scope.name shape, congrArg Scope.params shape, ?_⟩
    apply assembles.allocates (List.mem_cons_of_mem _ function) small holds
    rw [f.declaredNames_allLines, shape]
    rfl
  · intro p _ q other name declared absent
    exact Placement.hides_of_not_mem ((assembles.declares q other).identifier name declared) absent

/-- Declarations that are scattered over the main scope and over a function with a parameter. Both
scopes have a variable x, and only the main scope has a variable z. -/
def scatteredDeclarations : List Char :=
  "CALL f 1\nVAR x\nFN f a\nNOP\nVAR x\nMOVFW x\nRET\nEND\nLABEL y\nMOVFW z\nVAR z\n".toList

/-- The declarations of both scopes come first, with the literals one and two. The variable z of the
main scope is hidden from the function. -/
theorem scatteredDeclarations_frames :
    ∃ a, Assembly.ofSource scatteredDeclarations = .ok a ∧ a.layout.size < literalBound ∧
      a.words = [⟨0x03, 1⟩, ⟨0x03, 2⟩, ⟨0x04, 1⟩, ⟨0x05, 3⟩, ⟨0x08, 8⟩, ⟨0x06, 2⟩, Word.halt,
        ⟨0x03, 1⟩, ⟨0x03, 2⟩, ⟨0x01, 0⟩, ⟨0x06, 2⟩, ⟨0x09, 0⟩] ∧
      (∃ tokens main functions, Divides tokens main functions ∧
        a.layout.main.Allocates main a.words ∧
        List.Forall₂ (fun f p => p.scope.name = f.name ∧ p.scope.params = f.params ∧
          p.Allocates f.lines a.words) functions a.layout.functions) ∧
      ∀ p ∈ a.layout.functions, p.Hides "z" := by
  have characters : scatteredDeclarations = _ := String.toList_ofList
  have facts : ∃ a, Assembly.ofSource scatteredDeclarations = .ok a ∧
      a.layout.size < literalBound ∧
      a.words = [⟨0x03, 1⟩, ⟨0x03, 2⟩, ⟨0x04, 1⟩, ⟨0x05, 3⟩, ⟨0x08, 8⟩, ⟨0x06, 2⟩, Word.halt,
        ⟨0x03, 1⟩, ⟨0x03, 2⟩, ⟨0x01, 0⟩, ⟨0x06, 2⟩, ⟨0x09, 0⟩] ∧
      "z" ∈ a.layout.main.vars ∧ ∀ p ∈ a.layout.functions, "z" ∉ p.vars := by
    rw [characters]
    decide +kernel
  obtain ⟨a, compiled, small, words, declared, absent⟩ := facts
  obtain ⟨tokens, main, functions, _, divides, _, mainScope, others, hidden⟩ :=
    variables_fill_frames scatteredDeclarations a compiled small
  refine ⟨a, compiled, small, words, ⟨tokens, main, functions, divides, mainScope, others⟩, ?_⟩
  intro p function
  exact hidden p (List.mem_cons_of_mem _ function) a.layout.main List.mem_cons_self "z" declared
    (absent p function)

end Accumulator
