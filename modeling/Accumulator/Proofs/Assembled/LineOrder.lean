import Accumulator.Proofs.Program.Acceptance
import Accumulator.Proofs.Program.Lowering
import Mathlib.Algebra.GroupWithZero.Nat

set_option autoImplicit false

/-!
The words of a program in the order of its source: those of the main scope, the halt word, then the
functions one after the other, and within each scope the declarations before the other lines.
-/

namespace Accumulator

open Source

/-- The words at the addresses of a scope. -/
def Placement.wordsIn (p : Placement) (words : List Word) : List Word :=
  (words.drop (p.base - 1)).take p.size

theorem Placement.wordsIn_getElem? (p : Placement) (words : List Word) (i : Nat)
    (inside : i < p.size) : (p.wordsIn words)[i]? = words[p.base - 1 + i]? := by
  unfold Placement.wordsIn
  rw [List.getElem?_take_of_lt inside, List.getElem?_drop]

theorem Placement.wordsIn_length (p : Placement) (words : List Word)
    (fits : p.base - 1 + p.size ≤ words.length) : (p.wordsIn words).length = p.size := by
  unfold Placement.wordsIn
  rw [List.length_take, List.length_drop]
  omega

theorem endFrom_eq_sum (base : Nat) (ps : List Placement) :
    endFrom base ps = base + (ps.map Placement.size).sum := by
  induction ps generalizing base with
  | nil => rfl
  | cons p rest ih =>
    rw [endFrom_cons, ih, List.map_cons, List.sum_cons, Nat.add_assoc]

/-- The words of placements that follow one another stand behind one another. -/
theorem Contiguous.flatMap_wordsIn {base : Nat} {ps : List Placement} (words : List Word)
    (contiguous : Contiguous base ps) (positive : 1 ≤ base) :
    ps.flatMap (fun p => p.wordsIn words) =
      (words.drop (base - 1)).take (ps.map Placement.size).sum := by
  induction ps generalizing base with
  | nil => rfl
  | cons p rest ih =>
    obtain ⟨start, later⟩ := contiguous
    have next : base + p.size - 1 = base - 1 + p.size := by omega
    rw [List.flatMap_cons, ih later (by omega), next, List.map_cons, List.sum_cons, List.take_add,
      List.drop_drop]
    unfold Placement.wordsIn
    rw [start]

namespace Layout

/-- The words at the addresses of a scope are arranged as its lines say. -/
def Follows (l : Layout) (p : Placement) (lines : List Token) (words : List Word) : Prop :=
  ∃ declarations blocks, l.Arranges p lines (p.wordsIn words) declarations blocks

variable {l : Layout} {program : Program} {words : List Word}

theorem Assembles.length_eq_sum (assembles : l.Assembles program words) :
    words.length = l.main.size + 1 + (l.functions.map Placement.size).sum := by
  have last := l.size_succ
  rw [endFrom_eq_sum] at last
  have length := assembles.length
  omega

theorem Assembles.words_eq (assembles : l.Assembles program words) :
    words = l.main.wordsIn words ++
      Word.halt :: l.functions.flatMap fun p => p.wordsIn words := by
  have length := assembles.length_eq_sum
  have before : l.main.size < words.length := by omega
  have separator : words[l.main.size] = Word.halt := by
    have placed := assembles.separator
    rw [List.getElem?_eq_getElem before] at placed
    exact Option.some.inj placed
  have main : l.main.wordsIn words = words.take l.main.size := by
    unfold Placement.wordsIn
    rw [assembles.places.main_base, Nat.sub_self, List.drop_zero]
  have functions : l.functions.flatMap (fun p => p.wordsIn words) =
      words.drop (l.main.size + 1) := by
    rw [assembles.places.contiguous.flatMap_wordsIn words (by omega)]
    apply List.take_of_length_le
    rw [List.length_drop]
    omega
  rw [main, functions, ← separator, ← List.drop_eq_getElem_cons before, List.take_append_drop]

/-- The words at the addresses of a scope encode its tokens. -/
theorem Assembles.encodes (assembles : l.Assembles program words) (named : l.Named)
    (p : Placement) (member : p ∈ l.placements) :
    List.Forall₂ (fun t w => l.Encodes p t.mnemonic t.args w) p.scope.tokens
      (p.wordsIn words) := by
  have bounds := assembles.places.bounds p member
  have length := assembles.length
  have sizes : (p.wordsIn words).length = p.size := p.wordsIn_length words (by omega)
  apply List.forall₂_of_length_eq_of_get sizes.symm
  intro i inside within
  obtain ⟨w, placed, encodes⟩ :=
    named.token_word assembles p member i _ (List.getElem?_eq_getElem inside)
  have shift : p.base + i - 1 = p.base - 1 + i := by omega
  rw [shift, ← p.wordsIn_getElem? words i inside, List.getElem?_eq_getElem within] at placed
  cases placed
  exact encodes

end Layout

/-- The tokens of a source are divided into the lines of the main scope and the functions. The words
are those of the main scope, the halt word, and those of the functions in their order; each scope's
words follow its lines, where the parameters of a function are declared first. -/
theorem words_follow_lines (text : List Char) (a : Assembly)
    (compiled : Assembly.ofSource text = .ok a) :
    ∃ tokens main functions, (Token.scan text >>= Source.expand) = .ok tokens ∧
      Divides tokens main functions ∧
      a.words = a.layout.main.wordsIn a.words ++
        Word.halt :: a.layout.functions.flatMap (fun p => p.wordsIn a.words) ∧
      a.words.length = a.layout.main.size + 1 + (a.layout.functions.map Placement.size).sum ∧
      a.layout.Follows a.layout.main main a.words ∧
      List.Forall₂ (fun f p => p.scope.name = f.name ∧ a.layout.Follows p f.allLines a.words)
        functions a.layout.functions := by
  obtain ⟨program, source, placed, _⟩ := Assembly.ofSource_eq_ok.mp compiled
  have assembles := Assembly.assembles compiled source
  unfold Program.ofSource at source
  obtain ⟨scanned, read, source⟩ := bind_eq_ok.mp source
  obtain ⟨tokens, expanded, parsed⟩ := bind_eq_ok.mp source
  have named := Layout.named_of_ofProgram parsed placed
  have distinct := (Program.distinct parsed).2
  obtain ⟨main, functions, divides, mainScope, scopes⟩ := Program.divides parsed
  obtain ⟨mainLines, functionLines⟩ := divides.inBody
  have places := assembles.places
  have follows : ∀ p ∈ a.layout.placements, ∀ name header params lines terminator,
      (∀ t ∈ lines, t.InBody) →
      p.scope = Scope.ofBody name header params (lines.map Token.kept) terminator →
      a.layout.Follows p lines a.words := by
    intro p member name header params lines terminator inside shape
    exact Layout.arranges_of_encodes inside shape (named.declares p member)
      (distinct p.scope (places.scope_mem p member)) (assembles.encodes named p member)
  refine ⟨tokens, main, functions, bind_eq_ok.mpr ⟨scanned, read, expanded⟩, divides,
    assembles.words_eq, assembles.length_eq_sum, ?_, ?_⟩
  · apply follows _ List.mem_cons_self mainName none [] main none
    · exact fun t line => (mainLines t line).2
    · rw [places.main, mainScope]
  · apply forall₂_of_map_eq (places.functions.trans scopes).symm
    intro f listed p member shape
    have inside : ∀ t ∈ f.allLines, t.InBody := by
      apply FunctionText.forall_allLines Token.InBody
      · exact fun _ => .inl rfl
      · exact fun t line => (functionLines f listed t line).2
    refine ⟨by rw [← shape]; rfl, ?_⟩
    apply follows p (List.mem_cons_of_mem _ member) f.name (some f.header) f.params f.allLines
      (some f.terminator) inside
    exact shape.symm

/-- A main scope that goes on behind a function and declares its second variable last, with a call
that passes a variable and a number. -/
def splitMain : List Char :=
  ("VAR x\nstart\nCALL add x 7\nFN add a b\nVAR sum\nMOVFW a\nADD,W b\nLABEL out\nRET\nEND\n" ++
    "GOTO start\nVAR y\n").toList

/-- The two declarations come first, the arguments go into the cells behind both of them, and the
jump leads to the word behind the declarations. -/
theorem splitMain_words :
    ∃ a, Assembly.ofSource splitMain = .ok a ∧
      a.words = [⟨0x03, 1⟩, ⟨0x03, 2⟩, ⟨0x06, 1⟩, ⟨0x05, 3⟩, ⟨0x04, 7⟩, ⟨0x05, 4⟩, ⟨0x08, 10⟩,
        ⟨0x0C, 3⟩, Word.halt, ⟨0x03, 1⟩, ⟨0x03, 2⟩, ⟨0x03, 3⟩, ⟨0x06, 1⟩, ⟨0x11, 2⟩, ⟨0x09, 0⟩] ∧
      ∃ tokens main functions, Divides tokens main functions ∧
        a.layout.Follows a.layout.main main a.words ∧
        List.Forall₂ (fun f p => p.scope.name = f.name ∧ a.layout.Follows p f.allLines a.words)
          functions a.layout.functions := by
  have characters : splitMain = _ := Text.toList_append_of String.toList_ofList String.toList_ofList
  have facts : ∃ a, Assembly.ofSource splitMain = .ok a ∧
      a.words = [⟨0x03, 1⟩, ⟨0x03, 2⟩, ⟨0x06, 1⟩, ⟨0x05, 3⟩, ⟨0x04, 7⟩, ⟨0x05, 4⟩, ⟨0x08, 10⟩,
        ⟨0x0C, 3⟩, Word.halt, ⟨0x03, 1⟩, ⟨0x03, 2⟩, ⟨0x03, 3⟩, ⟨0x06, 1⟩, ⟨0x11, 2⟩,
        ⟨0x09, 0⟩] := by
    rw [characters]
    decide +kernel
  obtain ⟨a, compiled, words⟩ := facts
  obtain ⟨tokens, main, functions, _, divides, _, _, mainLines, functionLines⟩ :=
    words_follow_lines splitMain a compiled
  exact ⟨a, compiled, words, tokens, main, functions, divides, mainLines, functionLines⟩

end Accumulator
