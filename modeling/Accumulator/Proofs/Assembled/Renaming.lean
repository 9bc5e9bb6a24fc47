import Accumulator.Proofs.Assembled.Mirroring
import Mathlib.Logic.Equiv.Basic

set_option autoImplicit false

/-!
The names in a program do not matter: where all functions, variables and labels get other names, the
words stay the same.
-/

namespace Accumulator

open Source

/-- A token with its names replaced: the arguments that are names, and the mnemonic of a bare label. -/
def Source.Token.renamed (r : Renaming) (t : Token) : Token :=
  { t with
    mnemonic := if t.kind = .label then r.name t.mnemonic else t.mnemonic
    args := t.args.map r.name }

def FunctionText.renamed (r : Renaming) (f : FunctionText) : FunctionText :=
  ⟨f.header.renamed r, f.lines.map (Token.renamed r), f.terminator.renamed r⟩

/-- The renaming that exchanges two names. -/
def Renaming.swap (a b : String) (first : Text.isIdentifier a = true)
    (second : Text.isIdentifier b = true) (notFirst : mainName ≠ a) (notSecond : mainName ≠ b) :
    Renaming where
  map := Equiv.swap a b
  identifier := by
    intro text identifier
    rw [Equiv.swap_apply_def]
    split
    · exact second
    · split
      · exact first
      · exact identifier
  injective _ _ _ _ same := (Equiv.swap a b).injective same
  main := Equiv.swap_apply_of_ne_of_ne notFirst notSecond

variable {r : Renaming}

theorem Source.Token.placedLabel?_renamed (t : Token) :
    (t.renamed r).placedLabel? = t.placedLabel?.map r.name := by
  obtain ⟨kind, mnemonic, args, origin⟩ := t
  unfold Token.renamed Token.placedLabel?
  cases kind with
  | label => rfl
  | directive => rfl
  | instruction => rfl
  | keyword word =>
    cases word with
    | function => rfl
    | finish => rfl
    | label =>
      match args with
      | [] => rfl
      | [name] => rfl
      | _ :: _ :: _ => rfl

theorem Source.Token.InBody.renamed {t : Token} (inside : t.InBody) : (t.renamed r).InBody := by
  unfold Token.InBody
  rw [t.placedLabel?_renamed, Option.isSome_map]
  exact inside

theorem placedLabels_renamed (lines : List Token) :
    (lines.map (Token.renamed r)).filterMap Token.placedLabel? =
      (lines.filterMap Token.placedLabel?).map r.name := by
  rw [List.filterMap_map, List.map_filterMap]
  apply List.filterMap_congr
  exact fun t _ => t.placedLabel?_renamed

theorem Divides.renamed {tokens main : List Token} {functions : List FunctionText}
    (divides : Divides tokens main functions) :
    Divides (tokens.map (Token.renamed r)) (main.map (Token.renamed r))
      (functions.map (FunctionText.renamed r)) := by
  induction divides with
  | nil => exact .nil
  | line t rest main functions inside _ ih => exact .line _ _ _ _ inside.renamed ih
  | function f rest main functions opens inside closes _ ih =>
    have lines : ∀ t ∈ (f.renamed r).lines, t.InBody := by
      intro t member
      obtain ⟨raw, listed, rfl⟩ := List.mem_map.mp member
      exact (inside raw listed).renamed
    have behind := Divides.function (f.renamed r) _ _ _ opens lines closes ih
    rw [List.map_append, List.map_cons, List.map_cons]
    exact behind

theorem LabelsApart.renamed {lines : List Token} (apart : LabelsApart lines) :
    LabelsApart (lines.map (Token.renamed r)) := by
  refine ⟨?_, ?_⟩
  · intro t member label text argument
    obtain ⟨raw, listed, rfl⟩ := List.mem_map.mp member
    obtain ⟨name, given, rfl⟩ := List.mem_map.mp argument
    rw [r.isIdentifier_name]
    exact apart.named raw listed label name given
  · rw [placedLabels_renamed]
    exact apart.distinct.map r.name_injective

theorem FunctionText.Proper.renamed {f : FunctionText} (proper : f.Proper) :
    (f.renamed r).Proper := by
  obtain ⟨name, params, args, identifiers⟩ := proper.header
  refine ⟨⟨r.name name, params.map r.name, ?_, ?_⟩, proper.lines.renamed, ?_⟩
  · change f.header.args.map r.name = _
    rw [args, List.map_cons]
  · intro text member
    rw [← List.map_cons] at member
    obtain ⟨given, listed, rfl⟩ := List.mem_map.mp member
    rw [r.isIdentifier_name]
    exact identifiers given listed
  · change f.terminator.args.map r.name = []
    rw [proper.terminator, List.map_nil]

theorem mirrored_renamed (lines : List Token) (inside : ∀ t ∈ lines, t.InBody) :
    Mirrored r lines (lines.map (Token.renamed r)) := by
  induction lines with
  | nil => exact .nil
  | cons t lines ih =>
    have rest := ih fun other member => inside other (List.mem_cons_of_mem _ member)
    rcases (inside t List.mem_cons_self).cases with ⟨name, places, _⟩ | ⟨instruction, _, _⟩
    · have places' : (t.renamed r).placedLabel? = some (r.name name) := by
        rw [t.placedLabel?_renamed, places, Option.map_some]
      exact .label _ _ name _ _ places places' rest
    · have mnemonic : (t.renamed r).mnemonic = t.mnemonic := by
        unfold Token.renamed
        rw [instruction]
        rfl
      exact .instruction _ _ _ _ instruction instruction ⟨mnemonic, rfl⟩ rest

theorem mirrors_renamed {functions : List FunctionText}
    (inside : ∀ f ∈ functions, ∀ t ∈ f.lines, t.InBody) :
    List.Forall₂ (FunctionText.Mirrors r) functions (functions.map (FunctionText.renamed r)) := by
  rw [List.forall₂_map_right_iff, List.forall₂_same]
  exact fun f listed => ⟨rfl, mirrored_renamed f.lines (inside f listed)⟩

theorem WellNested.renamed {tokens main : List Token} {functions : List FunctionText}
    (nested : WellNested tokens main functions) :
    WellNested (tokens.map (Token.renamed r)) (main.map (Token.renamed r))
      (functions.map (FunctionText.renamed r)) := by
  have inside : ∀ f ∈ functions, ∀ t ∈ f.lines, t.InBody :=
    fun f listed t line => (nested.divides.inBody.2 f listed t line).2
  refine ⟨nested.divides.renamed, nested.main.renamed, ?_, ?_⟩
  · intro f member
    obtain ⟨raw, listed, rfl⟩ := List.mem_map.mp member
    exact (nested.proper raw listed).renamed
  · have names : mainName :: (functions.map (FunctionText.renamed r)).map FunctionText.name =
        (mainName :: functions.map FunctionText.name).map r.name := by
      rw [List.map_cons, r.name_main, List.map_map, List.map_map]
      congr 1
      apply List.map_congr_left
      intro f listed
      have mirrors : f.Mirrors r (f.renamed r) :=
        ⟨rfl, mirrored_renamed f.lines (inside f listed)⟩
      exact mirrors.name
    rw [names]
    exact nested.names.map r.name_injective

/-- Tokens that lead to words lead to the same words under other names, as long as the names are kept
apart, the main scope keeps its own, and no label gets the name of a declaration. -/
theorem renaming_keeps_words (r : Renaming) (tokens : List Token) (program : Program) (l : Layout)
    (words : List Word) (parsed : Program.ofTokens tokens = .ok program)
    (placed : Layout.ofProgram program = .ok l) (coded : l.code = .ok words)
    (plain : ∀ t ∈ tokens, t.placedLabel?.map r.name ≠ some "VAR") :
    ∃ program' l', Program.ofTokens (tokens.map (Token.renamed r)) = .ok program' ∧
      Layout.ofProgram program' = .ok l' ∧ l'.code = .ok words := by
  obtain ⟨main, functions, nested, rfl⟩ := Program.wellNested parsed
  obtain ⟨mainLines, functionLines⟩ := nested.divides.inBody
  have plain' : ∀ t ∈ tokens.map (Token.renamed r), t.placedLabel? ≠ some "VAR" := by
    intro t member
    obtain ⟨raw, listed, rfl⟩ := List.mem_map.mp member
    rw [raw.placedLabel?_renamed]
    exact plain raw listed
  obtain ⟨l', placed', coded'⟩ := nested.mirrored_code nested.renamed
    (mirrored_renamed main fun t line => (mainLines t line).2)
    (mirrors_renamed fun f listed t line => (functionLines f listed t line).2) plain' placed coded
  exact ⟨_, l', nested.renamed.program, placed', coded'⟩

/-- The function and the variable of `callAndJump` exchange their names. -/
def doubleAndTwice : Renaming :=
  .swap "double" "twice" (by decide +kernel) (by decide +kernel) (by decide +kernel)
    (by decide +kernel)

/-- The renamed program differs in its tokens, and has the same twelve words. -/
theorem callAndJump_renamed :
    ∃ tokens, (Token.scan callAndJump >>= Source.expand) = .ok tokens ∧
      tokens.map (Token.renamed doubleAndTwice) ≠ tokens ∧
      (∀ t ∈ tokens, t.placedLabel?.map doubleAndTwice.name ≠ some "VAR") ∧
      ∃ program, Program.ofTokens tokens = .ok program ∧ ∃ l, Layout.ofProgram program = .ok l ∧
        ∃ words, l.code = .ok words ∧ words.length = 12 ∧
          ∃ program' l', Program.ofTokens (tokens.map (Token.renamed doubleAndTwice)) = .ok program' ∧
            Layout.ofProgram program' = .ok l' ∧ l'.code = .ok words := by
  have characters : callAndJump = _ :=
    Text.toList_append_of String.toList_ofList String.toList_ofList
  have facts : ∃ tokens, (Token.scan callAndJump >>= Source.expand) = .ok tokens ∧
      tokens.map (Token.renamed doubleAndTwice) ≠ tokens ∧
      (∀ t ∈ tokens, t.placedLabel?.map doubleAndTwice.name ≠ some "VAR") ∧
      ∃ program, Program.ofTokens tokens = .ok program ∧ ∃ l, Layout.ofProgram program = .ok l ∧
        ∃ words, l.code = .ok words ∧ words.length = 12 := by
    rw [characters]
    decide +kernel
  obtain ⟨tokens, read, other, plain, program, parsed, l, placed, words, coded, length⟩ := facts
  exact ⟨tokens, read, other, plain, program, parsed, l, placed, words, coded, length,
    renaming_keeps_words doubleAndTwice tokens program l words parsed placed coded plain⟩

end Accumulator
